import TinyNetwork.FunctorQueue

/-! How long a functor waits. A pass of the loop ends where loop() tests its flag again.
A functor that comes before the swap of a pass is called in that pass; one that comes
behind it waits for the next pass, and for no further one. -/
namespace TinyNetwork.LoopPasses
open Runs EventLoop FunctorQueue

variable {α : Type} {s t u : State α} {a : Action α} {passes pushes : Nat}

def inBatch (l : EventLoop α) : Bool :=
  match l.phase with
  | .batch _ | .calling _ => true
  | _ => false

def ends (s : State α) : Action α → Nat
  | .advance _ =>
      match s.loop.phase with
      | .batch [] => 1
      | _ => 0
  | _ => 0

def passesOf (s : State α) : List (Action α) → Nat
  | [] => 0
  | a :: rest => ends s a + ((step s a).map fun t => passesOf t rest).getD 0

def waits (l : EventLoop α) : Nat := if inBatch l then 2 else 1

/- After so many passes, the first `pushes` functors are in the batch or called. -/
structure Served (need pushes passes : Nat) (s : State α) : Prop where
  called : need ≤ passes → pushes ≤ s.executed.length
  swapped : need ≤ passes + 1 → inBatch s.loop = true → pushes ≤ s.executed.length + (remaining s.loop).length

theorem servedQuiet {need : Nat} (served : Served need pushes passes s) (executed : t.executed = s.executed)
    (phase : t.loop.phase = s.loop.phase) : Served need pushes passes t := by
  refine ⟨fun enough => executed ▸ served.called enough, fun enough batch => ?_⟩
  have same : remaining t.loop = remaining s.loop := by rw [remaining, remaining, phase]
  rw [executed, same]
  refine served.swapped enough ?_
  rwa [inBatch, ← phase]

theorem advancedServed {need : Nat} (inv : FunctorQueue.Inv s) (few : pushes ≤ s.pushed.length)
    (served : Served need pushes passes s) {reported : List Active} {loop : EventLoop α}
    (ok : s.loop.advance reported = some loop) :
    Served need pushes (passes + ends s (.advance reported))
      { s with loop, executed := s.executed ++ called s.loop } := by
  have total := congrArg List.length inv.order
  obtain ⟨done, batched⟩ := served
  -- outside the batch nothing is called, and the pass goes on
  have outside (phase : ∀ rest, s.loop.phase ≠ .batch rest) (later : inBatch loop = false) :
      Served need pushes (passes + ends s (.advance reported))
        { s with loop, executed := s.executed ++ called s.loop } := by
    have none_ : called s.loop = [] := by
      unfold called
      split
      · rename_i there
        exact absurd there (phase _)
      · rfl
    have going : ends s (.advance reported) = 0 := by
      simp only [ends]
      split
      · rename_i there
        exact absurd there (phase _)
      · rfl
    rw [none_, List.append_nil, going]
    exact ⟨done, fun _ batch => by simp [later] at batch⟩
  cases phase : s.loop.phase with
  | testing =>
    refine outside (by simp [phase]) ?_
    simp only [advance, phase] at ok
    split at ok <;> cases Option.some.inj ok <;> rfl
  | polling =>
    refine outside (by simp [phase]) ?_
    simp only [advance, phase] at ok
    split at ok <;> try contradiction
    cases Option.some.inj ok
    rfl
  | handling active =>
    refine outside (by simp [phase]) ?_
    cases active with
    | nil => simp only [advance, phase] at ok; cases Option.some.inj ok; rfl
    | cons channel rest =>
      cases channel <;> simp only [advance, phase] at ok <;> cases Option.some.inj ok <;> rfl
  | marking =>
    refine outside (by simp [phase]) ?_
    simp only [advance, phase] at ok
    cases Option.some.inj ok
    rfl
  | swapping =>
    -- the whole queue becomes the batch
    simp only [advance, phase] at ok
    cases Option.some.inj ok
    simp only [remaining, phase, List.append_nil, List.length_append] at total
    have none_ : called s.loop = [] := by rw [called, phase]
    have going : ends s (.advance reported) = 0 := by rw [ends, phase]
    refine ⟨fun enough => ?_, fun _ _ => ?_⟩
    · rw [none_, List.append_nil]
      exact done (by omega)
    · rw [none_, List.append_nil]
      simp only [remaining]
      omega
  | batch rest =>
    cases rest with
    | nil =>
      -- the batch is through: everything in it was called
      simp only [advance, phase] at ok
      cases Option.some.inj ok
      have none_ : called s.loop = [] := by rw [called, phase]
      have last : ends s (.advance reported) = 1 := by rw [ends, phase]
      refine ⟨fun enough => ?_, fun _ batch => by simp [inBatch] at batch⟩
      have all := batched (last ▸ enough) (by rw [inBatch, phase])
      rw [none_, List.append_nil]
      simpa [remaining, phase] using all
    | cons f rest =>
      simp only [advance, phase] at ok
      cases Option.some.inj ok
      have one : called s.loop = [f] := by rw [called, phase]
      have going : ends s (.advance reported) = 0 := by rw [ends, phase]
      refine ⟨fun enough => ?_, fun enough _ => ?_⟩
      · have before := done (by omega)
        simp only [one, List.length_append]
        omega
      · have all := batched (by omega) (by rw [inBatch, phase])
        simp only [remaining, phase, List.length_cons] at all
        simp only [one, remaining, List.length_append, List.length_singleton]
        omega
  | calling rest =>
    simp only [advance, phase] at ok
    cases Option.some.inj ok
    have none_ : called s.loop = [] := by rw [called, phase]
    have going : ends s (.advance reported) = 0 := by rw [ends, phase]
    rw [none_, List.append_nil, going]
    refine ⟨done, fun enough _ => ?_⟩
    have all := batched enough (by rw [inBatch, phase])
    simpa only [remaining, phase] using all
  | ended => simp [advance, phase] at ok

theorem servedStep {need : Nat} (inv : FunctorQueue.Inv s) (few : pushes ≤ s.pushed.length)
    (served : Served need pushes passes s) (ok : step s a = some t) :
    Served need pushes (passes + ends s a) t ∧ s.pushed <+: t.pushed := by
  cases a with
  | advance reported =>
    obtain ⟨-, moved⟩ := Option.ite_none_left_eq_some.mp ok
    simp only [bind, Option.bind_eq_some_iff] at moved
    obtain ⟨loop, moved, last⟩ := moved
    cases Option.some.inj last
    exact ⟨advancedServed inv few served moved, List.prefix_refl _⟩
  | push cb =>
    cases Option.some.inj ok
    exact ⟨servedQuiet served rfl rfl, List.prefix_append _ _⟩
  | wake =>
    obtain ⟨-, last⟩ := Option.ite_none_right_eq_some.mp ok
    cases Option.some.inj last
    exact ⟨servedQuiet served rfl rfl, List.prefix_refl _⟩
  | pushInLoop cb =>
    obtain ⟨-, last⟩ := Option.ite_none_right_eq_some.mp ok
    cases Option.some.inj last
    exact ⟨servedQuiet served rfl rfl, List.prefix_append _ _⟩
  | wakeInLoop =>
    obtain ⟨-, last⟩ := Option.ite_none_right_eq_some.mp ok
    cases Option.some.inj last
    exact ⟨servedQuiet served rfl rfl, List.prefix_refl _⟩
  | quit inLoopThread =>
    cases Option.some.inj ok
    cases inLoopThread <;> exact ⟨servedQuiet served rfl rfl, List.prefix_refl _⟩

theorem servedRun {need : Nat} {actions : List (Action α)} (inv : FunctorQueue.Inv s)
    (few : pushes ≤ s.pushed.length) (served : Served need pushes passes s) (ok : run step s actions = some t) :
    FunctorQueue.Inv t ∧ Served need pushes (passes + passesOf s actions) t ∧ s.pushed <+: t.pushed := by
  induction actions generalizing s passes with
  | nil => cases Option.some.inj ok; exact ⟨inv, served, List.prefix_refl _⟩
  | cons a rest ih =>
    obtain ⟨u, first, later⟩ := runCons.mp ok
    obtain ⟨next, more⟩ := servedStep inv few served first
    have few' := Nat.le_trans few more.length_le
    obtain ⟨inv', last, more'⟩ := ih (stepInv inv first) few' next later
    refine ⟨inv', ?_, more.trans more'⟩
    rw [passesOf, first, Option.map_some, Option.getD_some, ← Nat.add_assoc]
    exact last

theorem servedInPasses {before after : List (Action α)} (reached : run step start before = some s)
    (ok : run step s after = some t) (enough : waits s.loop ≤ passesOf s after) : s.pushed <+: t.executed := by
  have inv : FunctorQueue.Inv s := runInvariant stepInv startInv reached
  have new : Served (waits s.loop) s.pushed.length 0 s := by
    refine ⟨fun none_ => ?_, fun one batch => ?_⟩
    · unfold waits at none_
      split at none_ <;> omega
    · rw [waits, if_pos batch] at one
      omega
  obtain ⟨inv', served, more⟩ := servedRun inv (Nat.le_refl _) new ok
  have called := served.called (by omega)
  have executed : t.executed <+: t.pushed := ⟨_, by rw [← List.append_assoc]; exact inv'.order⟩
  exact List.prefix_of_prefix_length_le more executed called

def batchActions : List (Action Nat) :=
  [.push 1, .wake, .advance [], .advance [.wakeup], .advance [], .advance [], .advance [], .advance [],
    .advance [], .pushInLoop 2]

def laterActions : List (Action Nat) :=
  [.wakeInLoop, .advance [], .advance [], .advance [], .advance [.wakeup], .push 3, .advance [], .advance [],
    .advance [], .advance [], .advance [], .advance [], .advance [], .advance [], .advance []]

theorem servedInPassesSample :
    ∃ s t, run step start batchActions = some s ∧ run step s laterActions = some t ∧ waits s.loop = 2 ∧
      s.pushed = [1, 2] ∧ t.pushed = [1, 2, 3] ∧ s.pushed <+: t.executed := by
  have facts : ((run step start batchActions).bind fun s => (run step s laterActions).map fun t =>
      (waits s.loop, passesOf s laterActions, s.pushed, t.pushed)) = some (2, 2, [1, 2], [1, 2, 3]) := by decide
  obtain ⟨s, reached, later⟩ := Option.bind_eq_some_iff.mp facts
  obtain ⟨t, ok, same⟩ := Option.map_eq_some_iff.mp later
  simp only [Prod.mk.injEq] at same
  obtain ⟨need, passes, pushed, pushed'⟩ := same
  exact ⟨s, t, reached, ok, need, pushed, pushed', servedInPasses reached ok (by omega)⟩

end TinyNetwork.LoopPasses
