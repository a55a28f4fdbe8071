import Mathlib.Tactic.Common

/-! Machines whose steps may fail. A step returns `none` when its action is not
enabled in the state (a guard, a fault, an exception); a run is a finite list of
actions all of which went through. Everything here is over arbitrary states and
actions: a reachable state is the end of a run from the start. -/
namespace TinyNetwork.Runs

variable {σ α : Type} {step : σ → α → Option σ}

def run (step : σ → α → Option σ) : σ → List α → Option σ
  | s, [] => some s
  | s, a :: rest => do
      let t ← step s a
      run step t rest

theorem runCons {s : σ} {a rest last} :
    run step s (a :: rest) = some last ↔
      ∃ t, step s a = some t ∧ run step t rest = some last := by
  simp only [run, bind, Option.bind_eq_some_iff]

theorem runInvariant {Inv : σ → Prop}
    (kept : ∀ {s a t}, Inv s → step s a = some t → Inv t)
    {s : σ} {actions last} (holds : Inv s) (ok : run step s actions = some last) : Inv last := by
  induction actions generalizing s with
  | nil => cases Option.some.inj ok; exact holds
  | cons a rest ih =>
    obtain ⟨t, ht, hl⟩ := runCons.mp ok
    exact ih (kept holds ht) hl

def Along (step : σ → α → Option σ) (P : σ → α → Prop) : σ → List α → Prop
  | _, [] => True
  | s, a :: rest => P s a ∧ ∀ t, step s a = some t → Along step P t rest

instance decidableAlong {P : σ → α → Prop} [∀ s a, Decidable (P s a)] :
    (actions : List α) → (s : σ) → Decidable (Along step P s actions)
  | [], _ => .isTrue trivial
  | a :: rest, s =>
      match h : step s a with
      | none => decidable_of_iff (P s a) ⟨fun p => ⟨p, fun t ok => by rw [h] at ok; contradiction⟩, And.left⟩
      | some t =>
          have : Decidable (Along step P t rest) := decidableAlong rest t
          decidable_of_iff (P s a ∧ Along step P t rest)
            ⟨fun both => ⟨both.1, fun u ok => by rw [h] at ok; cases ok; exact both.2⟩,
              fun both => ⟨both.1, both.2 t h⟩⟩

theorem alongOf {P : σ → α → Prop} {actions : List α} (all : ∀ s, ∀ a ∈ actions, P s a) (s : σ) :
    Along step P s actions := by
  induction actions generalizing s with
  | nil => trivial
  | cons a rest ih =>
    exact ⟨all s a List.mem_cons_self,
      fun t _ => ih (fun s b member => all s b (List.mem_cons_of_mem _ member)) t⟩

theorem alongCons {P : σ → α → Prop} {s t : σ} {a : α} {rest : List α} (ok : step s a = some t) (meets : P s a)
    (along : Along step P t rest) : Along step P s (a :: rest) :=
  ⟨meets, fun _ other => Option.some.inj (ok.symm.trans other) ▸ along⟩

theorem alongSnoc {P : σ → α → Prop} {s : σ} {front : List α} {a : α} (along : Along step P s front)
    (last : ∀ t, run step s front = some t → P t a) : Along step P s (front ++ [a]) := by
  induction front generalizing s with
  | nil => exact ⟨last s rfl, fun _ _ => trivial⟩
  | cons b rest ih =>
    exact ⟨along.1, fun t ht => ih (along.2 t ht) fun u hu => last u (runCons.mpr ⟨t, ht, hu⟩)⟩

theorem runInvariantAlong {Inv : σ → Prop} {P : σ → α → Prop}
    (kept : ∀ {s a t}, Inv s → P s a → step s a = some t → Inv t)
    {s : σ} {actions last} (holds : Inv s) (along : Along step P s actions)
    (ok : run step s actions = some last) : Inv last := by
  induction actions generalizing s with
  | nil => cases Option.some.inj ok; exact holds
  | cons a rest ih =>
    obtain ⟨t, ht, hl⟩ := runCons.mp ok
    exact ih (kept holds along.1 ht) (along.2 t ht) hl

theorem alongShown {Inv : σ → Prop} {P Q : σ → α → Prop} (shown : ∀ {s a}, Inv s → P s a → Q s a)
    (kept : ∀ {s a t}, Inv s → P s a → step s a = some t → Inv t)
    {s : σ} {actions : List α} (holds : Inv s) (along : Along step P s actions) : Along step Q s actions := by
  induction actions generalizing s with
  | nil => trivial
  | cons a rest ih =>
    exact ⟨shown holds along.1, fun t ht => ih (kept holds along.1 ht) (along.2 t ht)⟩

theorem runProgress {Inv : σ → Prop} {P : σ → α → Prop}
    (kept : ∀ {s a}, Inv s → P s a → ∃ t, step s a = some t ∧ Inv t)
    {s : σ} {actions} (holds : Inv s) (along : Along step P s actions) :
    ∃ last, run step s actions = some last ∧ Inv last := by
  induction actions generalizing s with
  | nil => exact ⟨s, rfl, holds⟩
  | cons a rest ih =>
    obtain ⟨t, ht, inv⟩ := kept holds along.1
    obtain ⟨last, hl, inv'⟩ := ih inv (along.2 t ht)
    exact ⟨last, runCons.mpr ⟨t, ht, hl⟩, inv'⟩

theorem runProgressWith {Inv : σ → Prop} {P : σ → α → Prop} {Does : σ → α → σ → Prop}
    (kept : ∀ {s a}, Inv s → P s a → ∃ t, step s a = some t ∧ Inv t ∧ Does s a t)
    {s : σ} {actions} (holds : Inv s) (along : Along step P s actions) :
    Along step (fun s a => ∀ t, step s a = some t → Does s a t) s actions ∧
      ∃ last, run step s actions = some last ∧ Inv last := by
  induction actions generalizing s with
  | nil => exact ⟨trivial, s, rfl, holds⟩
  | cons a rest ih =>
    obtain ⟨t, ht, inv, does⟩ := kept holds along.1
    obtain ⟨all, last, hl, inv'⟩ := ih inv (along.2 t ht)
    refine ⟨⟨fun u hu => ?_, fun u hu => ?_⟩, last, runCons.mpr ⟨t, ht, hl⟩, inv'⟩
    · cases Option.some.inj (ht.symm.trans hu)
      exact does
    · cases Option.some.inj (ht.symm.trans hu)
      exact all

/- A condition on each step that is exactly what keeps the states good is, over whole
runs, exactly what makes every state on the way good. -/
theorem alongIff {Inv Good : σ → Prop} {P W : σ → α → Prop}
    (each : ∀ {s a}, Inv s → P s a → ∃ t, step s a = some t ∧ (W s a ↔ Good t) ∧ (Good t → Inv t))
    {s : σ} {actions} (holds : Inv s) (along : Along step P s actions) :
    Along step (fun s a => ∀ t, step s a = some t → Good t) s actions ↔ Along step W s actions := by
  induction actions generalizing s with
  | nil => exact .rfl
  | cons a rest ih =>
    obtain ⟨t, ht, exactly, kept⟩ := each holds along.1
    constructor
    · intro good
      refine ⟨exactly.mpr (good.1 t ht), fun u hu => ?_⟩
      cases Option.some.inj (ht.symm.trans hu)
      exact (ih (kept (good.1 t ht)) (along.2 t ht)).mp (good.2 t ht)
    · intro meets
      refine ⟨fun u hu => ?_, fun u hu => ?_⟩
      · cases Option.some.inj (ht.symm.trans hu)
        exact exactly.mp meets.1
      · cases Option.some.inj (ht.symm.trans hu)
        exact (ih (kept (exactly.mp meets.1)) (along.2 t ht)).mpr (meets.2 t ht)

/- Simulation: a relation that one allowed step keeps relates whole runs of the
machine and of its specification on the same actions. -/
theorem runSimulation {τ : Type} {spec : τ → α → τ} {R : σ → τ → Prop} {P : σ → α → Prop}
    (kept : ∀ {s q a t}, R s q → P s a → step s a = some t → R t (spec q a))
    {s : σ} {q : τ} {actions last} (related : R s q) (along : Along step P s actions)
    (ok : run step s actions = some last) : R last (actions.foldl spec q) := by
  induction actions generalizing s q with
  | nil => cases Option.some.inj ok; exact related
  | cons a rest ih =>
    obtain ⟨t, ht, hl⟩ := runCons.mp ok
    exact ih (kept related along.1 ht) (along.2 t ht) hl

theorem runDescends {Inv : σ → Prop} {measure : σ → Nat}
    (down : ∀ {s}, Inv s → 0 < measure s → ∃ a t, step s a = some t ∧ Inv t ∧ measure t < measure s)
    {s : σ} (holds : Inv s) :
    ∃ actions last, run step s actions = some last ∧ Inv last ∧ measure last = 0 := by
  induction size : measure s using Nat.strongRecOn generalizing s with
  | ind n ih =>
    by_cases more : 0 < measure s
    · obtain ⟨a, t, ht, inv, less⟩ := down holds more
      obtain ⟨rest, last, hl, inv', done⟩ := ih (measure t) (size ▸ less) inv rfl
      exact ⟨a :: rest, last, runCons.mpr ⟨t, ht, hl⟩, inv', done⟩
    · exact ⟨[], s, rfl, holds, Nat.eq_zero_of_not_pos more⟩

end TinyNetwork.Runs
