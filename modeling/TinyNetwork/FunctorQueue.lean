import TinyNetwork.EventLoop
import TinyNetwork.Runs

/-! A loop and the threads that queue functors in it, under every interleaving. Each
functor goes from the queue into one batch and from the batch into execution, in the
order of the pushes; and a loop that may block has either nothing in its queue or a
wakeup that is there or on its way. -/
namespace TinyNetwork.FunctorQueue
open Runs EventLoop

variable {α : Type}

/- `producers` is the number of other threads between their push and their wakeup,
`owing` says that the loop thread is; `pushed` and `executed` are the history. -/
structure State (α : Type) where
  loop : EventLoop α
  producers : Nat
  owing : Bool
  pushed : List α
  executed : List α
  deriving DecidableEq, Repr

inductive Action (α : Type) where
  | advance (reported : List Active)
  | push (cb : α)
  | wake
  | pushInLoop (cb : α)
  | wakeInLoop
  | quit (inLoopThread : Bool)
  deriving DecidableEq, Repr

def called (l : EventLoop α) : List α :=
  match l.phase with
  | .batch (f :: _) => [f]
  | _ => []

def step (s : State α) : Action α → Option (State α)
  | .advance reported =>
      if s.owing then none
      else do
        let loop ← s.loop.advance reported
        some { s with loop, executed := s.executed ++ called s.loop }
  | .push cb =>
      some { s with
        loop := s.loop.emplaceBack cb
        producers := if s.loop.mustWake false then s.producers + 1 else s.producers
        pushed := s.pushed ++ [cb] }
  | .wake =>
      if 0 < s.producers then some { s with loop := s.loop.wakeup, producers := s.producers - 1 } else none
  | .pushInLoop cb =>
      if s.loop.inUserCode && !s.owing then
        some { s with
          loop := s.loop.emplaceBack cb
          owing := s.loop.mustWake true
          pushed := s.pushed ++ [cb] }
      else none
  | .wakeInLoop => if s.owing then some { s with loop := s.loop.wakeup, owing := false } else none
  | .quit inLoopThread => some { s with loop := s.loop.requestQuit inLoopThread }

def start : State α := ⟨entered, 0, false, [], []⟩

def remaining (l : EventLoop α) : List α :=
  match l.phase with
  | .batch rest => rest
  | .calling rest => rest
  | _ => []

def swapped (l : EventLoop α) : Bool :=
  match l.phase with
  | .testing | .polling | .batch _ | .calling _ => true
  | _ => false

def marked (l : EventLoop α) : Bool :=
  match l.phase with
  | .swapping | .batch _ | .calling _ => true
  | _ => false

structure Inv (s : State α) : Prop where
  order : s.executed ++ remaining s.loop ++ s.loop.pendingFunctors = s.pushed
  flag : marked s.loop = true → s.loop.callingPendingFunctors = true
  awake : swapped s.loop = true → s.loop.pendingFunctors ≠ [] →
    0 < s.loop.wakeupFd ∨ 0 < s.producers ∨ s.owing = true
  quiet : s.owing = true → s.loop.inUserCode = true

theorem startInv : Inv (start : State α) :=
  ⟨rfl, nofun, fun _ nonempty => absurd rfl nonempty, nofun⟩

theorem advanceInv {s : State α} (inv : Inv s) (free : s.owing = false) {reported : List Active}
    {loop : EventLoop α} (ok : s.loop.advance reported = some loop) :
    Inv { s with loop, executed := s.executed ++ called s.loop } := by
  obtain ⟨order, flag, awake, _⟩ := inv
  have idle : s.owing = true → loop.inUserCode = true := fun owing => by
    rw [free] at owing; contradiction
  cases phase : s.loop.phase with
  | testing =>
    have before := awake (by rw [swapped, phase])
    simp only [remaining, phase] at order
    simp only [advance, phase] at ok
    split at ok
    · cases Option.some.inj ok
      exact ⟨by simpa [remaining, called, phase] using order, nofun, nofun, idle⟩
    · cases Option.some.inj ok
      exact ⟨by simpa [remaining, called, phase] using order, nofun, fun _ => before, idle⟩
  | polling =>
    simp only [advance, phase] at ok
    split at ok <;> try contradiction
    cases Option.some.inj ok
    simp only [remaining, phase] at order
    exact ⟨by simpa [remaining, called, phase] using order, nofun, nofun, idle⟩
  | handling active =>
    simp only [remaining, phase] at order
    cases active with
    | nil =>
      simp only [advance, phase] at ok
      cases Option.some.inj ok
      exact ⟨by simpa [remaining, called, phase] using order, nofun, nofun, idle⟩
    | cons channel rest =>
      cases channel with
      | wakeup =>
        -- the counter is drained while the queue is still to be swapped
        simp only [advance, phase] at ok
        cases Option.some.inj ok
        exact ⟨by simpa [remaining, called, phase, handleRead] using order, nofun, nofun, idle⟩
      | callback =>
        simp only [advance, phase] at ok
        cases Option.some.inj ok
        exact ⟨by simpa [remaining, called, phase] using order, nofun, nofun, idle⟩
  | marking =>
    simp only [advance, phase] at ok
    cases Option.some.inj ok
    simp only [remaining, phase] at order
    exact ⟨by simpa [remaining, called, phase] using order, fun _ => rfl, nofun, idle⟩
  | swapping =>
    have set := flag (by rw [marked, phase])
    simp only [advance, phase] at ok
    cases Option.some.inj ok
    simp only [remaining, phase] at order
    exact ⟨by simpa [remaining, called, phase] using order, fun _ => set,
      fun _ nonempty => absurd rfl nonempty, idle⟩
  | batch rest =>
    have before := awake (by rw [swapped, phase])
    have set := flag (by rw [marked, phase])
    simp only [remaining, phase] at order
    cases rest with
    | nil =>
      simp only [advance, phase] at ok
      cases Option.some.inj ok
      exact ⟨by simpa [remaining, called, phase] using order, nofun, fun _ => before, idle⟩
    | cons f rest =>
      simp only [advance, phase] at ok
      cases Option.some.inj ok
      exact ⟨by simpa [remaining, called, phase] using order, fun _ => set, fun _ => before, idle⟩
  | calling rest =>
    have before := awake (by rw [swapped, phase])
    have set := flag (by rw [marked, phase])
    simp only [remaining, phase] at order
    simp only [advance, phase] at ok
    cases Option.some.inj ok
    exact ⟨by simpa [remaining, called, phase] using order, fun _ => set, fun _ => before, idle⟩
  | ended => simp [advance, phase] at ok

theorem userMarked {l : EventLoop α} (user : l.inUserCode = true) (behind : swapped l = true) :
    marked l = true := by
  unfold inUserCode swapped marked at *
  cases phase : l.phase <;> simp_all

theorem pushInv {s : State α} (inv : Inv s) {cb : α} {producers : Nat} {owing : Bool}
    (owed : swapped s.loop = true → 0 < producers ∨ owing = true)
    (quiet : owing = true → s.loop.inUserCode = true) :
    Inv { s with loop := s.loop.emplaceBack cb, producers, owing, pushed := s.pushed ++ [cb] } := by
  refine ⟨?_, inv.flag, fun swapped _ => .inr (owed swapped), quiet⟩
  rw [← inv.order]
  simp [emplaceBack, remaining]

theorem wakeInv {s : State α} (inv : Inv s) {producers : Nat} {owing : Bool} (less : owing = true → s.owing = true) :
    Inv { s with loop := s.loop.wakeup, producers, owing } :=
  ⟨inv.order, inv.flag, fun _ _ => .inl (Nat.succ_pos _), fun h => inv.quiet (less h)⟩

theorem stepInv {s t : State α} {a : Action α} (inv : Inv s) (ok : step s a = some t) : Inv t := by
  cases a with
  | advance reported =>
    simp only [step] at ok
    split at ok <;> try contradiction
    rename_i free
    simp only [bind, Option.bind_eq_some_iff] at ok
    obtain ⟨loop, moved, last⟩ := ok
    cases Option.some.inj last
    exact advanceInv inv (by simpa using free) moved
  | push cb =>
    cases Option.some.inj ok
    exact pushInv inv (fun _ => .inl (Nat.succ_pos _)) inv.quiet
  | wake =>
    simp only [step] at ok
    split at ok <;> try contradiction
    cases Option.some.inj ok
    exact wakeInv inv id
  | pushInLoop cb =>
    simp only [step] at ok
    split at ok <;> try contradiction
    rename_i inside
    cases Option.some.inj ok
    rw [Bool.and_eq_true] at inside
    refine pushInv inv (fun behind => .inr ?_) (fun _ => inside.1)
    rw [mustWake, inv.flag (userMarked inside.1 behind)]
    rfl
  | wakeInLoop =>
    simp only [step] at ok
    split at ok <;> try contradiction
    cases Option.some.inj ok
    exact wakeInv inv nofun
  | quit inLoopThread =>
    cases Option.some.inj ok
    cases inLoopThread with
    | false => exact ⟨inv.order, inv.flag, inv.awake, inv.quiet⟩
    | true => exact ⟨inv.order, inv.flag, fun _ _ => .inl (Nat.succ_pos _), inv.quiet⟩

theorem pollingFree {s : State α} (inv : Inv s) (phase : s.loop.phase = .polling) : s.owing = false := by
  cases owing : s.owing with
  | false => rfl
  | true =>
    have user := inv.quiet owing
    rw [inUserCode, phase] at user
    contradiction

theorem functorsKept {actions : List (Action α)} {s : State α} (ok : run step start actions = some s) :
    s.executed ++ remaining s.loop ++ s.loop.pendingFunctors = s.pushed ∧
    (s.loop.phase = .polling → s.loop.pendingFunctors ≠ [] →
      0 < s.loop.wakeupFd ∨ 0 < s.producers) := by
  have inv : Inv s := runInvariant stepInv startInv ok
  refine ⟨inv.order, fun phase nonempty => ?_⟩
  have free := pollingFree inv phase
  rcases inv.awake (by rw [swapped, phase]) nonempty with counter | producer | owing
  · exact .inl counter
  · exact .inr producer
  · rw [free] at owing
    contradiction

def sampleActions : List (Action Nat) :=
  [.push 1, .advance [], .wake, .advance [.wakeup, .callback], .advance [], .pushInLoop 2, .advance [],
    .advance [], .advance [], .advance [], .advance [], .pushInLoop 3, .wakeInLoop, .advance [], .push 4,
    .advance [], .advance [], .advance [], .advance []]

theorem functorsKeptSample :
    ∃ s, run step start sampleActions = some s ∧
      s.executed ++ remaining s.loop ++ s.loop.pendingFunctors = s.pushed ∧
      s.loop.phase = .polling ∧ s.loop.pendingFunctors = [3, 4] ∧
      (0 < s.loop.wakeupFd ∨ 0 < s.producers) := by
  have done : (run step start sampleActions).isSome = true := by decide
  obtain ⟨s, ok⟩ := Option.isSome_iff_exists.mp done
  have polling : (run step start sampleActions).map (fun s => s.loop.phase) = some .polling := by decide
  have pending : (run step start sampleActions).map (fun s => s.loop.pendingFunctors) = some [3, 4] := by
    decide
  rw [ok] at polling pending
  have phase : s.loop.phase = .polling := Option.some.inj polling
  have queue : s.loop.pendingFunctors = [3, 4] := Option.some.inj pending
  obtain ⟨order, awake⟩ := functorsKept ok
  exact ⟨s, ok, order, phase, queue, awake phase (by rw [queue]; decide)⟩

end TinyNetwork.FunctorQueue
