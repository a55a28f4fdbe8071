import TinyNetwork.TaskRuns

/-! Where the workers of a pool are while there are tasks. Nobody sleeps while more tasks
are queued than workers are on their way to them; and if nothing is added once stop() has
been called, a worker that returned has left an empty queue behind for good. -/
namespace TinyNetwork.TaskAttention
open ThreadPool
open TaskRuns (Sound)

def eager : Phase → Bool
  | .starting | .locking | .testing | .popping => true
  | _ => false

def heading (p : ThreadPool) : Nat := (List.range p.spawned).countP fun w => eager (p.workers w)

def Attended (p : ThreadPool) : Prop := ∀ v, p.workers v = .waiting → p.queue.length ≤ heading p

theorem countUpdate {β : Type} (P : β → Bool) (f : Nat → β) {w n : Nat} (below : w < n) (b : β) :
    ((List.range n).countP fun v => P (Function.update f w b v)) + (P (f w)).toNat =
      ((List.range n).countP fun v => P (f v)) + (P b).toNat := by
  induction n with
  | zero => omega
  | succ n ih =>
    simp only [List.range_succ, List.countP_append, List.countP_singleton]
    rcases Nat.lt_succ_iff_lt_or_eq.mp below with less | rfl
    · have other : Function.update f w b n = f n := Function.update_of_ne (by omega) ..
      have before := ih less
      rw [other]
      omega
    · have same : ((List.range w).countP fun v => P (Function.update f w b v)) =
          (List.range w).countP fun v => P (f v) := by
        refine List.countP_congr fun v member => ?_
        rw [Function.update_of_ne (Nat.ne_of_lt (List.mem_range.mp member))]
      rw [same, Function.update_self]
      cases P (f w) <;> cases P b <;> simp

section Attention
variable {p q : ThreadPool}

theorem turnAttended (attended : Attended p) {w : Nat} (below : w < p.spawned) {phase : Phase}
    {mutex : Option Nat} {queue : List Task} (sleeps : phase = .waiting → queue = [])
    (fits : queue.length + (eager (p.workers w)).toNat ≤ p.queue.length + (eager phase).toNat ∨ queue = []) :
    Attended { p.turn w phase with mutex, queue } := by
  intro v waiting
  rcases fits with fits | rfl
  · by_cases same : v = w
    · rw [same] at waiting
      have asleep : phase = .waiting := (Function.update_self ..).symm.trans waiting
      rw [sleeps asleep]
      exact Nat.zero_le _
    · have before := attended v ((Function.update_of_ne same ..).symm.trans waiting)
      have moved := countUpdate eager p.workers below phase
      simp only [heading, turn] at before ⊢
      omega
  · exact Nat.zero_le _

theorem workAttended (sound : Sound p) (attended : Attended p) {w : Nat} (ok : p.runInThread w = some q) :
    Attended q := by
  have below (there : p.workers w ≠ .absent) := TaskRuns.present sound there
  cases TaskRuns.workedOf ok with
  | starts there | locks there | sees there | finishes there =>
    exact turnAttended attended (below (by simp [there])) (by simp) (.inl (by simp [there, eager, turn]))
  | returns there empty | blocks there empty =>
    exact turnAttended attended (below (by simp [there])) (fun _ => empty) (.inr empty)
  | waits there =>
    have empty := sound.blocked w there
    exact turnAttended attended (below (by simp [there])) (fun _ => empty) (.inr empty)
  | @pops task rest there front =>
    refine turnAttended attended (below (by simp [there])) ?_ (.inl ?_)
    · split <;> simp
    · rw [front, there, List.length_cons]
      exact Nat.le_add_right _ _

theorem addAttended (sound : Sound p) (attended : Attended p) {task : Task} {woken : Option Nat}
    (ok : p.add task woken = some q) : Attended q := by
  obtain ⟨-, ⟨rfl, nobody⟩ | ⟨w, waiting, rfl⟩⟩ := TaskRuns.addCases ok
  · intro v waiting
    have there : p.workers v = .waiting := waiting
    exact absurd there (nobody v (TaskRuns.present sound (by simp [there])))
  · have below := TaskRuns.present sound (w := w) (by simp [waiting])
    exact turnAttended attended below (by simp) (.inl (by simp [waiting, eager]))

theorem spawnAttended (sound : Sound p) (attended : Attended p) (ok : p.spawn = some q) : Attended q := by
  unfold spawn at ok
  split at ok <;> try contradiction
  cases Option.some.inj ok
  have absent := (sound.absent p.spawned).mpr (Nat.le_refl _)
  intro v waiting
  have other : v ≠ p.spawned := by
    rintro rfl
    have starting : Phase.starting = .waiting := (Function.update_self ..).symm.trans waiting
    contradiction
  have before := attended v ((Function.update_of_ne other ..).symm.trans waiting)
  have old : eager (p.workers p.spawned) = false := congrArg eager absent
  have whole : ((List.range (p.spawned + 1)).countP fun v => eager (p.workers v)) = heading p := by
    rw [List.range_succ, List.countP_append, List.countP_singleton, old]
    rfl
  have moved := countUpdate eager p.workers (Nat.lt_succ_self p.spawned) .starting
  rw [whole, old] at moved
  refine Nat.le_trans before ?_
  rw [Bool.toNat_false, Nat.add_zero] at moved
  exact Nat.le_trans (Nat.le_add_right _ _) (Nat.le_of_eq moved.symm)

theorem stopAttended (ok : p.stop = some q) : Attended q := by
  unfold stop at ok
  split at ok <;> try contradiction
  cases Option.some.inj ok
  exact fun v waiting => absurd waiting (TaskRuns.notifiedAwake _)

end Attention

theorem stepAttended {a b : TaskRuns.State} {act : TaskRuns.Action} (sound : Sound a.pool)
    (attended : Attended a.pool) (stepped : TaskRuns.step a act = some b) : Attended b.pool := by
  cases TaskRuns.steppedOf stepped with
  | starts ok =>
    unfold start at ok
    split at ok <;> try contradiction
    rw [← Option.some.inj ok]
    exact attended
  | spawns ok => exact spawnAttended sound attended ok
  | stops ok => exact stopAttended ok
  | destroys ok =>
    have still := stopAttended ok
    exact fun v waiting => still v waiting
  | adds ok => exact addAttended sound attended ok
  | pops _ ok => exact workAttended sound attended ok
  | finishes _ ok => exact workAttended sound attended ok
  | moves _ _ ok => exact workAttended sound attended ok
  | @wakes w pool ok =>
    unfold wake at ok
    split at ok <;> try contradiction
    rename_i waiting
    rw [← Option.some.inj ok]
    have below := TaskRuns.present sound (w := w) (by simp [waiting])
    exact turnAttended attended below (by simp) (.inl (by simp [waiting, eager]))

def Left (p : ThreadPool) : Prop := ∀ w, p.workers w = .returned → p.queue = []

section Leaving
variable {p q : ThreadPool}

theorem turnLeft (left : Left p) {w : Nat} {phase : Phase} {mutex : Option Nat}
    (empty : phase = .returned → p.queue = []) : Left { p.turn w phase with mutex } := by
  intro v returned
  by_cases same : v = w
  · rw [same] at returned
    exact empty ((Function.update_self ..).symm.trans returned)
  · exact left v ((Function.update_of_ne same ..).symm.trans returned)

theorem workLeft (left : Left p) {w : Nat} (ok : p.runInThread w = some q) : Left q := by
  cases TaskRuns.workedOf ok with
  | starts there | locks there | sees there | waits there | blocks there | finishes there =>
    exact turnLeft left (by simp)
  | returns there empty => exact turnLeft left fun _ => empty
  | @pops task rest there front =>
    intro v returned
    by_cases same : v = w
    · rw [same] at returned
      have now := (Function.update_self ..).symm.trans returned
      split at now <;> contradiction
    · have before := left v ((Function.update_of_ne same ..).symm.trans returned)
      rw [front] at before
      contradiction

theorem stopLeft (left : Left p) (ok : p.stop = some q) : Left q := by
  unfold stop at ok
  split at ok <;> try contradiction
  cases Option.some.inj ok
  exact fun v returned => left v ((TaskRuns.notifiedEq (by simp) (by simp)).mp returned)

theorem addLeft (sound : Sound p) (orderly : p.started = true → p.running = true) {task : Task}
    {woken : Option Nat} (ok : p.add task woken = some q) : Left q := by
  have none_ : ∀ v, p.workers v ≠ .returned := by
    intro v returned
    have off := sound.returned v returned
    have there := TaskRuns.present sound (w := v) (by simp [returned])
    have on : p.started = true := by
      by_contra never
      have unborn := (sound.idle (by simpa using never)).1
      omega
    rw [orderly on] at off
    contradiction
  obtain ⟨-, ⟨rfl, -⟩ | ⟨w, waiting, rfl⟩⟩ := TaskRuns.addCases ok
  · exact fun v returned => absurd returned (none_ v)
  · intro v returned
    by_cases same : v = w
    · rw [same] at returned
      have now : Phase.locking = .returned := (Function.update_self ..).symm.trans returned
      contradiction
    · exact absurd ((Function.update_of_ne same ..).symm.trans returned) (none_ v)

end Leaving

theorem stepLeft {a b : TaskRuns.State} {act : TaskRuns.Action} (sound : Sound a.pool) (left : Left a.pool)
    (orderly : (∃ inside callable woken, act = .add inside callable woken) →
      a.pool.started = true → a.pool.running = true)
    (stepped : TaskRuns.step a act = some b) : Left b.pool := by
  cases act with
  | start =>
    obtain ⟨p, ok, last⟩ := Option.bind_eq_some_iff.mp stepped
    cases Option.some.inj last
    unfold start at ok
    split at ok <;> try contradiction
    rw [← Option.some.inj ok]
    exact left
  | spawn =>
    obtain ⟨p, ok, last⟩ := Option.bind_eq_some_iff.mp stepped
    cases Option.some.inj last
    unfold spawn at ok
    split at ok <;> try contradiction
    rw [← Option.some.inj ok]
    have turned : Left (a.pool.turn a.pool.spawned .starting) := turnLeft left (by simp)
    exact fun v returned => turned v returned
  | stop =>
    obtain ⟨p, ok, last⟩ := Option.bind_eq_some_iff.mp stepped
    cases Option.some.inj last
    exact stopLeft left ok
  | destroy =>
    obtain ⟨p, ok, last⟩ := Option.bind_eq_some_iff.mp stepped
    cases Option.some.inj last
    obtain ⟨stopped, done, rfl⟩ := TaskRuns.destroyCases ok
    have still := stopLeft left done
    exact fun v returned => still v returned
  | add inside callable woken =>
    obtain ⟨-, done⟩ := Option.ite_none_right_eq_some.mp stepped
    obtain ⟨p, ok, last⟩ := Option.bind_eq_some_iff.mp done
    cases Option.some.inj last
    exact addLeft sound (orderly ⟨inside, callable, woken, rfl⟩) ok
  | work w =>
    obtain ⟨p, ok, last⟩ := Option.bind_eq_some_iff.mp stepped
    have still := workLeft left ok
    split at last <;> (cases Option.some.inj last; exact still)
  | wake w =>
    obtain ⟨p, ok, last⟩ := Option.bind_eq_some_iff.mp stepped
    cases Option.some.inj last
    unfold wake at ok
    split at ok <;> try contradiction
    rw [← Option.some.inj ok]
    exact turnLeft left (by simp)

end TinyNetwork.TaskAttention
