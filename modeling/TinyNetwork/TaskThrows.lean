import Mathlib.Data.List.Perm.Subperm
import TinyNetwork.TaskAttention

/-! Tasks that throw. runInThread catches everything behind its loop, so the thread whose
task has thrown is gone for good and the others know nothing of it. To them it is a worker
that is still running its task, which is how a pool with throwing tasks is followed by one
whose tasks do not throw. -/
namespace TinyNetwork.TaskThrows
open Runs ThreadPool
open TaskRuns (Sound Custody)
open TaskAttention

/- `thrown` are the workers that are gone, each with the task that did it. -/
structure State where
  base : TaskRuns.State
  thrown : List (Nat × Task)

inductive Action where
  | plain (a : TaskRuns.Action)
  | throws (w : Nat)
  deriving DecidableEq, Repr

def init (threadSize : Nat) : State := ⟨TaskRuns.init threadSize, []⟩

def step (s : State) : Action → Option State
  | .plain a => do
      let base ← TaskRuns.step s.base a
      some { s with base }
  | .throws w =>
      match s.base.pool.workers w with
      | .running task =>
          some ⟨{ s.base with pool := s.base.pool.turn w .returned }, s.thrown ++ [(w, task)]⟩
      | _ => none

def veil (thrown : List (Nat × Task)) (p : ThreadPool) : ThreadPool :=
  { p with workers := fun w =>
      match thrown.lookup w with
      | some task => .running task
      | none => p.workers w }

def Gone (thrown : List (Nat × Task)) (p : ThreadPool) : Prop :=
  ∀ w task, thrown.lookup w = some task → p.workers w = .returned

section Veil
variable {thrown : List (Nat × Task)} {p q : ThreadPool} {w : Nat}

theorem veilSelf (gone : Gone thrown p) (there : p.workers w ≠ .returned) :
    thrown.lookup w = none ∧ (veil thrown p).workers w = p.workers w := by
  cases found : thrown.lookup w with
  | none => simp only [veil, found, and_self]
  | some task => exact absurd (gone w task found) there

theorem veilTurn (gone : Gone thrown p) (there : p.workers w ≠ .returned) (phase : Phase) :
    (veil thrown p).turn w phase = veil thrown (p.turn w phase) ∧ Gone thrown (p.turn w phase) := by
  obtain ⟨still, -⟩ := veilSelf gone there
  constructor
  · simp only [veil, turn]
    congr 1
    funext v
    by_cases same : v = w
    · rw [same, Function.update_self, Function.update_self, still]
    · rw [Function.update_of_ne same, Function.update_of_ne same]
  · intro v task found
    have other : v ≠ w := by
      rintro rfl
      rw [still] at found
      contradiction
    simp only [turn, Function.update_of_ne other]
    exact gone v task found

theorem stopVeil (gone : Gone thrown p) (ok : p.stop = some q) :
    (veil thrown p).stop = some (veil thrown q) ∧ Gone thrown q := by
  unfold stop at ok
  split at ok <;> try contradiction
  rename_i free
  cases Option.some.inj ok
  constructor
  · have free' : ¬ (veil thrown p).mutex.isSome := free
    rw [stop, if_neg free']
    simp only [veil]
    congr 2
    funext v
    split <;> rfl
  · intro v task found
    simp only [gone v task found]
    rfl

theorem destroyVeil (gone : Gone thrown p) (ok : p.destroy = some q) :
    (veil thrown p).destroy = some (veil thrown q) ∧ Gone thrown q := by
  unfold destroy at ok
  split at ok <;> try contradiction
  rename_i may
  obtain ⟨stopped, done, last⟩ := Option.bind_eq_some_iff.mp ok
  cases Option.some.inj last
  obtain ⟨veiled, gone'⟩ := stopVeil gone done
  refine ⟨?_, gone'⟩
  have may' : ¬ ((veil thrown p).destroyed ∨
      ((veil thrown p).started ∧ (veil thrown p).spawned < (veil thrown p).threadSize)) := may
  rw [destroy, if_neg may', veiled]
  rfl

theorem addVeil (gone : Gone thrown p) {task : Task} {woken : Option Nat} (ok : p.add task woken = some q) :
    (veil thrown p).add task woken = some (veil thrown q) ∧ Gone thrown q := by
  unfold add at ok
  split at ok <;> try contradiction
  rename_i free
  have free' : ¬ (veil thrown p).mutex.isSome := free
  rw [add, if_neg free']
  have queued : Gone thrown { p with queue := p.queue ++ [task] } := gone
  cases woken with
  | none =>
    simp only [notifyOne] at ok ⊢
    split at ok <;> try contradiction
    rename_i nobody
    cases Option.some.inj ok
    refine ⟨?_, queued⟩
    rw [if_neg]
    · rfl
    · rintro ⟨w, below, waiting⟩
      refine nobody ⟨w, below, ?_⟩
      simp only [veil] at waiting
      split at waiting
      · contradiction
      · exact waiting
  | some w =>
    simp only [notifyOne] at ok ⊢
    split at ok <;> try contradiction
    rename_i waiting
    cases Option.some.inj ok
    have there : p.workers w ≠ .returned := by simp [waiting]
    obtain ⟨turned, gone'⟩ := veilTurn queued there .locking
    refine ⟨?_, gone'⟩
    rw [if_pos ((veilSelf gone there).2.trans waiting), ← turned]
    rfl

theorem wakeVeil (gone : Gone thrown p) (ok : p.wake w = some q) :
    (veil thrown p).wake w = some (veil thrown q) ∧ Gone thrown q := by
  unfold wake at ok
  split at ok <;> try contradiction
  rename_i waiting
  cases Option.some.inj ok
  have there : p.workers w ≠ .returned := by simp [waiting]
  obtain ⟨turned, gone'⟩ := veilTurn gone there .locking
  rw [wake, if_pos ((veilSelf gone there).2.trans waiting), turned]
  exact ⟨rfl, gone'⟩

theorem workVeil (gone : Gone thrown p) (ok : p.runInThread w = some q) :
    (veil thrown p).runInThread w = some (veil thrown q) ∧ Gone thrown q := by
  have there : p.workers w ≠ .returned := by
    intro gone_
    rw [runInThread, gone_] at ok
    contradiction
  obtain ⟨-, self⟩ := veilSelf gone there
  have turned (phase : Phase) := (veilTurn gone there phase).1
  have gone' (phase : Phase) := (veilTurn gone there phase).2
  cases TaskRuns.workedOf ok with
  | starts here =>
    rw [runInThread, self.trans here]
    exact ⟨congrArg some (turned _), gone' _⟩
  | locks here free =>
    rw [runInThread, self.trans here]
    refine ⟨?_, gone' _⟩
    have free' : ¬ (veil thrown p).mutex.isSome := by simp [veil, free]
    exact (if_neg free').trans (congrArg (fun r : ThreadPool => some { r with mutex := some w }) (turned _))
  | returns here empty off =>
    rw [runInThread, self.trans here]
    refine ⟨?_, gone' _⟩
    have empty' : (veil thrown p).queue.isEmpty = true := by simp [veil, empty]
    have off' : (!(veil thrown p).running) = true := by simp [veil, off]
    exact ((if_pos empty').trans (if_pos off')).trans
      (congrArg (fun r : ThreadPool => some { r with mutex := none }) (turned _))
  | blocks here empty on =>
    rw [runInThread, self.trans here]
    refine ⟨?_, gone' _⟩
    have empty' : (veil thrown p).queue.isEmpty = true := by simp [veil, empty]
    have on' : ¬ (!(veil thrown p).running) = true := by simp [veil, on]
    exact ((if_pos empty').trans (if_neg on')).trans (congrArg some (turned _))
  | sees here stocked =>
    rw [runInThread, self.trans here]
    refine ⟨?_, gone' _⟩
    have stocked' : ¬ (veil thrown p).queue.isEmpty = true := by simp [veil, stocked]
    exact (if_neg stocked').trans (congrArg some (turned _))
  | waits here =>
    rw [runInThread, self.trans here]
    exact ⟨congrArg (fun r : ThreadPool => some { r with mutex := none }) (turned _), gone' _⟩
  | @pops task rest here front =>
    rw [runInThread, self.trans here]
    refine ⟨?_, gone' _⟩
    have front' : (veil thrown p).queue = task :: rest := front
    simp only [front']
    exact congrArg (fun r : ThreadPool => some { r with mutex := none, queue := rest }) (turned _)
  | finishes here =>
    rw [runInThread, self.trans here]
    exact ⟨congrArg some (turned _), gone' _⟩

theorem startVeil (ok : p.start = some q) : (veil thrown p).start = some (veil thrown q) ∧ q.workers = p.workers := by
  unfold start at ok
  split at ok <;> try contradiction
  rename_i first
  cases Option.some.inj ok
  have first' : ¬ ((veil thrown p).started || (veil thrown p).destroyed) = true := first
  exact ⟨if_neg first', rfl⟩

theorem spawnVeil (gone : Gone thrown p) (sound : Sound (veil thrown p)) (ok : p.spawn = some q) :
    (veil thrown p).spawn = some (veil thrown q) ∧ Gone thrown q := by
  unfold spawn at ok
  split at ok <;> try contradiction
  rename_i more
  cases Option.some.inj ok
  have absent : (veil thrown p).workers p.spawned = .absent := (sound.absent p.spawned).mpr (Nat.le_refl _)
  have there : p.workers p.spawned ≠ .returned := by
    intro returned
    simp only [veil] at absent
    split at absent
    · contradiction
    · rw [returned] at absent
      contradiction
  obtain ⟨turned, gone'⟩ := veilTurn gone there .starting
  have more' : (veil thrown p).started ∧ (veil thrown p).spawned < (veil thrown p).threadSize := more
  refine ⟨?_, gone'⟩
  rw [spawn, if_pos more']
  exact congrArg (fun r : ThreadPool => some { r with spawned := p.spawned + 1 }) turned

end Veil

/- A pool whose tasks do not throw, and in which the ones that did are still running. -/
structure Follows (s : State) (a : TaskRuns.State) : Prop where
  pool : a.pool = veil s.thrown s.base.pool
  added : a.added = s.base.added
  dequeued : a.dequeued = s.base.dequeued
  ran : a.ran = s.base.ran
  gone : Gone s.thrown s.base.pool
  apart : (s.thrown.map Prod.fst).Nodup

theorem plainFollows {s t : State} {a : TaskRuns.State} {act : TaskRuns.Action} (follows : Follows s a)
    (sound : Sound a.pool) (ok : step s (.plain act) = some t) :
    ∃ b, TaskRuns.step a act = some b ∧ Follows t b := by
  obtain ⟨pool, added, dequeued, ran, gone, apart⟩ := follows
  obtain ⟨base, done, last⟩ := Option.bind_eq_some_iff.mp ok
  cases Option.some.inj last
  obtain ⟨apool, aadded, adequeued, aran, alate⟩ := a
  dsimp only at pool added dequeued ran sound
  subst pool added dequeued ran
  cases act with
  | start =>
    obtain ⟨p, started, last⟩ := Option.bind_eq_some_iff.mp done
    cases Option.some.inj last
    obtain ⟨veiled, same⟩ := @startVeil s.thrown _ _ started
    refine ⟨_, congrArg (Option.bind · _) veiled, rfl, rfl, rfl, rfl, ?_, apart⟩
    simpa only [Gone, same] using gone
  | spawn =>
    obtain ⟨p, spawned, last⟩ := Option.bind_eq_some_iff.mp done
    cases Option.some.inj last
    obtain ⟨veiled, gone'⟩ := spawnVeil gone sound spawned
    exact ⟨_, congrArg (Option.bind · _) veiled, rfl, rfl, rfl, rfl, gone', apart⟩
  | stop =>
    obtain ⟨p, stopped, last⟩ := Option.bind_eq_some_iff.mp done
    cases Option.some.inj last
    obtain ⟨veiled, gone'⟩ := stopVeil gone stopped
    exact ⟨_, congrArg (Option.bind · _) veiled, rfl, rfl, rfl, rfl, gone', apart⟩
  | destroy =>
    obtain ⟨p, ended, last⟩ := Option.bind_eq_some_iff.mp done
    cases Option.some.inj last
    obtain ⟨veiled, gone'⟩ := destroyVeil gone ended
    exact ⟨_, congrArg (Option.bind · _) veiled, rfl, rfl, rfl, rfl, gone', apart⟩
  | add inside callable woken =>
    obtain ⟨may, added⟩ := Option.ite_none_right_eq_some.mp done
    obtain ⟨p, queued, last⟩ := Option.bind_eq_some_iff.mp added
    cases Option.some.inj last
    obtain ⟨veiled, gone'⟩ := addVeil gone queued
    have may' : TaskRuns.mayAdd (veil s.thrown s.base.pool) inside = true := by
      cases inside with
      | none => exact may
      | some w =>
        have there : s.base.pool.workers w ≠ .returned := by
          intro returned
          simp [TaskRuns.mayAdd, returned] at may
        simpa only [TaskRuns.mayAdd, (veilSelf gone there).2] using may
    exact ⟨_, (if_pos may').trans (congrArg (Option.bind · _) veiled), rfl, rfl, rfl, rfl, gone', apart⟩
  | work w =>
    obtain ⟨p, worked, last⟩ := Option.bind_eq_some_iff.mp done
    have there : s.base.pool.workers w ≠ .returned := by
      intro gone_
      rw [runInThread, gone_] at worked
      contradiction
    obtain ⟨-, self⟩ := veilSelf gone there
    obtain ⟨veiled, gone'⟩ := workVeil gone worked
    split at last
    · rename_i here
      cases Option.some.inj last
      refine ⟨⟨veil s.thrown p, _, _, _, alate⟩, ?_, rfl, rfl, rfl, rfl, gone', apart⟩
      simp only [TaskRuns.step, veiled, self, here, bind, Option.bind]
      rfl
    · rename_i task here
      cases Option.some.inj last
      refine ⟨⟨veil s.thrown p, _, _, _, alate⟩, ?_, rfl, rfl, rfl, rfl, gone', apart⟩
      simp only [TaskRuns.step, veiled, self, here, bind, Option.bind]
    · cases Option.some.inj last
      refine ⟨⟨veil s.thrown p, _, _, _, alate⟩, ?_, rfl, rfl, rfl, rfl, gone', apart⟩
      simp only [TaskRuns.step, veiled, self, bind, Option.bind]
  | wake w =>
    obtain ⟨p, woken, last⟩ := Option.bind_eq_some_iff.mp done
    cases Option.some.inj last
    obtain ⟨veiled, gone'⟩ := wakeVeil gone woken
    exact ⟨_, congrArg (Option.bind · _) veiled, rfl, rfl, rfl, rfl, gone', apart⟩

theorem throwsFollows {s t : State} {a : TaskRuns.State} {w : Nat} (follows : Follows s a)
    (ok : step s (.throws w) = some t) : Follows t a := by
  obtain ⟨pool, added, dequeued, ran, gone, apart⟩ := follows
  simp only [step] at ok
  split at ok <;> try contradiction
  rename_i task here
  cases Option.some.inj ok
  have there : s.base.pool.workers w ≠ .returned := by simp [here]
  obtain ⟨still, -⟩ := veilSelf gone there
  have own : (s.thrown ++ [(w, task)]).lookup w = some task := by
    rw [List.lookup_append, still]
    simp
  have others : ∀ v, v ≠ w → (s.thrown ++ [(w, task)]).lookup v = s.thrown.lookup v := by
    intro v other
    rw [List.lookup_append]
    have none_ : [(w, task)].lookup v = none := by simp [other]
    rw [none_, Option.or_none]
  refine ⟨?_, added, dequeued, ran, ?_, ?_⟩
  · rw [pool]
    simp only [veil, turn]
    congr 1
    funext v
    by_cases same : v = w
    · rw [same, own, still, here]
    · rw [others v same, Function.update_of_ne same]
  · intro v other found
    by_cases same : v = w
    · rw [same]
      exact Function.update_self ..
    · rw [others v same] at found
      simp only [turn, Function.update_of_ne same]
      exact gone v other found
  · rw [List.map_append, List.nodup_append]
    refine ⟨apart, List.nodup_singleton w, ?_⟩
    rintro v member u single rfl
    obtain ⟨pair, inside, rfl⟩ := List.mem_map.mp member
    have other := List.lookup_eq_none_iff.mp still pair inside
    simp only [List.map_cons, List.map_nil, List.mem_singleton] at single
    simp [single] at other

def Orderly (s : State) : Action → Prop
  | .plain (.add ..) => s.base.pool.started = true → s.base.pool.running = true
  | _ => True

instance (s : State) (a : Action) : Decidable (Orderly s a) := by
  cases a with
  | plain act => cases act <;> unfold Orderly <;> infer_instance
  | throws w => exact inferInstanceAs (Decidable True)

section Stuck
variable {thrown : List (Nat × Task)} {p : ThreadPool}

theorem criticalVeil (gone : Gone thrown p) (sound : Sound (veil thrown p)) {w : Nat}
    (inside : (p.workers w).critical = true) : p.runInThread w ≠ none := by
  have there : p.workers w ≠ .returned := fun returned => by simp [returned, Phase.critical] at inside
  obtain ⟨-, self⟩ := veilSelf gone there
  cases phase : p.workers w with
  | testing =>
    simp only [runInThread, phase]
    split
    · split <;> simp
    · simp
  | blocking => simp [runInThread, phase]
  | popping =>
    have stocked : p.queue ≠ [] := sound.stocked w (self.trans phase)
    simp only [runInThread, phase]
    split
    · contradiction
    · simp
  | absent | starting | locking | waiting | running | returned => simp [phase, Phase.critical] at inside

theorem stuckVeil (gone : Gone thrown p) (sound : Sound (veil thrown p)) (started : p.started = true)
    (stuck : p.stuck) :
    p.spawned = p.threadSize ∧ ∀ w < p.threadSize, p.workers w = .waiting ∨ p.workers w = .returned := by
  have all : p.spawned = p.threadSize := by
    have born : p.spawned ≤ p.threadSize := sound.born
    by_contra fewer
    have spawns := stuck.1
    rw [spawn, if_pos ⟨started, by omega⟩] at spawns
    contradiction
  have free : p.mutex = none := by
    by_contra locked
    obtain ⟨v, held⟩ := Option.ne_none_iff_exists'.mp locked
    have inside : ((veil thrown p).workers v).critical = true := (sound.holder v).mp held
    have below : v < p.spawned := TaskRuns.present sound fun absent => by simp [absent, Phase.critical] at inside
    have inside' : (p.workers v).critical = true := by
      simp only [veil] at inside
      split at inside
      · contradiction
      · exact inside
    exact criticalVeil gone sound inside' (stuck.2 v below)
  refine ⟨all, fun w below => ?_⟩
  have still := stuck.2 w (by omega)
  cases phase : p.workers w with
  | waiting => exact .inl rfl
  | returned => exact .inr rfl
  | absent =>
    obtain ⟨-, self⟩ := veilSelf gone (w := w) (by simp [phase])
    have outside : p.spawned ≤ w := (sound.absent w).mp (self.trans phase)
    omega
  | testing | blocking | popping => exact absurd still (criticalVeil gone sound (by simp [phase, Phase.critical]))
  | starting | locking | running => simp [runInThread, phase, free] at still

theorem stuckHeading (gone : Gone thrown p) (sound : Sound (veil thrown p)) (started : p.started = true)
    (stuck : p.stuck) : heading (veil thrown p) = 0 := by
  obtain ⟨all, still⟩ := stuckVeil gone sound started stuck
  refine List.countP_eq_zero.mpr fun w member => ?_
  have below : w < p.spawned := List.mem_range.mp member
  simp only [veil]
  split
  · simp [eager]
  · rcases still w (by omega) with waiting | returned
    · simp [waiting, eager]
    · simp [returned, eager]

end Stuck

structure Inv (s : State) (a : TaskRuns.State) : Prop where
  follows : Follows s a
  sound : Sound a.pool
  custody : Custody a
  attended : Attended a.pool

theorem startInv {threadSize : Nat} (positive : 0 < threadSize) : Inv (init threadSize) (TaskRuns.init threadSize) where
  follows := ⟨rfl, rfl, rfl, rfl, fun w task found => by simp [init] at found, List.nodup_nil⟩
  sound := TaskRuns.initSound positive
  custody := TaskRuns.initCustody threadSize
  attended v waiting := by simp [TaskRuns.init, construct] at waiting

theorem stepInv {s t : State} {a : TaskRuns.State} {act : Action} (inv : Inv s a) (ok : step s act = some t) :
    ∃ b, Inv t b ∧ (b = a ∨ ∃ plain, act = .plain plain ∧ TaskRuns.step a plain = some b) := by
  obtain ⟨follows, sound, custody, attended⟩ := inv
  cases act with
  | plain act =>
    obtain ⟨b, moved, follows'⟩ := plainFollows follows sound ok
    exact ⟨b, ⟨follows', TaskRuns.stepSound sound moved, TaskRuns.stepCustody sound custody moved,
      stepAttended sound attended moved⟩, .inr ⟨act, rfl, moved⟩⟩
  | throws w => exact ⟨a, ⟨throwsFollows follows ok, sound, custody, attended⟩, .inl rfl⟩

theorem stepFollowed {s t : State} {act : Action} (followed : ∃ a, Inv s a) (ok : step s act = some t) :
    ∃ b, Inv t b := by
  obtain ⟨a, inv⟩ := followed
  obtain ⟨b, inv', -⟩ := stepInv inv ok
  exact ⟨b, inv'⟩

theorem stepLeaving {s t : State} {act : Action} (followed : ∃ a, Inv s a ∧ Left a.pool) (orderly : Orderly s act)
    (ok : step s act = some t) : ∃ b, Inv t b ∧ Left b.pool := by
  obtain ⟨a, inv, left⟩ := followed
  obtain ⟨b, inv', rfl | ⟨plain, rfl, moved⟩⟩ := stepInv inv ok
  · exact ⟨b, inv', left⟩
  · refine ⟨b, inv', stepLeft inv.sound left ?_ moved⟩
    rintro ⟨inside, callable, woken, rfl⟩
    rw [inv.follows.pool]
    exact orderly

structure Survives (s : State) : Prop where
  order : s.base.added = s.base.dequeued ++ s.base.pool.queue
  distinct : s.base.added.Nodup
  once : (s.base.ran ++ s.thrown.map Prod.snd).Nodup
  outcome : ∀ task, task ∈ s.base.dequeued ∧ task.callable = true ↔
    task ∈ s.base.ran ++ s.thrown.map Prod.snd ∨ ∃ w, s.base.pool.workers w = .running task
  again : ∀ w task, s.base.pool.workers w = .running task → task ∉ s.base.ran ++ s.thrown.map Prod.snd
  single : ∀ v w task, s.base.pool.workers v = .running task → s.base.pool.workers w = .running task → v = w
  cost : (s.thrown.map Prod.fst).Nodup ∧ s.thrown.length ≤ s.base.pool.threadSize ∧
    ∀ pair ∈ s.thrown, s.base.pool.workers pair.1 = .returned
  awake : s.base.pool.running = true → s.base.pool.stuck → s.thrown.length < s.base.pool.threadSize →
    s.base.pool.queue = []

section Outcome
variable {s : State} {a : TaskRuns.State}

theorem thrownLookup (inv : Inv s a) {w : Nat} {task : Task} (member : (w, task) ∈ s.thrown) :
    s.thrown.lookup w = some task := by
  obtain ⟨front, rest, split_⟩ := List.append_of_mem member
  rw [List.lookup_eq_some_iff]
  refine ⟨front, rest, split_, fun pair inside => ?_⟩
  have apart := inv.follows.apart
  rw [split_, List.map_append, List.nodup_append] at apart
  have other := apart.2.2 pair.1 (List.mem_map_of_mem inside) w (by simp)
  simpa using other.symm

theorem thrownRuns (inv : Inv s a) {w : Nat} {task : Task} (member : (w, task) ∈ s.thrown) :
    a.pool.workers w = .running task := by
  rw [inv.follows.pool]
  simp only [veil, thrownLookup inv member]

theorem runsCases (inv : Inv s a) {w : Nat} {task : Task} :
    a.pool.workers w = .running task ↔ (w, task) ∈ s.thrown ∨ s.base.pool.workers w = .running task := by
  constructor
  · intro runs
    rw [inv.follows.pool] at runs
    simp only [veil] at runs
    split at runs
    · rename_i other found
      cases runs
      obtain ⟨front, rest, split_, -⟩ := List.lookup_eq_some_iff.mp found
      exact .inl (by rw [split_]; simp)
    · exact .inr runs
  · rintro (thrown | runs)
    · exact thrownRuns inv thrown
    · rw [inv.follows.pool]
      exact (veilSelf inv.follows.gone (by simp [runs])).2.trans runs

theorem thrownBelow (inv : Inv s a) : (s.thrown.map Prod.fst) ⊆ List.range s.base.pool.threadSize := by
  intro w member
  obtain ⟨⟨w, task⟩, inside, rfl⟩ := List.mem_map.mp member
  have below := TaskRuns.present inv.sound (w := w) (by simp [thrownRuns inv inside])
  have born := inv.sound.born
  rw [inv.follows.pool] at below born
  exact List.mem_range.mpr (Nat.lt_of_lt_of_le below born)

theorem thrownCount (inv : Inv s a) : s.thrown.length ≤ s.base.pool.threadSize := by
  have fits := (List.subperm_of_subset inv.follows.apart (thrownBelow inv)).length_le
  rwa [List.length_map, List.length_range] at fits

theorem someLeft (fewer : s.thrown.length < s.base.pool.threadSize) :
    ∃ w < s.base.pool.threadSize, s.thrown.lookup w = none := by
  by_contra none_
  push Not at none_
  have all : List.range s.base.pool.threadSize ⊆ s.thrown.map Prod.fst := by
    intro w member
    obtain ⟨task, found⟩ := Option.ne_none_iff_exists'.mp (none_ w (List.mem_range.mp member))
    obtain ⟨front, rest, split_, -⟩ := List.lookup_eq_some_iff.mp found
    rw [split_]
    simp
  have fits := (List.subperm_of_subset List.nodup_range all).length_le
  rw [List.length_map, List.length_range] at fits
  omega

theorem emptyQueue (inv : Inv s a) (started : s.base.pool.started = true) (stuck : s.base.pool.stuck)
    (fewer : s.thrown.length < s.base.pool.threadSize)
    (left : ∀ w, a.pool.workers w = .returned → s.base.pool.queue = []) : s.base.pool.queue = [] := by
  have gone := inv.follows.gone
  have sound := inv.follows.pool ▸ inv.sound
  obtain ⟨w, below, alive⟩ := someLeft fewer
  have self : a.pool.workers w = s.base.pool.workers w := by
    rw [inv.follows.pool]
    simp only [veil, alive]
  obtain ⟨-, still⟩ := stuckVeil gone sound started stuck
  rcases still w below with waiting | returned
  · have attended := inv.attended w (self.trans waiting)
    rw [inv.follows.pool, stuckHeading gone sound started stuck] at attended
    exact List.eq_nil_of_length_eq_zero (Nat.le_zero.mp attended)
  · exact left w (self.trans returned)

theorem survivesOf (inv : Inv s a) : Survives s := by
  have custody := inv.custody
  have follows := inv.follows
  have queue : a.pool.queue = s.base.pool.queue := by rw [follows.pool]; rfl
  have inThrown (task : Task) : task ∈ s.thrown.map Prod.snd ↔ ∃ w, (w, task) ∈ s.thrown := by simp
  refine ⟨?_, ?_, ?_, ?_, ?_, ?_, ⟨follows.apart, thrownCount inv, ?_⟩, ?_⟩
  · have order := custody.order
    rwa [follows.added, follows.dequeued, queue] at order
  · exact follows.added ▸ TaskRuns.addedNodup custody
  · rw [← follows.ran]
    refine List.nodup_append.mpr ⟨custody.once, ?_, ?_⟩
    · refine List.Nodup.map_on ?_ (List.Nodup.of_map Prod.fst follows.apart)
      rintro ⟨v, task⟩ first ⟨w, other⟩ second rfl
      rw [custody.single v w task (thrownRuns inv first) (thrownRuns inv second)]
    · rintro task ran other thrown rfl
      obtain ⟨w, member⟩ := (inThrown task).mp thrown
      exact custody.apart w task (thrownRuns inv member) ran
  · intro task
    have taken := custody.taken task
    simp only [follows.dequeued, follows.ran, runsCases inv] at taken
    rw [taken, List.mem_append, inThrown, exists_or, or_assoc]
  · intro w task runs member
    have running : a.pool.workers w = .running task := (runsCases inv).mpr (.inr runs)
    rcases List.mem_append.mp member with ran | thrown
    · exact custody.apart w task running (follows.ran ▸ ran)
    · obtain ⟨v, inside⟩ := (inThrown task).mp thrown
      have same := custody.single v w task (thrownRuns inv inside) running
      have returned := follows.gone v task (thrownLookup inv inside)
      rw [same, runs] at returned
      contradiction
  · exact fun v w task left right =>
      custody.single v w task ((runsCases inv).mpr (.inr left)) ((runsCases inv).mpr (.inr right))
  · rintro ⟨w, task⟩ member
    exact follows.gone w task (thrownLookup inv member)
  · intro on stuck fewer
    have sound := follows.pool ▸ inv.sound
    have started : s.base.pool.started = true := by
      by_contra off
      have idle : s.base.pool.running = false := (sound.idle (by simpa [veil] using off)).2
      rw [on] at idle
      contradiction
    refine emptyQueue inv started stuck fewer fun w returned => ?_
    have off : s.base.pool.running = false := by
      have off := inv.sound.returned w returned
      rwa [follows.pool] at off
    rw [on] at off
    contradiction

structure Finished (s : State) : Prop where
  empty : s.base.pool.queue = []
  all : ∀ task ∈ s.base.added, task.callable = true → task ∈ s.base.ran ++ s.thrown.map Prod.snd

theorem finishedOf (inv : Inv s a) (left : Left a.pool) (started : s.base.pool.started = true)
    (stuck : s.base.pool.stuck) (fewer : s.thrown.length < s.base.pool.threadSize) : Finished s := by
  have survives := survivesOf inv
  have empty : s.base.pool.queue = [] := by
    refine emptyQueue inv started stuck fewer fun w returned => ?_
    have empty := left w returned
    rwa [inv.follows.pool] at empty
  refine ⟨empty, fun task member callable => ?_⟩
  rw [survives.order, empty, List.append_nil] at member
  rcases (survives.outcome task).mp ⟨member, callable⟩ with done | ⟨w, runs⟩
  · exact done
  · -- a worker that runs a task could go on
    have sound := inv.follows.pool ▸ inv.sound
    obtain ⟨all, still⟩ := stuckVeil inv.follows.gone sound started stuck
    have below := TaskRuns.present inv.sound (w := w) (by simp [(runsCases inv).mpr (.inr runs)])
    rw [inv.follows.pool] at below
    have inside : w < s.base.pool.threadSize := all ▸ below
    rcases still w inside with waiting | returned
    · simp [waiting] at runs
    · simp [returned] at runs

end Outcome

theorem throwsCost {threadSize : Nat} (positive : 0 < threadSize) {actions : List Action} {s : State}
    (ok : run step (init threadSize) actions = some s) :
    Survives s ∧ (Along step Orderly (init threadSize) actions → s.base.pool.started = true →
      s.base.pool.stuck → s.thrown.length < s.base.pool.threadSize → Finished s) := by
  constructor
  · obtain ⟨a, inv⟩ := runInvariant stepFollowed ⟨_, startInv positive⟩ ok
    exact survivesOf inv
  · intro along started stuck fewer
    have first : Left (TaskRuns.init threadSize).pool := fun _ _ => rfl
    obtain ⟨a, inv, left⟩ := runInvariantAlong stepLeaving ⟨_, startInv positive, first⟩ along ok
    exact finishedOf inv left started stuck fewer

def oneThrows : List Action :=
  [.plain (.add none true none), .plain (.add none true none), .plain .start, .plain .spawn, .plain .spawn] ++
    List.replicate 4 (.plain (.work 0)) ++ [.throws 0] ++ List.replicate 8 (.plain (.work 1))

theorem throwsCostSample :
    ∃ s, run step (init 2) oneThrows = some s ∧ s.thrown = [(0, ⟨0, true⟩)] ∧ s.base.ran = [⟨1, true⟩] ∧
      Survives s ∧ Finished s := by
  have ends : (run step (init 2) oneThrows).map (fun s => (s.thrown, s.base.ran)) =
      some ([(0, ⟨0, true⟩)], [⟨1, true⟩]) := by decide +kernel
  have still : (run step (init 2) oneThrows).map (fun s => (s.base.pool.started, s.base.pool.threadSize,
      s.base.pool.spawned, s.base.pool.spawn.isNone,
      (List.range 2).all fun w => (s.base.pool.runInThread w).isNone)) = some (true, 2, 2, true, true) := by
    decide +kernel
  have along : Along step Orderly (init 2) oneThrows := by decide +kernel
  obtain ⟨s, ok, fields⟩ := Option.map_eq_some_iff.mp ends
  obtain ⟨thrown, ran⟩ := Prod.mk.inj fields
  rw [ok, Option.map_some, Option.some.injEq, Prod.mk.injEq, Prod.mk.injEq, Prod.mk.injEq, Prod.mk.injEq] at still
  obtain ⟨started, size, spawned, noSpawn, noWork⟩ := still
  obtain ⟨survives, finished⟩ := throwsCost (by decide) ok
  have stuck : s.base.pool.stuck := by
    refine ⟨Option.isNone_iff_eq_none.mp noSpawn, fun w below => ?_⟩
    exact Option.isNone_iff_eq_none.mp (List.all_eq_true.mp noWork w (List.mem_range.mpr (spawned ▸ below)))
  exact ⟨s, ok, thrown, ran, survives, finished along started stuck (by rw [thrown, size]; decide)⟩

end TinyNetwork.TaskThrows
