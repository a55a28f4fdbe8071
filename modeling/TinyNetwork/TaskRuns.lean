import Mathlib.Data.List.Basic
import Mathlib.Data.List.Nodup
import TinyNetwork.Runs
import TinyNetwork.ThreadPool

/-! What becomes of the tasks of a thread pool. The mutex is held by the worker that
is between its tests and its wait or its pop, so no task can slip in there unseen,
and a worker returns only when it has seen the queue empty. A task that no worker
will look at was added after the last of them had returned. -/
namespace TinyNetwork.TaskRuns
open Runs ThreadPool

/- The add() calls so far, the tasks taken from the queue, the tasks run to their end,
and those added when all workers had returned. -/
structure State where
  pool : ThreadPool
  added : List Task
  dequeued : List Task
  ran : List Task
  late : List Task

inductive Action where
  | start
  | spawn
  | stop
  | destroy
  | add (inside : Option Nat) (callable : Bool) (woken : Option Nat)
  | work (w : Nat)
  | wake (w : Nat)
  deriving DecidableEq, Repr

def init (threadSize : Nat) : State := ⟨construct threadSize, [], [], [], []⟩

/- Once the destructor has begun only running tasks may still call add(). -/
def mayAdd (p : ThreadPool) : Option Nat → Bool
  | none => !p.destroyed
  | some w =>
      match p.workers w with
      | .running _ => true
      | _ => false

def step (s : State) : Action → Option State
  | .start => do
      let pool ← s.pool.start
      some { s with pool }
  | .spawn => do
      let pool ← s.pool.spawn
      some { s with pool }
  | .stop => do
      let pool ← s.pool.stop
      some { s with pool }
  | .destroy => do
      let pool ← s.pool.destroy
      some { s with pool }
  | .add inside callable woken =>
      if mayAdd s.pool inside then do
        let task : Task := ⟨s.added.length, callable⟩
        let pool ← s.pool.add task woken
        some { s with
          pool
          added := s.added ++ [task]
          late := if s.pool.allReturned then s.late ++ [task] else s.late }
      else none
  | .work w => do
      let pool ← s.pool.runInThread w
      match s.pool.workers w with
      | .popping => some { s with pool, dequeued := s.dequeued ++ s.pool.queue.take 1 }
      | .running task => some { s with pool, ran := s.ran ++ [task] }
      | _ => some { s with pool }
  | .wake w => do
      let pool ← s.pool.wake w
      some { s with pool }

structure Sound (p : ThreadPool) : Prop where
  positive : 0 < p.threadSize
  born : p.spawned ≤ p.threadSize
  absent : ∀ w, p.workers w = .absent ↔ p.spawned ≤ w
  idle : p.started = false → p.spawned = 0 ∧ p.running = false
  holder : ∀ w, p.mutex = some w ↔ (p.workers w).critical = true
  blocked : ∀ w, p.workers w = .blocking → p.queue = []
  stocked : ∀ w, p.workers w = .popping → p.queue ≠ []
  asleep : ∀ w, p.workers w = .blocking ∨ p.workers w = .waiting → p.running = true
  returned : ∀ w, p.workers w = .returned → p.running = false
  alert : p.spawned = p.threadSize → (∀ w < p.threadSize, p.workers w = .waiting) → p.queue = []

section
variable {p q : ThreadPool}

theorem startSound (sound : Sound p) (ok : p.start = some q) : Sound q := by
  unfold start at ok
  split at ok <;> try contradiction
  rw [← Option.some.inj ok]
  obtain ⟨positive, born, absent, idle, holder, blocked, stocked, asleep, returned, alert⟩ := sound
  constructor <;> grind

theorem spawnSound (sound : Sound p) (ok : p.spawn = some q) : Sound q := by
  unfold spawn at ok
  split at ok <;> try contradiction
  rw [← Option.some.inj ok]
  obtain ⟨positive, born, absent, idle, holder, blocked, stocked, asleep, returned, alert⟩ := sound
  constructor <;> simp only [turn, Function.update_apply] <;> grind [Phase.critical]

theorem notifiedCritical (phase : Phase) : phase.notified.critical = phase.critical := by
  cases phase <;> rfl

theorem notifiedEq {phase other : Phase} (awake : other ≠ .waiting) (unlocked : other ≠ .locking) :
    phase.notified = other ↔ phase = other := by
  cases phase <;> grind [Phase.notified]

theorem notifiedAwake (phase : Phase) : phase.notified ≠ .waiting := by
  cases phase <;> simp [Phase.notified]

theorem stopSound (sound : Sound p) (ok : p.stop = some q) : Sound q := by
  unfold stop at ok
  split at ok <;> try contradiction
  rename_i unlocked
  rw [← Option.some.inj ok]
  have outside : ∀ w, (p.workers w).critical = false := by
    intro w
    by_contra inside
    have held := (sound.holder w).mpr (by simpa using inside)
    simp [held] at unlocked
  exact {
    positive := sound.positive
    born := sound.born
    absent := fun w => (notifiedEq (by simp) (by simp)).trans (sound.absent w)
    idle := fun no => ⟨(sound.idle no).1, rfl⟩
    holder := fun w => by simpa only [notifiedCritical] using sound.holder w
    blocked := fun w at_ => sound.blocked w ((notifiedEq (by simp) (by simp)).mp at_)
    stocked := fun w at_ => sound.stocked w ((notifiedEq (by simp) (by simp)).mp at_)
    asleep := fun w at_ => by
      rcases at_ with blocking | waiting
      · rw [notifiedEq (by simp) (by simp)] at blocking
        simpa [blocking, Phase.critical] using outside w
      · exact absurd waiting (notifiedAwake _)
    returned := fun _ _ => rfl
    alert := fun _ waiting => absurd (waiting 0 sound.positive) (notifiedAwake _) }

theorem addCases {task : Task} {woken : Option Nat} (ok : p.add task woken = some q) :
    p.mutex = none ∧
      ((q = { p with queue := p.queue ++ [task] } ∧ ∀ w < p.spawned, p.workers w ≠ .waiting) ∨
      ∃ w, p.workers w = .waiting ∧ q = { p with queue := p.queue ++ [task] }.turn w .locking) := by
  unfold add at ok
  split at ok <;> try contradiction
  rename_i unlocked
  refine ⟨by simpa using unlocked, ?_⟩
  cases woken with
  | none =>
    simp only [notifyOne] at ok
    split at ok <;> try contradiction
    rename_i nobody
    exact .inl ⟨(Option.some.inj ok).symm, fun w below waiting => nobody ⟨w, below, waiting⟩⟩
  | some w =>
    simp only [notifyOne] at ok
    split at ok <;> try contradiction
    rename_i waiting
    exact .inr ⟨w, waiting, (Option.some.inj ok).symm⟩

theorem present (sound : Sound p) {w : Nat} (there : p.workers w ≠ .absent) : w < p.spawned := by
  by_contra outside
  exact there ((sound.absent w).mpr (by omega))

theorem turnSound (sound : Sound p) {w : Nat} {phase : Phase} {mutex : Option Nat} {queue : List Task}
    (before : p.workers w ≠ .absent) (after : phase ≠ .absent)
    (own : mutex = some w ↔ phase.critical = true)
    (others : ∀ v, v ≠ w → (mutex = some v ↔ (p.workers v).critical = true))
    (same : queue = p.queue ∨ ∀ v, v ≠ w → (p.workers v).critical = false)
    (blocked : phase = .blocking → queue = []) (stocked : phase = .popping → queue ≠ [])
    (asleep : phase = .blocking ∨ phase = .waiting → p.running = true)
    (returned : phase = .returned → p.running = false) (alert : phase = .waiting → queue = []) :
    Sound { p.turn w phase with mutex, queue } where
  positive := sound.positive
  born := sound.born
  absent := by
    refine (Function.forall_update_iff p.workers fun v ph => ph = .absent ↔ p.spawned ≤ v).mpr
      ⟨?_, fun v _ => sound.absent v⟩
    exact iff_of_false after (Nat.not_le.mpr (present sound before))
  idle := sound.idle
  holder := (Function.forall_update_iff p.workers fun v ph => mutex = some v ↔ ph.critical = true).mpr ⟨own, others⟩
  blocked := by
    refine (Function.forall_update_iff p.workers fun v ph => ph = .blocking → queue = []).mpr
      ⟨blocked, fun v other there => ?_⟩
    rcases same with rfl | alone
    · exact sound.blocked v there
    · simpa [there, Phase.critical] using alone v other
  stocked := by
    refine (Function.forall_update_iff p.workers fun v ph => ph = .popping → queue ≠ []).mpr
      ⟨stocked, fun v other there => ?_⟩
    rcases same with rfl | alone
    · exact sound.stocked v there
    · simpa [there, Phase.critical] using alone v other
  asleep := (Function.forall_update_iff p.workers fun v ph => ph = .blocking ∨ ph = .waiting →
    p.running = true).mpr ⟨asleep, fun v _ => sound.asleep v⟩
  returned := (Function.forall_update_iff p.workers fun v ph => ph = .returned →
    p.running = false).mpr ⟨returned, fun v _ => sound.returned v⟩
  alert := by
    intro all waiting
    have below : w < p.threadSize := Nat.lt_of_lt_of_le (present sound before) sound.born
    have sleeps : Function.update p.workers w phase w = .waiting := waiting w below
    rw [Function.update_self] at sleeps
    exact alert sleeps

theorem aloneOf (sound : Sound p) {w : Nat} (held : p.mutex = none ∨ p.mutex = some w) {v : Nat} (other : v ≠ w) :
    (p.workers v).critical = false := by
  by_contra inside
  have its := (sound.holder v).mpr (by simpa using inside)
  rcases held with free | mine
  · simp [free] at its
  · exact other (Option.some.inj (its.symm.trans mine))

theorem outsideSound (sound : Sound p) {w : Nat} {queue : List Task} (before : p.workers w ≠ .absent)
    (outside : (p.workers w).critical = false) (same : queue = p.queue ∨ p.mutex = none) :
    Sound { p.turn w .locking with queue } := by
  refine turnSound sound before (by simp) ?_ (fun v _ => sound.holder v)
    (same.imp_right fun free v => aloneOf sound (.inl free)) (by simp) (by simp) (by simp) (by simp) (by simp)
  refine (sound.holder w).trans ?_
  rw [outside]
  rfl

theorem addSound (sound : Sound p) {task : Task} {woken : Option Nat} (ok : p.add task woken = some q) :
    Sound q := by
  obtain ⟨free, ⟨rfl, nobody⟩ | ⟨w, waiting, rfl⟩⟩ := addCases ok
  · obtain ⟨positive, born, absent, idle, holder, blocked, stocked, asleep, returned, alert⟩ := sound
    constructor <;> grind [Phase.critical, List.append_eq_nil_iff]
  · exact outsideSound sound (by simp [waiting]) (by simp [waiting, Phase.critical]) (.inr free)

theorem wakeSound (sound : Sound p) {w : Nat} (ok : p.wake w = some q) : Sound q := by
  unfold wake at ok
  split at ok <;> try contradiction
  rename_i waiting
  rw [← Option.some.inj ok]
  exact outsideSound sound (by simp [waiting]) (by simp [waiting, Phase.critical]) (.inl rfl)

inductive Worked (p : ThreadPool) (w : Nat) : ThreadPool → Prop where
  | starts (there : p.workers w = .starting) : Worked p w (p.turn w .locking)
  | locks (there : p.workers w = .locking) (free : p.mutex = none) :
      Worked p w { p.turn w .testing with mutex := some w }
  | returns (there : p.workers w = .testing) (empty : p.queue = []) (off : p.running = false) :
      Worked p w { p.turn w .returned with mutex := none }
  | blocks (there : p.workers w = .testing) (empty : p.queue = []) (on : p.running = true) :
      Worked p w (p.turn w .blocking)
  | sees (there : p.workers w = .testing) (some : p.queue ≠ []) : Worked p w (p.turn w .popping)
  | waits (there : p.workers w = .blocking) : Worked p w { p.turn w .waiting with mutex := none }
  | pops {task : Task} {rest : List Task} (there : p.workers w = .popping) (front : p.queue = task :: rest) :
      Worked p w { p.turn w (if task.callable then .running task else .locking) with
        mutex := none, queue := rest }
  | finishes {task : Task} (there : p.workers w = .running task) : Worked p w (p.turn w .locking)

theorem workedOf {w : Nat} (ok : p.runInThread w = some q) : Worked p w q := by
  unfold runInThread at ok
  split at ok <;> try contradiction
  · rename_i there
    exact Option.some.inj ok ▸ .starts there
  · rename_i there
    split at ok <;> try contradiction
    rename_i unlocked
    exact Option.some.inj ok ▸ .locks there (by simpa using unlocked)
  · rename_i there
    split at ok
    · rename_i empty
      have nil : p.queue = [] := List.isEmpty_iff.mp empty
      split at ok
      · rename_i off
        exact Option.some.inj ok ▸ .returns there nil (by simpa using off)
      · rename_i on
        exact Option.some.inj ok ▸ .blocks there nil (by simpa using on)
    · rename_i nonempty
      exact Option.some.inj ok ▸ .sees there (by simpa using nonempty)
  · rename_i there
    exact Option.some.inj ok ▸ .waits there
  · rename_i there
    split at ok <;> try contradiction
    rename_i front
    exact Option.some.inj ok ▸ .pops there front
  · rename_i there
    exact Option.some.inj ok ▸ .finishes there

theorem workSound (sound : Sound p) {w : Nat} (ok : p.runInThread w = some q) : Sound q := by
  have locked {held : Phase} (there : p.workers w = held) (inside : held.critical = true) :
      p.mutex = some w := (sound.holder w).mpr (there ▸ inside)
  -- The worker that moves is the only one that can hold the mutex before or after.
  cases workedOf ok with
  | starts there => exact outsideSound sound (by simp [there]) (by simp [there, Phase.critical]) (.inl rfl)
  | finishes there => exact outsideSound sound (by simp [there]) (by simp [there, Phase.critical]) (.inl rfl)
  | locks there free =>
    refine turnSound sound (by simp [there]) (by simp) (by simp [Phase.critical]) (fun v other => ?_) (.inl rfl)
      (by simp) (by simp) (by simp) (by simp) (by simp)
    simp [aloneOf sound (.inl free) other, other.symm]
  | returns there empty off =>
    have mine := locked there rfl
    refine turnSound sound (by simp [there]) (by simp) (by simp [Phase.critical]) (fun v other => ?_) (.inl rfl)
      (by simp) (by simp) (by simp) (fun _ => off) (by simp)
    simp [aloneOf sound (.inr mine) other]
  | blocks there empty on =>
    have mine := locked there rfl
    exact turnSound sound (by simp [there]) (by simp) (by simp [mine, Phase.critical]) (fun v _ => sound.holder v)
      (.inl rfl) (fun _ => empty) (by simp) (fun _ => on) (by simp) (by simp)
  | sees there stocked =>
    have mine := locked there rfl
    exact turnSound sound (by simp [there]) (by simp) (by simp [mine, Phase.critical]) (fun v _ => sound.holder v)
      (.inl rfl) (by simp) (fun _ => stocked) (by simp) (by simp) (by simp)
  | waits there =>
    have mine := locked there rfl
    refine turnSound sound (by simp [there]) (by simp) (by simp [Phase.critical]) (fun v other => ?_) (.inl rfl)
      (by simp) (by simp) (fun _ => sound.asleep w (.inl there)) (by simp) (fun _ => sound.blocked w there)
    simp [aloneOf sound (.inr mine) other]
  | @pops task rest there front =>
    have mine := locked there rfl
    have outside : (if task.callable then Phase.running task else .locking).critical = false := by
      split <;> rfl
    refine turnSound sound (by simp [there]) ?_ (by simp [outside]) (fun v other => ?_)
      (.inr fun v other => aloneOf sound (.inr mine) other) ?_ ?_ ?_ ?_ ?_
    · split <;> simp
    · simp [aloneOf sound (.inr mine) other]
    all_goals split <;> simp

theorem destroyCases (ok : p.destroy = some q) :
    ∃ stopped, p.stop = some stopped ∧ q = { stopped with destroyed := true } := by
  unfold destroy at ok
  split at ok <;> try contradiction
  simp only [bind, Option.bind_eq_some_iff] at ok
  obtain ⟨stopped, ran, last⟩ := ok
  exact ⟨stopped, ran, (Option.some.inj last).symm⟩

end

structure Custody (s : State) : Prop where
  order : s.added = s.dequeued ++ s.pool.queue
  numbers : s.added.map Task.number = List.range s.added.length
  taken : ∀ task, task ∈ s.dequeued ∧ task.callable = true ↔
    task ∈ s.ran ∨ ∃ w, s.pool.workers w = .running task
  apart : ∀ w task, s.pool.workers w = .running task → task ∉ s.ran
  single : ∀ v w task, s.pool.workers v = .running task → s.pool.workers w = .running task → v = w
  once : s.ran.Nodup
  late : s.pool.allReturned → ∀ task ∈ s.pool.queue, task ∈ s.late

section
variable {s t : State}

theorem addedNodup (custody : Custody s) : s.added.Nodup :=
  List.Nodup.of_map Task.number (custody.numbers ▸ List.nodup_range)

theorem quietCustody (custody : Custody s) {pool : ThreadPool} (queue : pool.queue = s.pool.queue)
    (running : ∀ w task, pool.workers w = .running task ↔ s.pool.workers w = .running task)
    (late : pool.allReturned → s.pool.allReturned ∨ s.pool.queue = []) : Custody { s with pool } where
  order := by simpa only [queue] using custody.order
  numbers := custody.numbers
  taken task := by simpa only [running] using custody.taken task
  apart w task there := custody.apart w task ((running w task).mp there)
  single v w task left right := custody.single v w task ((running v task).mp left) ((running w task).mp right)
  once := custody.once
  late := by
    intro all task member
    rw [queue] at member
    rcases late all with before | empty
    · exact custody.late before task member
    · simp [empty] at member

theorem notifiedCustody (custody : Custody s) {pool : ThreadPool} (ok : s.pool.stop = some pool) (destroyed : Bool) :
    Custody { s with pool := { pool with destroyed } } := by
  unfold stop at ok
  split at ok <;> try contradiction
  rw [← Option.some.inj ok]
  refine quietCustody custody rfl (fun w task => notifiedEq (by simp) (by simp)) fun all => .inl ?_
  exact ⟨all.1, all.2.1, fun w below => (notifiedEq (by simp) (by simp)).mp (all.2.2 w below)⟩

theorem turnedRunning {w : Nat} {phase : Phase} {p : ThreadPool} (before : ∀ task, p.workers w ≠ .running task)
    (after : ∀ task, phase ≠ .running task) (v : Nat) (task : Task) :
    (p.turn w phase).workers v = .running task ↔ p.workers v = .running task := by
  simp only [turn, Function.update_apply]
  split
  · rename_i same
    simp [same, before task, after task]
  · rfl

theorem notAllReturned {p : ThreadPool} {w : Nat} (below : w < p.spawned) (there : p.workers w ≠ .returned) :
    ¬ p.allReturned := fun all => there (all.2.2 w (all.2.1 ▸ below))

theorem movedCustody (sound : Sound s.pool) (custody : Custody s) {w : Nat} {phase : Phase}
    (present' : s.pool.workers w ≠ .absent) (before : ∀ task, s.pool.workers w ≠ .running task)
    (after : ∀ task, phase ≠ .running task) (stays : phase = .returned → s.pool.queue = []) (mutex : Option Nat) :
    Custody { s with pool := { s.pool.turn w phase with mutex } } := by
  refine quietCustody custody rfl (turnedRunning before after) fun all => ?_
  by_cases returned : phase = .returned
  · exact .inr (stays returned)
  · refine absurd all (notAllReturned (present sound present') ?_)
    simpa [turn] using returned

theorem addCustody (sound : Sound s.pool) (custody : Custody s) {callable : Bool} {woken : Option Nat}
    {pool : ThreadPool} (ok : s.pool.add ⟨s.added.length, callable⟩ woken = some pool) :
    Custody { s with
      pool
      added := s.added ++ [⟨s.added.length, callable⟩]
      late := if s.pool.allReturned then s.late ++ [⟨s.added.length, callable⟩] else s.late } := by
  have fields : pool.queue = s.pool.queue ++ [⟨s.added.length, callable⟩] ∧
      (∀ w task, pool.workers w = .running task ↔ s.pool.workers w = .running task) ∧
      (pool.allReturned → s.pool.allReturned) := by
    obtain ⟨_, ⟨rfl, _⟩ | ⟨w, waiting, rfl⟩⟩ := addCases ok
    · exact ⟨rfl, fun _ _ => .rfl, id⟩
    · refine ⟨rfl, turnedRunning (by simp [waiting]) (by simp), fun all => absurd all ?_⟩
      exact notAllReturned (present sound (w := w) (by simp [waiting])) (by simp [turn])
  obtain ⟨queue, running, returned⟩ := fields
  refine ⟨?_, ?_, ?_, ?_, ?_, custody.once, ?_⟩
  · rw [queue, ← List.append_assoc, ← custody.order]
  · rw [List.map_append, custody.numbers, List.length_append, List.length_singleton, List.range_succ]
    rfl
  · intro task
    simpa only [running] using custody.taken task
  · intro w task there
    exact custody.apart w task ((running w task).mp there)
  · intro v w task left right
    exact custody.single v w task ((running v task).mp left) ((running w task).mp right)
  · intro all task member
    have before := returned all
    rw [queue] at member
    rw [if_pos before]
    rcases List.mem_append.mp member with old | new
    · exact List.mem_append_left _ (custody.late before task old)
    · exact List.mem_append_right _ new

theorem popCustody (sound : Sound s.pool) (custody : Custody s) {w : Nat} {task : Task} {rest : List Task}
    (there : s.pool.workers w = .popping) (front : s.pool.queue = task :: rest) :
    Custody { s with
      pool := { s.pool.turn w (if task.callable then .running task else .locking) with
        mutex := none, queue := rest }
      dequeued := s.dequeued ++ [task] } := by
  have order := custody.order
  rw [front] at order
  have fresh : task ∉ s.dequeued := by
    have nodup := addedNodup custody
    rw [order, List.nodup_append] at nodup
    exact fun member => nodup.2.2 task member task List.mem_cons_self rfl
  have held : ∀ v, s.pool.workers v ≠ .running task := by
    intro v running
    exact fresh ((custody.taken task).mpr (.inr ⟨v, running⟩)).1
  have unrun : task ∉ s.ran := fun ran => fresh ((custody.taken task).mpr (.inl ran)).1
  refine ⟨by simp [order], custody.numbers, ?_, ?_, ?_, custody.once, ?_⟩
  · intro other
    have taken := custody.taken other
    simp only [turn, Function.update_apply]
    grind
  · intro v other
    have apart := custody.apart v other
    simp only [turn, Function.update_apply]
    grind
  · intro v v' other
    have single := custody.single v v' other
    simp only [turn, Function.update_apply]
    grind
  · intro all
    refine absurd all (notAllReturned (present sound (w := w) (by simp [there])) ?_)
    simp only [turn, Function.update_self]
    split <;> simp

theorem finishCustody (sound : Sound s.pool) (custody : Custody s) {w : Nat} {task : Task}
    (there : s.pool.workers w = .running task) :
    Custody { s with pool := s.pool.turn w .locking, ran := s.ran ++ [task] } := by
  refine ⟨custody.order, custody.numbers, ?_, ?_, ?_, ?_, ?_⟩
  · intro other
    have taken := custody.taken other
    simp only [turn, Function.update_apply]
    grind
  · intro v other
    have apart := custody.apart v other
    have single := custody.single v w other
    simp only [turn, Function.update_apply]
    grind
  · intro v v' other
    have single := custody.single v v' other
    simp only [turn, Function.update_apply]
    grind
  · have unrun := custody.apart w task there
    have once := custody.once
    grind
  · exact fun all => absurd all (notAllReturned (present sound (w := w) (by simp [there])) (by simp [turn]))

inductive Stepped (s : State) : State → Prop where
  | starts {pool : ThreadPool} (ok : s.pool.start = some pool) : Stepped s { s with pool }
  | spawns {pool : ThreadPool} (ok : s.pool.spawn = some pool) : Stepped s { s with pool }
  | stops {pool : ThreadPool} (ok : s.pool.stop = some pool) : Stepped s { s with pool }
  | destroys {pool : ThreadPool} (ok : s.pool.stop = some pool) :
      Stepped s { s with pool := { pool with destroyed := true } }
  | adds {callable : Bool} {woken : Option Nat} {pool : ThreadPool}
      (ok : s.pool.add ⟨s.added.length, callable⟩ woken = some pool) :
      Stepped s { s with
        pool
        added := s.added ++ [⟨s.added.length, callable⟩]
        late := if s.pool.allReturned then s.late ++ [⟨s.added.length, callable⟩] else s.late }
  | pops {w : Nat} {pool : ThreadPool} (there : s.pool.workers w = .popping)
      (ok : s.pool.runInThread w = some pool) :
      Stepped s { s with pool, dequeued := s.dequeued ++ s.pool.queue.take 1 }
  | finishes {w : Nat} {task : Task} {pool : ThreadPool} (there : s.pool.workers w = .running task)
      (ok : s.pool.runInThread w = some pool) : Stepped s { s with pool, ran := s.ran ++ [task] }
  | moves {w : Nat} {pool : ThreadPool} (calm : s.pool.workers w ≠ .popping)
      (idle : ∀ task, s.pool.workers w ≠ .running task) (ok : s.pool.runInThread w = some pool) :
      Stepped s { s with pool }
  | wakes {w : Nat} {pool : ThreadPool} (ok : s.pool.wake w = some pool) : Stepped s { s with pool }

theorem steppedOf {a : Action} (ok : step s a = some t) : Stepped s t := by
  cases a with
  | start =>
    obtain ⟨pool, started, last⟩ := Option.bind_eq_some_iff.mp ok
    exact Option.some.inj last ▸ .starts started
  | spawn =>
    obtain ⟨pool, spawned, last⟩ := Option.bind_eq_some_iff.mp ok
    exact Option.some.inj last ▸ .spawns spawned
  | stop =>
    obtain ⟨pool, stopped, last⟩ := Option.bind_eq_some_iff.mp ok
    exact Option.some.inj last ▸ .stops stopped
  | destroy =>
    obtain ⟨pool, ended, last⟩ := Option.bind_eq_some_iff.mp ok
    obtain ⟨stopped, ran, rfl⟩ := destroyCases ended
    exact Option.some.inj last ▸ .destroys ran
  | add inside callable woken =>
    obtain ⟨-, added⟩ := Option.ite_none_right_eq_some.mp ok
    obtain ⟨pool, queued, last⟩ := Option.bind_eq_some_iff.mp added
    exact Option.some.inj last ▸ .adds queued
  | work w =>
    obtain ⟨pool, worked, last⟩ := Option.bind_eq_some_iff.mp ok
    split at last
    · rename_i there
      exact Option.some.inj last ▸ .pops there worked
    · rename_i task there
      exact Option.some.inj last ▸ .finishes there worked
    · rename_i calm idle
      exact Option.some.inj last ▸ .moves calm idle worked
  | wake w =>
    obtain ⟨pool, woken, last⟩ := Option.bind_eq_some_iff.mp ok
    exact Option.some.inj last ▸ .wakes woken

theorem stepSound {a : Action} (sound : Sound s.pool) (stepped : step s a = some t) : Sound t.pool := by
  cases steppedOf stepped with
  | starts ok => exact startSound sound ok
  | spawns ok => exact spawnSound sound ok
  | stops ok => exact stopSound sound ok
  | destroys ok => exact { stopSound sound ok with }
  | adds ok => exact addSound sound ok
  | pops _ ok => exact workSound sound ok
  | finishes _ ok => exact workSound sound ok
  | moves _ _ ok => exact workSound sound ok
  | wakes ok => exact wakeSound sound ok

theorem workCustody (sound : Sound s.pool) (custody : Custody s) {w : Nat} {pool : ThreadPool}
    (calm : s.pool.workers w ≠ .popping) (idle : ∀ task, s.pool.workers w ≠ .running task)
    (ok : s.pool.runInThread w = some pool) : Custody { s with pool } := by
  cases workedOf ok with
  | starts there =>
    exact movedCustody sound custody (by simp [there]) (by simp [there]) (by simp) (by simp) s.pool.mutex
  | locks there free =>
    exact movedCustody sound custody (by simp [there]) (by simp [there]) (by simp) (by simp) _
  | returns there empty off =>
    exact movedCustody sound custody (by simp [there]) (by simp [there]) (by simp) (fun _ => empty) _
  | blocks there empty on =>
    exact movedCustody sound custody (by simp [there]) (by simp [there]) (by simp) (by simp) s.pool.mutex
  | sees there some =>
    exact movedCustody sound custody (by simp [there]) (by simp [there]) (by simp) (by simp) s.pool.mutex
  | waits there =>
    exact movedCustody sound custody (by simp [there]) (by simp [there]) (by simp) (by simp) _
  | pops there front => exact absurd there calm
  | finishes there => exact absurd there (idle _)

theorem stepCustody {a : Action} (sound : Sound s.pool) (custody : Custody s) (stepped : step s a = some t) :
    Custody t := by
  cases steppedOf stepped with
  | @starts pool ok =>
    unfold start at ok
    split at ok <;> try contradiction
    rename_i first
    rw [← Option.some.inj ok]
    refine quietCustody custody rfl (fun _ _ => .rfl) fun all => ?_
    -- nothing was spawned yet, and a pool has at least one worker
    have unborn := (sound.idle (by simp_all)).1
    have positive := sound.positive
    have every : s.pool.spawned = s.pool.threadSize := all.2.1
    omega
  | @spawns pool ok =>
    unfold spawn at ok
    split at ok <;> try contradiction
    rw [← Option.some.inj ok]
    have absent := (sound.absent s.pool.spawned).mpr (Nat.le_refl _)
    refine quietCustody custody rfl (turnedRunning (by simp [absent]) (by simp)) fun all => absurd all ?_
    exact notAllReturned (Nat.lt_succ_self s.pool.spawned) (by simp [turn])
  | @stops pool ok => exact notifiedCustody custody ok pool.destroyed
  | destroys ok => exact notifiedCustody custody ok true
  | adds ok => exact addCustody sound custody ok
  | pops there ok =>
    cases workedOf ok with
    | pops _ front =>
      rw [front]
      exact popCustody sound custody there front
    | starts other | locks other | returns other | blocks other | sees other | waits other | finishes other =>
      simp [other] at there
  | finishes there ok =>
    cases workedOf ok with
    | finishes _ => exact finishCustody sound custody there
    | starts other | locks other | returns other | blocks other | sees other | waits other | pops other =>
      simp [other] at there
  | moves calm idle ok => exact workCustody sound custody calm idle ok
  | wakes ok =>
    unfold wake at ok
    split at ok <;> try contradiction
    rename_i waiting
    rw [← Option.some.inj ok]
    exact movedCustody sound custody (by simp [waiting]) (by simp [waiting]) (by simp) (by simp) s.pool.mutex

end

theorem criticalMoves {p : ThreadPool} (sound : Sound p) {w : Nat} (inside : (p.workers w).critical = true) :
    p.runInThread w ≠ none := by
  unfold runInThread
  split <;> simp_all [Phase.critical]
  · split
    · split <;> simp
    · simp
  · rename_i there
    have stocked := sound.stocked w there
    split
    · contradiction
    · simp

theorem stuckCases {p : ThreadPool} (sound : Sound p) (started : p.started = true) (stuck : p.stuck) :
    p.spawned = p.threadSize ∧ ∀ w < p.threadSize, p.workers w = .waiting ∨ p.workers w = .returned := by
  have all : p.spawned = p.threadSize := by
    have born := sound.born
    by_contra fewer
    have spawns := stuck.1
    rw [spawn, if_pos ⟨started, by omega⟩] at spawns
    contradiction
  have free : p.mutex = none := by
    by_contra locked
    obtain ⟨v, held⟩ := Option.ne_none_iff_exists'.mp locked
    have inside := (sound.holder v).mp held
    have below : v < p.spawned := present sound fun absent => by simp [absent, Phase.critical] at inside
    exact criticalMoves sound inside (stuck.2 v below)
  refine ⟨all, fun w below => ?_⟩
  have still := stuck.2 w (by omega)
  have there : p.workers w ≠ .absent := fun absent => by
    have outside := (sound.absent w).mp absent
    omega
  have outside : (p.workers w).critical = false := by
    by_contra inside
    exact criticalMoves sound (by simpa using inside) still
  unfold runInThread at still
  split at still <;> simp_all [Phase.critical]

structure Exact (s : State) : Prop where
  order : s.added = s.dequeued ++ s.pool.queue
  distinct : s.added.Nodup
  taken : ∀ task ∈ s.ran, task ∈ s.dequeued
  once : s.ran.Nodup
  again : ∀ w task, s.pool.workers w = .running task → task ∉ s.ran
  single : ∀ v w task, s.pool.workers v = .running task → s.pool.workers w = .running task → v = w
  awake : s.pool.running = true → s.pool.stuck → s.pool.queue = []
  drained : s.pool.started = true → s.pool.running = false → s.pool.stuck →
    s.pool.allReturned ∧ ∀ task ∈ s.added, task.callable = true → task ∉ s.late → task ∈ s.ran

theorem exactOf {s : State} (sound : Sound s.pool) (custody : Custody s) : Exact s where
  order := custody.order
  distinct := addedNodup custody
  taken task ran := ((custody.taken task).mpr (.inl ran)).1
  once := custody.once
  again := custody.apart
  single := custody.single
  awake := by
    intro on stuck
    have started : s.pool.started = true := by
      by_contra off
      have idle := (sound.idle (by simpa using off)).2
      simp [idle] at on
    obtain ⟨all, still⟩ := stuckCases sound started stuck
    refine sound.alert all fun w below => (still w below).resolve_right fun returned => ?_
    simp [sound.returned w returned] at on
  drained := by
    intro started off stuck
    obtain ⟨all, still⟩ := stuckCases sound started stuck
    have returned : s.pool.allReturned := by
      refine ⟨started, all, fun w below => (still w below).resolve_left fun waiting => ?_⟩
      simp [sound.asleep w (.inr waiting)] at off
    refine ⟨returned, fun task member callable early => ?_⟩
    rw [custody.order, List.mem_append] at member
    rcases member with dequeued | queued
    · rcases (custody.taken task).mp ⟨dequeued, callable⟩ with ran | ⟨w, running⟩
      · exact ran
      · refine absurd returned (notAllReturned (w := w) (present sound ?_) ?_) <;> simp [running]
    · exact absurd (custody.late returned task queued) early

theorem initSound {threadSize : Nat} (positive : 0 < threadSize) : Sound (construct threadSize) where
  positive := positive
  born := Nat.zero_le _
  absent _ := by simp [construct]
  idle _ := ⟨rfl, rfl⟩
  holder _ := by simp [construct, Phase.critical]
  blocked _ there := by simp [construct] at there
  stocked _ there := by simp [construct] at there
  asleep _ there := by simp [construct] at there
  returned _ there := by simp [construct] at there
  alert _ _ := rfl

theorem initCustody (threadSize : Nat) : Custody (init threadSize) := by
  constructor <;> simp [init, construct]

def Inv (s : State) : Prop := Sound s.pool ∧ Custody s

theorem stepInv {s t : State} {a : Action} (inv : Inv s) (ok : step s a = some t) : Inv t :=
  ⟨stepSound inv.1 ok, stepCustody inv.1 inv.2 ok⟩

theorem tasksRunOnce {threadSize : Nat} (positive : 0 < threadSize) {actions : List Action} {s : State}
    (ok : run step (init threadSize) actions = some s) : Exact s := by
  have inv : Inv s := runInvariant stepInv ⟨initSound positive, initCustody threadSize⟩ ok
  exact exactOf inv.1 inv.2

def twoTasks : List Action :=
  [.add none true none, .start, .spawn, .work 0, .work 0, .work 0, .work 0, .destroy,
    .add (some 0) true none, .work 0, .work 0, .work 0, .work 0, .work 0, .work 0, .work 0]

theorem tasksRunOnceSample :
    ∃ s, run step (init 1) twoTasks = some s ∧ s.ran = [⟨0, true⟩, ⟨1, true⟩] ∧
      s.pool.workers 0 = .returned ∧ Exact s := by
  have ends : (run step (init 1) twoTasks).map (fun s => (s.ran, s.pool.workers 0)) =
      some ([⟨0, true⟩, ⟨1, true⟩], .returned) := by decide
  obtain ⟨s, ok, fields⟩ := Option.map_eq_some_iff.mp ends
  obtain ⟨ran, returned⟩ := Prod.mk.inj fields
  exact ⟨s, ok, ran, returned, tasksRunOnce (Nat.succ_pos 0) ok⟩

/- The only worker has returned when the task is added. -/
theorem lateTaskNotRun :
    ∃ s, run step (init 1) [.start, .spawn, .work 0, .stop, .work 0, .work 0, .add none true none] = some s ∧
      s.pool.started = true ∧ s.pool.running = false ∧ s.pool.destroyed = false ∧ s.pool.stuck ∧
      ∃ task ∈ s.added, task.callable = true ∧ task ∉ s.ran := by
  refine ⟨_, rfl, rfl, rfl, rfl, ⟨rfl, fun w below => ?_⟩, ⟨0, true⟩, by decide, rfl, by decide⟩
  obtain rfl : w = 0 := Nat.lt_one_iff.mp below
  rfl

end TinyNetwork.TaskRuns
