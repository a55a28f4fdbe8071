import Mathlib.Logic.Function.Basic
import Mathlib.Tactic.Common

/-! The thread pool. A worker is where its thread stands in runInThread; add() and
stop() hold the mutex from their first line to their last and are one step each. A
step returns `none` when its thread has to wait, for the mutex or for a notification.
Tasks do not throw; an empty std::function is a task that is not callable. -/
namespace TinyNetwork

/- `number` tells the add() calls apart. -/
structure Task where
  number : Nat
  callable : Bool
  deriving DecidableEq, Repr

namespace ThreadPool

inductive Phase where
  | absent
  | starting
  | locking
  | testing
  | blocking
  | waiting
  | popping
  | running (task : Task)
  | returned
  deriving DecidableEq, Repr

/- Where a worker holds the mutex: at the tests, before it waits, before it pops. -/
def Phase.critical : Phase → Bool
  | .testing | .blocking | .popping => true
  | _ => false

def Phase.notified : Phase → Phase
  | .waiting => .locking
  | p => p

end ThreadPool

structure ThreadPool where
  threadSize : Nat
  started : Bool
  running : Bool
  destroyed : Bool
  mutex : Option Nat
  spawned : Nat
  workers : Nat → ThreadPool.Phase
  queue : List Task

namespace ThreadPool

def construct (threadSize : Nat) : ThreadPool :=
  ⟨threadSize, false, false, false, none, 0, fun _ => .absent, []⟩

def turn (p : ThreadPool) (w : Nat) (phase : Phase) : ThreadPool :=
  { p with workers := Function.update p.workers w phase }

/- start() up to its loop, which then makes the threads one by one. -/
def start (p : ThreadPool) : Option ThreadPool :=
  if p.started || p.destroyed then none else some { p with started := true, running := true }

def spawn (p : ThreadPool) : Option ThreadPool :=
  if p.started ∧ p.spawned < p.threadSize then
    some { p.turn p.spawned .starting with spawned := p.spawned + 1 }
  else none

def stop (p : ThreadPool) : Option ThreadPool :=
  if p.mutex.isSome then none
  else some { p with running := false, workers := fun w => (p.workers w).notified }

/- The destructor calls stop() and joins; start() is not under way then. -/
def destroy (p : ThreadPool) : Option ThreadPool :=
  if p.destroyed ∨ (p.started ∧ p.spawned < p.threadSize) then none
  else do
    let p ← p.stop
    some { p with destroyed := true }

def notifyOne (p : ThreadPool) : Option Nat → Option ThreadPool
  | none => if ∃ w < p.spawned, p.workers w = .waiting then none else some p
  | some w => if p.workers w = .waiting then some (p.turn w .locking) else none

def add (p : ThreadPool) (task : Task) (woken : Option Nat) : Option ThreadPool :=
  if p.mutex.isSome then none else { p with queue := p.queue ++ [task] }.notifyOne woken

/- A wait may end without a notification. -/
def wake (p : ThreadPool) (w : Nat) : Option ThreadPool :=
  if p.workers w = .waiting then some (p.turn w .locking) else none

def runInThread (p : ThreadPool) (w : Nat) : Option ThreadPool :=
  match p.workers w with
  | .absent => none
  | .starting => some (p.turn w .locking)
  | .locking => if p.mutex.isSome then none else some { p.turn w .testing with mutex := some w }
  | .testing =>
      if p.queue.isEmpty then
        if !p.running then some { p.turn w .returned with mutex := none }
        else some (p.turn w .blocking)
      else some (p.turn w .popping)
  | .blocking => some { p.turn w .waiting with mutex := none }
  | .waiting => none
  | .popping =>
      match p.queue with
      | [] => none
      | task :: rest =>
          some { p.turn w (if task.callable then .running task else .locking) with
            mutex := none, queue := rest }
  | .running _ => some (p.turn w .locking)
  | .returned => none

def allReturned (p : ThreadPool) : Prop :=
  p.started = true ∧ p.spawned = p.threadSize ∧ ∀ w < p.threadSize, p.workers w = .returned

instance (p : ThreadPool) : Decidable p.allReturned := inferInstanceAs (Decidable (_ ∧ _ ∧ _))

def stuck (p : ThreadPool) : Prop := p.spawn = none ∧ ∀ w < p.spawned, p.runInThread w = none

end ThreadPool
end TinyNetwork
