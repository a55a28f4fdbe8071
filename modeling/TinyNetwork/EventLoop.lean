import Mathlib.Tactic.Common

/-! The event loop and the functors queued in it. The loop thread is cut at every
point where another thread can come in between; wakeupFd is the counter of the
eventfd. A thread that must wake the loop does so in a step of its own after its
push. Functors are opaque values, and what a callback or a functor does to the queue
are further calls of queueInLoop. -/
namespace TinyNetwork

inductive Active where
  | wakeup
  | callback
  deriving DecidableEq, Repr

inductive LoopPhase (α : Type) where
  | testing
  | polling
  | handling (active : List Active)
  | marking
  | swapping
  | batch (rest : List α)
  | calling (rest : List α)
  | ended
  deriving DecidableEq, Repr

structure EventLoop (α : Type) where
  quit : Bool
  callingPendingFunctors : Bool
  pendingFunctors : List α
  wakeupFd : Nat
  phase : LoopPhase α
  deriving DecidableEq, Repr

namespace EventLoop
variable {α : Type}

def entered : EventLoop α := ⟨false, false, [], 0, .testing⟩

def wakeup (l : EventLoop α) : EventLoop α := { l with wakeupFd := l.wakeupFd + 1 }

def handleRead (l : EventLoop α) : EventLoop α := { l with wakeupFd := 0 }

/- quit() wakes the loop when it is called in the loop's own thread. -/
def requestQuit (l : EventLoop α) (inLoopThread : Bool) : EventLoop α :=
  let l := { l with quit := true }
  if inLoopThread then l.wakeup else l

/- The locked part of queueInLoop. -/
def emplaceBack (l : EventLoop α) (cb : α) : EventLoop α :=
  { l with pendingFunctors := l.pendingFunctors ++ [cb] }

def mustWake (l : EventLoop α) (inLoopThread : Bool) : Bool := !inLoopThread || l.callingPendingFunctors

def inUserCode (l : EventLoop α) : Bool :=
  match l.phase with
  | .handling (.callback :: _) => true
  | .calling _ => true
  | _ => false

/- The next move of the loop thread. `reported` is what poll returns; the eventfd is
reported only when its counter is positive. -/
def advance (l : EventLoop α) (reported : List Active) : Option (EventLoop α) :=
  match l.phase with
  | .testing => if l.quit then some { l with phase := .ended } else some { l with phase := .polling }
  | .polling =>
      if .wakeup ∈ reported → 0 < l.wakeupFd then some { l with phase := .handling reported } else none
  | .handling [] => some { l with phase := .marking }
  | .handling (.wakeup :: rest) => some { l.handleRead with phase := .handling rest }
  | .handling (.callback :: rest) => some { l with phase := .handling rest }
  | .marking => some { l with callingPendingFunctors := true, phase := .swapping }
  | .swapping => some { l with pendingFunctors := [], phase := .batch l.pendingFunctors }
  | .batch (_ :: rest) => some { l with phase := .calling rest }
  | .calling rest => some { l with phase := .batch rest }
  | .batch [] => some { l with callingPendingFunctors := false, phase := .testing }
  | .ended => none

end EventLoop
end TinyNetwork
