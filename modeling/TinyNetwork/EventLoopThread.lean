import TinyNetwork.FunctorQueue

/-! A thread with an event loop on its stack. threadFunc makes the loop, calls the
user's callback with it, publishes its address and enters loop(); startLoop returns
once the address is there. From then on other threads can queue functors and call
quit(), wherever threadFunc stands. -/
namespace TinyNetwork
open Runs

/- Where threadFunc is: not begun, behind the constructor of the loop, behind the
callback, behind the publication, in loop(), behind it, at its end. -/
inductive ThreadPhase where
  | unborn
  | constructed
  | initialised
  | published
  | looping
  | left
  | finished
  deriving DecidableEq, Repr

namespace EventLoop
variable {α : Type}

def constructed : EventLoop α := ⟨false, false, [], 0, .ended⟩

def outside (l : EventLoop α) : Bool :=
  match l.phase with
  | .ended => true
  | _ => false

/- loop() up to its first test: looping_ = true; quit_ = false. -/
def enter (l : EventLoop α) : EventLoop α := { l with quit := false, phase := .testing }

end EventLoop

/- `loopPtr` is loop_ != nullptr, `returned` that startLoop is through; `queue` is the
loop with the threads that queue functors in it. -/
structure EventLoopThread (α : Type) where
  thread : ThreadPhase
  loopPtr : Bool
  returned : Bool
  quitCalled : Bool
  queue : FunctorQueue.State α
  deriving DecidableEq, Repr

namespace EventLoopThread
variable {α : Type}

inductive Action (α : Type) where
  | construct
  | callback (functors : List α)
  | publish
  | startLoop
  | enter
  | move (a : FunctorQueue.Action α)
  | leave
  | clear
  | quit
  deriving DecidableEq, Repr

def start : EventLoopThread α :=
  ⟨.unborn, false, false, false, ⟨.constructed, 0, false, [], []⟩⟩

def hasLoop (s : EventLoopThread α) : Bool := s.thread ≠ .unborn && s.thread ≠ .finished

/- Moves of the loop thread need it to be in loop(), those of others need the loop;
quit() is an action of its own. -/
def mayMove (s : EventLoopThread α) : FunctorQueue.Action α → Bool
  | .advance _ | .pushInLoop _ | .wakeInLoop => s.thread = .looping
  | .push _ | .wake => s.hasLoop
  | .quit _ => false

def step (s : EventLoopThread α) : Action α → Option (EventLoopThread α)
  | .construct => if s.thread = .unborn then some { s with thread := .constructed } else none
  | .callback functors =>
      if s.thread = .constructed then
        some { s with
          thread := .initialised
          queue := { s.queue with
            loop := functors.foldl EventLoop.emplaceBack s.queue.loop
            pushed := s.queue.pushed ++ functors } }
      else none
  | .publish =>
      if s.thread = .initialised then some { s with thread := .published, loopPtr := true } else none
  | .startLoop => if s.loopPtr && !s.returned then some { s with returned := true } else none
  | .enter =>
      if s.thread = .published then
        some { s with thread := .looping, queue := { s.queue with loop := s.queue.loop.enter } }
      else none
  | .move a =>
      if s.mayMove a then do
        let queue ← FunctorQueue.step s.queue a
        some { s with queue }
      else none
  | .leave =>
      if s.thread = .looping ∧ s.queue.loop.outside then some { s with thread := .left } else none
  | .clear => if s.thread = .left then some { s with thread := .finished, loopPtr := false } else none
  | .quit =>
      if s.returned && !s.quitCalled && s.hasLoop then
        some { s with
          quitCalled := true
          queue := { s.queue with loop := s.queue.loop.requestQuit false } }
      else none

end EventLoopThread
end TinyNetwork
