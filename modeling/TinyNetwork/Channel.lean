import Mathlib.Tactic.Common

/-! The channel of one descriptor: the events it is interested in, the events
the poller reported, and its registration with the poller. A mask is the set of
the epoll bits this program uses. Callbacks belong to the owner of the channel. -/
namespace TinyNetwork

structure EpollMask where
  epollin : Bool := false
  epollpri : Bool := false
  epollout : Bool := false
  epollerr : Bool := false
  epollhup : Bool := false
  deriving DecidableEq, Repr

namespace EpollMask

def or (a b : EpollMask) : EpollMask :=
  ⟨a.epollin || b.epollin, a.epollpri || b.epollpri, a.epollout || b.epollout,
    a.epollerr || b.epollerr, a.epollhup || b.epollhup⟩

def and (a b : EpollMask) : EpollMask :=
  ⟨a.epollin && b.epollin, a.epollpri && b.epollpri, a.epollout && b.epollout,
    a.epollerr && b.epollerr, a.epollhup && b.epollhup⟩

def not (a : EpollMask) : EpollMask :=
  ⟨!a.epollin, !a.epollpri, !a.epollout, !a.epollerr, !a.epollhup⟩

end EpollMask

/- kNew = -1, kAdded = 1 and kDeleted = 2 in the source. -/
inductive PollerIndex where
  | kNew
  | kAdded
  | kDeleted
  deriving DecidableEq, Repr

structure Channel where
  fd : Nat
  events : EpollMask
  revents : EpollMask
  index : PollerIndex
  deriving DecidableEq, Repr

namespace Channel

def kNoneEvent : EpollMask := {}
def kReadEvent : EpollMask := { epollin := true, epollpri := true }
def kWriteEvent : EpollMask := { epollout := true }

def make (fd : Nat) : Channel := ⟨fd, kNoneEvent, kNoneEvent, .kNew⟩

def enableReading (c : Channel) : Channel := { c with events := c.events.or kReadEvent }
def disableReading (c : Channel) : Channel := { c with events := c.events.and kReadEvent.not }
def enableWriting (c : Channel) : Channel := { c with events := c.events.or kWriteEvent }
def disableWriting (c : Channel) : Channel := { c with events := c.events.and kWriteEvent.not }
def disableAll (c : Channel) : Channel := { c with events := c.events.and kNoneEvent }
def isNoneEvent (c : Channel) : Bool := decide (c.events = kNoneEvent)
def isWriting (c : Channel) : Bool := decide (c.events.and kWriteEvent ≠ kNoneEvent)

theorem isWritingBit (c : Channel) : c.isWriting = c.events.epollout := by
  obtain ⟨fd, ⟨a, b, out, d, e⟩, revents, index⟩ := c
  cases out <;> simp [isWriting, EpollMask.and, kWriteEvent, kNoneEvent]

@[simp] theorem enableReadingWriting (c : Channel) : c.enableReading.isWriting = c.isWriting := by
  simp [isWritingBit, enableReading, EpollMask.or, kReadEvent]

@[simp] theorem enableWritingWriting (c : Channel) : c.enableWriting.isWriting = true := by
  simp [isWritingBit, enableWriting, EpollMask.or, kWriteEvent]

@[simp] theorem disableWritingWriting (c : Channel) : c.disableWriting.isWriting = false := by
  simp [isWritingBit, disableWriting, EpollMask.and, EpollMask.not, kWriteEvent]

@[simp] theorem makeWriting (fd : Nat) : (make fd).isWriting = false := by
  simp [isWritingBit, make, kNoneEvent]

end Channel
end TinyNetwork
