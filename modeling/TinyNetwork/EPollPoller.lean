import Mathlib.Logic.Function.Basic
import TinyNetwork.Channel

/-! The poller and the epoll instance behind it. A Channel* is an address in
`objects`; `channels` is the map channels_ from descriptors to such pointers, and
`epoll` what the kernel has for a descriptor: the mask and data.ptr. epoll_ctl calls
that fail are kept in `failures`; LOG_FATAL ends the program, as does a pointer to
no Channel, and both are `none`. -/
namespace TinyNetwork

inductive EpollCtl where
  | add
  | mod
  | del
  deriving DecidableEq, Repr

structure EPollPoller where
  objects : Nat → Option Channel
  channels : Nat → Option Nat
  epoll : Nat → Option (EpollMask × Nat)
  failures : List EpollCtl

namespace EPollPoller

/- The kernel's side: EEXIST for a descriptor it has, ENOENT for one it does not. -/
def epollCtl (epoll : Nat → Option (EpollMask × Nat)) (operation : EpollCtl) (fd : Nat)
    (event : EpollMask × Nat) : Option (Nat → Option (EpollMask × Nat)) :=
  match operation with
  | .add => if (epoll fd).isSome then none else some (Function.update epoll fd (some event))
  | .mod => if (epoll fd).isSome then some (Function.update epoll fd (some event)) else none
  | .del => if (epoll fd).isSome then some (Function.update epoll fd none) else none

def update (s : EPollPoller) (operation : EpollCtl) (channel : Nat) : Option EPollPoller := do
  let c ← s.objects channel
  match epollCtl s.epoll operation c.fd (c.events, channel) with
  | some epoll => some { s with epoll }
  | none =>
      if operation = .del then some { s with failures := s.failures ++ [operation] } else none

def setIndex (s : EPollPoller) (channel : Nat) (index : PollerIndex) : Option EPollPoller := do
  let c ← s.objects channel
  some { s with objects := Function.update s.objects channel (some { c with index }) }

def updateChannel (s : EPollPoller) (channel : Nat) : Option EPollPoller := do
  let c ← s.objects channel
  if c.index = .kNew ∨ c.index = .kDeleted then
    let channels := if c.index = .kNew then Function.update s.channels c.fd (some channel) else s.channels
    let s := { s with channels }
    let s ← s.setIndex channel .kAdded
    s.update .add channel
  else if c.isNoneEvent then
    let s ← s.update .del channel
    s.setIndex channel .kDeleted
  else s.update .mod channel

def removeChannel (s : EPollPoller) (channel : Nat) : Option EPollPoller := do
  let c ← s.objects channel
  let s := { s with channels := Function.update s.channels c.fd none }
  let s ← if c.index = .kAdded then s.update .del channel else some s
  s.setIndex channel .kNew

def hasChannel (s : EPollPoller) (channel : Nat) : Bool :=
  match s.objects channel with
  | none => false
  | some c => s.channels c.fd == some channel

def change (s : EPollPoller) (channel : Nat) (events : Channel → Channel) : Option EPollPoller := do
  let c ← s.objects channel
  let s := { s with objects := Function.update s.objects channel (some (events c)) }
  s.updateChannel channel

def enableReading (s : EPollPoller) (channel : Nat) : Option EPollPoller := s.change channel Channel.enableReading
def disableReading (s : EPollPoller) (channel : Nat) : Option EPollPoller := s.change channel Channel.disableReading
def enableWriting (s : EPollPoller) (channel : Nat) : Option EPollPoller := s.change channel Channel.enableWriting
def disableWriting (s : EPollPoller) (channel : Nat) : Option EPollPoller := s.change channel Channel.disableWriting
def disableAll (s : EPollPoller) (channel : Nat) : Option EPollPoller := s.change channel Channel.disableAll
def remove (s : EPollPoller) (channel : Nat) : Option EPollPoller := s.removeChannel channel

end EPollPoller
end TinyNetwork
