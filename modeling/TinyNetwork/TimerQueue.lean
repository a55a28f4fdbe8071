import Mathlib.Algebra.Group.Nat.Defs
import Mathlib.Logic.Function.Basic
import TinyNetwork.Basic
import TinyNetwork.OrderedSets
import TinyNetwork.Runs

/-! The timer queue and its timerfd. Timestamp::now() and CLOCK_MONOTONIC are two
sequences without a relation between them; `ticks` counts the readings of the first,
and a call on the timerfd falls at the monotonic time of the same number. A callback
is seen by the timers it adds. An operation returns `none` when it follows a pointer
to no Timer, and for an address that operator new cannot return. -/
namespace TinyNetwork
open OrderedSets Runs

def uintptrMax : Nat := 2 ^ 64 - 1

structure Clocks where
  now : Nat → Timestamp
  monotonic : Nat → Int
  forward : ∀ n, monotonic n ≤ monotonic (n + 1)

structure Timespec where
  tvSec : Int
  tvNsec : Int
  deriving DecidableEq, Repr

namespace Timespec

def valid (v : Timespec) : Bool := 0 ≤ v.tvSec && 0 ≤ v.tvNsec && v.tvNsec < 1000000000

def zero (v : Timespec) : Bool := v.tvSec == 0 && v.tvNsec == 0

def nanoSeconds (v : Timespec) : Int := v.tvSec * 1000000000 + v.tvNsec

end Timespec

/- The monotonic time at which the alarm goes off. It stays when the alarm goes off,
and the read that finds it in the past takes it away. -/
structure Timerfd where
  deadline : Option Int
  deriving DecidableEq, Repr

namespace Timerfd

def armed (fd : Timerfd) (at_ : Int) : Bool := fd.deadline.any (fun d => at_ < d)

def readable (fd : Timerfd) (at_ : Int) : Bool := fd.deadline.any (fun d => d ≤ at_)

/- EINVAL leaves the alarm alone; a zero it_value disarms it. -/
def settime (fd : Timerfd) (at_ : Int) (itValue : Timespec) : Timerfd :=
  if !itValue.valid then fd
  else if itValue.zero then ⟨none⟩
  else ⟨some (at_ + itValue.nanoSeconds)⟩

/- EAGAIN when the alarm has not gone off. -/
def read (fd : Timerfd) (at_ : Int) : Timerfd := if fd.readable at_ then ⟨none⟩ else fd

end Timerfd

/- `serial` tells Timer objects apart when an address is used again; it stands for
the callback of the object as well. -/
structure Timer where
  serial : Nat
  expiration : Timestamp
  interval : Interval
  deriving DecidableEq, Repr

namespace Timer

def repeats (t : Timer) : Bool := t.interval.positive

def restart (t : Timer) (now : Timestamp) : Timer :=
  if t.repeats then { t with expiration := now.addTime t.interval }
  else { t with expiration := Timestamp.invalid }

end Timer

abbrev Entry := Timestamp × Nat

def entryLess (a b : Entry) : Bool := a.1.less b.1 || (!b.1.less a.1 && decide (a.2 < b.2))

theorem entryLessIff {a b : Entry} :
    entryLess a b = true ↔
      a.1.microSecondsSinceEpoch < b.1.microSecondsSinceEpoch ∨
        a.1.microSecondsSinceEpoch = b.1.microSecondsSinceEpoch ∧ a.2 < b.2 := by
  simp only [entryLess, Bool.or_eq_true, Bool.and_eq_true, Bool.not_eq_true', decide_eq_true_eq,
    Timestamp.lessIff, Timestamp.lessFalseIff]
  omega

def entryOrder : Comparator Entry where
  less := entryLess
  irreflexive a := by
    rw [Bool.eq_false_iff, ne_eq, entryLessIff]
    omega
  transitive below above := by
    rw [entryLessIff] at below above ⊢
    omega
  connected {a b} below above := by
    rw [Bool.eq_false_iff, ne_eq, entryLessIff] at below above
    obtain ⟨⟨time⟩, timer⟩ := a
    obtain ⟨⟨time'⟩, timer'⟩ := b
    simp only [Prod.mk.injEq, Timestamp.mk.injEq] at below above ⊢
    omega

abbrev TimerList := OrderedSet entryOrder

inductive TimerEvent where
  | added (timer : Timer)
  | ran (timer : Timer)
  | putBack (timer : Timer) (now : Timestamp)
  | deleted (timer : Timer)
  deriving DecidableEq, Repr

structure TimerArgs where
  timer : Nat
  time : Timestamp
  interval : Interval
  deriving DecidableEq, Repr

/- `lastSet` is the it_value of the last timerfd_settime and the reading it came from. -/
structure TimerQueue where
  timers : TimerList
  heap : Nat → Option Timer
  timerfd : Timerfd
  lastSet : Option (Timespec × Timestamp)
  ticks : Nat
  created : Nat
  log : List TimerEvent

namespace TimerQueue

def constructed : TimerQueue := ⟨OrderedSet.empty, fun _ => none, ⟨none⟩, none, 0, 0, []⟩

def begin_ (s : TimerQueue) : Option Entry := s.timers.items.head?

def store (s : TimerQueue) (timer : Nat) (value : Option Timer) (event : TimerEvent) : TimerQueue :=
  { s with heap := Function.update s.heap timer value, log := s.log ++ [event] }

def itValue (expiration now : Timestamp) : Timespec :=
  let microSecondDif := expiration.microSecondsSinceEpoch - now.microSecondsSinceEpoch
  let microSecondDif := if microSecondDif < 100 then 100 else microSecondDif
  ⟨microSecondDif.tdiv Timestamp.kMicroSecondsPerSecond,
    microSecondDif.tmod Timestamp.kMicroSecondsPerSecond * 1000⟩

def resetTimerfd (k : Clocks) (s : TimerQueue) (expiration : Timestamp) : TimerQueue :=
  let now := k.now s.ticks
  let ts := itValue expiration now
  { s with
    timerfd := s.timerfd.settime (k.monotonic s.ticks) ts
    lastSet := some (ts, now)
    ticks := s.ticks + 1 }

def earliestChanged (s : TimerQueue) (when : Timestamp) : Bool :=
  match s.begin_ with
  | none => true
  | some it => when.less it.1

def insert (s : TimerQueue) (timer : Nat) : Option (Bool × TimerQueue) := do
  let t ← s.heap timer
  let when := t.expiration
  some (s.earliestChanged when, { s with timers := s.timers.insert (when, timer) })

def addTimerInLoop (k : Clocks) (s : TimerQueue) (timer : Nat) : Option TimerQueue := do
  let (earliestChanged, s) ← s.insert timer
  if earliestChanged then do
    let t ← s.heap timer
    some (s.resetTimerfd k t.expiration)
  else some s

/- new Timer(cb, when, interval), in memory that no Timer occupies. -/
def newTimer (s : TimerQueue) (args : TimerArgs) : Option TimerQueue :=
  let t : Timer := ⟨s.created, args.time, args.interval⟩
  match s.heap args.timer with
  | some _ => none
  | none => some { s.store args.timer (some t) (.added t) with created := s.created + 1 }

def addTimer (k : Clocks) (s : TimerQueue) (args : TimerArgs) : Option TimerQueue := do
  let s ← s.newTimer args
  s.addTimerInLoop k args.timer

def readTimerFd (k : Clocks) (s : TimerQueue) : TimerQueue :=
  { s with timerfd := s.timerfd.read (k.monotonic s.ticks), ticks := s.ticks + 1 }

def getExpired (s : TimerQueue) (now : Timestamp) : List Entry × TimerQueue :=
  let sentry : Entry := (now, uintptrMax)
  (s.timers.before sentry, { s with timers := s.timers.eraseBefore sentry })

/- it.second->run(): the callback makes its calls of addTimer inside the loop thread. -/
def runTimer (k : Clocks) (callbacks : Nat → List TimerArgs) (s : TimerQueue) (it : Entry) :
    Option TimerQueue := do
  let t ← s.heap it.2
  run (addTimer k) { s with log := s.log ++ [.ran t] } (callbacks it.2)

def settle (k : Clocks) (s : TimerQueue) (it : Entry) : Option TimerQueue := do
  let t ← s.heap it.2
  if t.repeats then
    let now := k.now s.ticks
    let s := { s.store it.2 (some (t.restart now)) (.putBack (t.restart now) now) with ticks := s.ticks + 1 }
    let (_, s) ← s.insert it.2
    some s
  else some (s.store it.2 none (.deleted t))

def rearm (k : Clocks) (s : TimerQueue) : Option TimerQueue :=
  match s.begin_ with
  | none => some s
  | some first => do
      let t ← s.heap first.2
      some (s.resetTimerfd k t.expiration)

def resetOne (k : Clocks) (s : TimerQueue) (it : Entry) : Option TimerQueue := do
  let s ← s.settle k it
  s.rearm k

def reset (k : Clocks) (s : TimerQueue) (expired : List Entry) : Option TimerQueue :=
  run (resetOne k) s expired

def handleRead (k : Clocks) (s : TimerQueue) (callbacks : Nat → List TimerArgs) : Option TimerQueue := do
  let now := k.now s.ticks
  let s := s.readTimerFd k
  let (expired, s) := s.getExpired now
  let s ← run (runTimer k callbacks) s expired
  s.reset k expired

end TimerQueue
end TinyNetwork
