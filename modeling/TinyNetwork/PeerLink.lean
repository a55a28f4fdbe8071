import TinyNetwork.ConnectionLifecycle
import TinyNetwork.OutgoingStream

/-! A connection, its peer and the server program behind the message callback. What the
peer sends waits in the kernel until an event reads it; the callback gets the connection
with its input buffer, takes from it what it likes and calls send() and shutdown().
The connection callback of the servers here only logs. -/
namespace TinyNetwork
open Runs Buffer OutgoingStream

namespace LiveConnection

def handleReadWith (l : LiveConnection) (messageCallback : LiveConnection → Option LiveConnection)
    (readv : Readv) (closeScript : List UserCall) : Option LiveConnection := do
  let (inputBuffer, n) ← l.inputBuffer.readFd readv
  let l := { l with inputBuffer }
  if 0 < n then messageCallback (l.note .messageCallback)
  else if n = 0 then l.handleClose closeScript
  else some (l.note (.effect (.logError "TcpConnection::handleRead() failed"))).handleError

def readEventWith (l : LiveConnection) (messageCallback : LiveConnection → Option LiveConnection)
    (d : Delivery) : Option LiveConnection :=
  if d.revents.epollin || d.revents.epollpri then l.handleReadWith messageCallback d.readv d.readScript
  else some l

def handleEventWith (l : LiveConnection) (messageCallback : LiveConnection → Option LiveConnection)
    (d : Delivery) : Option LiveConnection := do
  let l ← l.closeEvent d
  let l := l.errorEvent d
  let l ← l.readEventWith messageCallback d
  l.writeEvent d

theorem handleEventScript (l : LiveConnection) (d : Delivery) :
    l.handleEventWith (·.calls d.readScript) d = l.handleEventWithGuard d := rfl

end LiveConnection

namespace PeerLink
open LiveConnection

structure Link where
  life : LiveConnection
  sent : Bytes
  unread : Bytes
  deriving DecidableEq, Repr

/- readv fails, or takes up to so many of the waiting bytes. -/
inductive Receipt where
  | failed (errno : Nat)
  | got (n : Nat)
  deriving DecidableEq, Repr

namespace Receipt

def readv (unread : Bytes) : Receipt → Readv
  | .failed errno => .failed errno
  | .got n => .got (unread.take n)

def left (unread : Bytes) : Receipt → Bytes
  | .failed _ => unread
  | .got n => unread.drop n

end Receipt

/- One report of the poller; `answer` has the outcomes of what the callback writes. -/
structure Report (κ : Type) where
  revents : EpollMask
  receipt : Receipt
  answer : κ
  write : WriteOutcome
  deriving DecidableEq, Repr

def Report.reads {κ : Type} (r : Report κ) : Bool := r.revents.epollin || r.revents.epollpri

inductive Action (κ : Type) where
  | arrives (data : Bytes)
  | event (report : Report κ)
  deriving DecidableEq, Repr

variable {κ : Type} {onMessage : κ → LiveConnection → Option LiveConnection}

def step (onMessage : κ → LiveConnection → Option LiveConnection) (w : Link) : Action κ → Option Link
  | .arrives data => some { w with sent := w.sent ++ data, unread := w.unread ++ data }
  | .event r => do
      let life ← w.life.handleEventWith (onMessage r.answer) ⟨r.revents, r.receipt.readv w.unread, r.write, [], []⟩
      some { w with life, unread := if r.reads then r.receipt.left w.unread else w.unread }

def start (fd : Nat) (writeComplete highWater : Bool) (mark : Nat) : Link :=
  let l := (LiveConnection.make fd writeComplete highWater mark).setState .kConnected
  let l := l.setChannel l.conn.channel.enableReading
  ⟨l.note (.connectionCallback true), [], []⟩

theorem startEstablished (fd : Nat) (writeComplete highWater : Bool) (mark : Nat) :
    (LiveConnection.make fd writeComplete highWater mark).connectEstablished [] =
      some (start fd writeComplete highWater mark).life := rfl

def arrived : List (Action κ) → Bytes
  | [] => []
  | .arrives data :: rest => data ++ arrived rest
  | .event _ :: rest => arrived rest

theorem runArrived {w t : Link} {actions : List (Action κ)} (ok : run (step onMessage) w actions = some t) :
    t.sent = w.sent ++ arrived actions := by
  induction actions generalizing w with
  | nil => cases Option.some.inj ok; simp [arrived]
  | cons a rest ih =>
    obtain ⟨u, first, later⟩ := runCons.mp ok
    rw [ih later]
    cases a with
    | arrives data => cases Option.some.inj first; simp [arrived]
    | event r =>
      obtain ⟨life, _, last⟩ := Option.bind_eq_some_iff.mp first
      cases Option.some.inj last
      rfl

def effectsOf (trace : List Note) : List Effect :=
  trace.filterMap fun
    | .effect e => some e
    | _ => none

@[simp] theorem effectsOfAppend (a b : List Note) : effectsOf (a ++ b) = effectsOf a ++ effectsOf b :=
  List.filterMap_append

@[simp] theorem effectsOfEffects (effects : List Effect) : effectsOf (effects.map .effect) = effects := by
  induction effects with
  | nil => rfl
  | cons e rest ih => exact congrArg (e :: ·) ih

theorem effectsOfDone (l : LiveConnection) (conn : TcpConnection) (effects : List Effect) :
    effectsOf (l.effects conn effects).trace = effectsOf l.trace ++ effects := by
  rw [LiveConnection.effects, effectsOfAppend, effectsOfEffects]

def taken (l : LiveConnection) : Bytes := accepted (effectsOf l.trace)

def Intact (l : LiveConnection) : Prop := ¬ Broken (effectsOf l.trace)

theorem noteQuiet (l : LiveConnection) {n : Note} (quiet : accepted (effectsOf [n]) = [])
    (safe : ¬ Broken (effectsOf [n])) :
    taken (l.note n) = taken l ∧ (Intact (l.note n) ↔ Intact l) := by
  simp only [taken, Intact, LiveConnection.note, effectsOfAppend, acceptedAppend, quiet, List.append_nil,
    brokenAppend, safe, or_false, and_self]

theorem closedQuietly (l : LiveConnection) :
    ∃ m, l.handleClose [] = some m ∧ m.conn.state = .kDisconnected ∧ m.conn.channel.isWriting = false ∧
      m.conn.outputBuffer = l.conn.outputBuffer ∧ m.inputBuffer = l.inputBuffer ∧
      effectsOf m.trace = effectsOf l.trace := by
  refine ⟨_, rfl, rfl, ?_, rfl, rfl, ?_⟩
  · simp [Channel.isWritingBit, note, setChannel, setState, Channel.disableAll, EpollMask.and, Channel.kNoneEvent]
  · simp [note, setChannel, setState, effectsOf]

theorem sendCases {l m : LiveConnection} {data : Bytes} {outcome : WriteOutcome} (ok : l.send data outcome = some m) :
    (l.conn.state = .kConnected ∧ ∃ conn effects, l.conn.sendInLoop data outcome = some (conn, effects) ∧
      m = l.effects conn effects) ∨
    (l.conn.state ≠ .kConnected ∧ m = l) := by
  unfold send at ok
  split at ok
  · rename_i connected
    obtain ⟨⟨conn, effects⟩, sent, last⟩ := Option.bind_eq_some_iff.mp ok
    exact .inl ⟨connected, conn, effects, sent, (Option.some.inj last).symm⟩
  · rename_i gone
    exact .inr ⟨gone, (Option.some.inj ok).symm⟩

theorem eventRule (Before After : LiveConnection → Prop) {l m : LiveConnection}
    {messageCallback : LiveConnection → Option LiveConnection} {d : Delivery}
    (closes : ∀ {l m}, Before l → l.handleClose d.closeScript = some m → Before m)
    (errs : ∀ {l} text, Before l → Before (l.note (.effect (.logError text))).handleError)
    (reads : ∀ {l m}, Before l → (d.revents.epollin || d.revents.epollpri) = true →
      l.handleReadWith messageCallback d.readv d.readScript = some m → After m)
    (skips : ∀ {l}, Before l → (d.revents.epollin || d.revents.epollpri) = false → After l)
    (writes : ∀ {l m}, After l → l.handleWrite d.write = some m → After m)
    (before : Before l) (ok : l.handleEventWith messageCallback d = some m) : After m := by
  simp only [handleEventWith, bind, Option.bind_eq_some_iff] at ok
  obtain ⟨hung, first, read, second, last⟩ := ok
  have closed : Before hung := by
    unfold closeEvent at first
    split at first
    · exact closes before first
    · rwa [← Option.some.inj first]
  have erred : Before (hung.errorEvent d) := by
    unfold errorEvent
    split
    · exact errs _ closed
    · exact closed
  have taken_ : After read := by
    unfold readEventWith at second
    split at second
    · rename_i readable
      exact reads erred readable second
    · rename_i quiet
      rw [← Option.some.inj second]
      exact skips erred (by simpa using quiet)
  unfold writeEvent at last
  split at last
  · exact writes taken_ last
  · rwa [← Option.some.inj last]

end PeerLink
end TinyNetwork
