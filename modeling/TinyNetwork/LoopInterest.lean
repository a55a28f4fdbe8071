import TinyNetwork.OutgoingStream
import TinyNetwork.PollerMirror

/-! The connections of one loop and its poller. A connection asks the poller for what it
is waiting for: for input as long as it lives, and for room to write while its output
buffer has something. Connections come and go, and their descriptors with them; the
kernel never has one that belongs to nobody. -/
namespace TinyNetwork.LoopInterest
open Runs Buffer OutgoingStream
open PollerMirror (Call)

section Connection

/- The channel_ calls of the member functions, where their lines are in the source. -/
def sendInLoopCalls (c : TcpConnection) (data : Bytes) (outcome : WriteOutcome) : List Call :=
  if c.state = .kDisconnected then []
  else
    match c.firstWrite data outcome with
    | none => []
    | some (nwrote, faultError, _) =>
        if !faultError && 0 < data.length - nwrote && !c.channel.isWriting then [.enableWriting] else []

def handleWriteCalls (c : TcpConnection) : WriteOutcome → List Call
  | .wrote n =>
      if c.channel.isWriting && 0 < n && (c.outputBuffer.retrieve n).readableBytes = 0 then [.disableWriting] else []
  | .failed _ => []

def connectDestroyedCalls (c : TcpConnection) : List Call :=
  if c.state = .kConnected then [.disableAll, .remove] else [.remove]

def onChannel : Call → Channel → Channel
  | .enableReading => Channel.enableReading
  | .disableReading => Channel.disableReading
  | .enableWriting => Channel.enableWriting
  | .disableWriting => Channel.disableWriting
  | .disableAll => Channel.disableAll
  | .remove => id

theorem sendInLoopChannel {c d : TcpConnection} {data : Bytes} {outcome : WriteOutcome} {effects : List Effect}
    (ok : c.sendInLoop data outcome = some (d, effects)) :
    d.channel = (sendInLoopCalls c data outcome).foldl (fun ch call => onChannel call ch) c.channel := by
  unfold TcpConnection.sendInLoop at ok
  unfold sendInLoopCalls
  split at ok
  · rename_i gone
    cases Option.some.inj ok
    rw [if_pos gone, List.foldl_nil]
  · rename_i live
    obtain ⟨⟨nwrote, fault, first⟩, written, ok⟩ := Option.bind_eq_some_iff.mp ok
    rw [if_neg live, written]
    simp only at ok ⊢
    split at ok
    · rename_i keep
      obtain ⟨output, -, last⟩ := Option.bind_eq_some_iff.mp ok
      cases Option.some.inj last
      rw [keep, Bool.true_and]
      cases writing : c.channel.isWriting <;> rfl
    · rename_i done
      cases Option.some.inj ok
      rw [eq_false_of_ne_true done, Bool.false_and]
      rfl

theorem drainedChannel (c : TcpConnection) (n : Nat) :
    (c.drained n).1.channel =
      if (c.outputBuffer.retrieve n).readableBytes = 0 then c.channel.disableWriting else c.channel := by
  by_cases empty : (c.outputBuffer.retrieve n).readableBytes = 0
  · simp only [TcpConnection.drained, empty, if_true]
  · simp only [TcpConnection.drained, empty, if_false]

theorem handleWriteChannel {c d : TcpConnection} {outcome : WriteOutcome} {effects : List Effect}
    (ok : c.handleWrite outcome = some (d, effects)) :
    d.channel = (handleWriteCalls c outcome).foldl (fun ch call => onChannel call ch) c.channel := by
  unfold TcpConnection.handleWrite at ok
  cases writing : c.channel.isWriting with
  | false =>
    rw [writing] at ok
    rw [← (Prod.mk.inj (Option.some.inj ok)).1]
    cases outcome with
    | failed errno => rfl
    | wrote n => simp only [handleWriteCalls, writing, Bool.false_and, Bool.false_eq_true, if_false, List.foldl_nil]
  | true =>
    rw [writing] at ok
    cases outcome with
    | failed errno => rw [← (Prod.mk.inj (Option.some.inj ok)).1]; rfl
    | wrote n =>
      obtain ⟨-, last⟩ := Option.ite_none_right_eq_some.mp ok
      by_cases some_ : 0 < n
      · rw [if_pos some_] at last
        have same : (c.drained n).1 = d := (Prod.mk.inj (Option.some.inj last)).1
        rw [← same, drainedChannel]
        simp only [handleWriteCalls, writing, some_, decide_true, Bool.true_and, decide_eq_true_eq]
        split <;> rfl
      · rw [if_neg some_] at last
        rw [← (Prod.mk.inj (Option.some.inj last)).1]
        simp only [handleWriteCalls, some_, decide_false, Bool.and_false, Bool.false_and, Bool.false_eq_true,
          if_false, List.foldl_nil]

end Connection

/- `times` counts the calls of handleClose. -/
inductive Stage where
  | constructed
  | established
  | closed (times : Nat)
  | destroyed
  deriving DecidableEq, Repr

structure Life where
  conn : TcpConnection
  stage : Stage
  deriving DecidableEq, Repr

structure State where
  poller : EPollPoller
  lives : Nat → Option Life

inductive Turn where
  | connectEstablished
  | sendInLoop (data : Bytes) (outcome : WriteOutcome)
  | shutdown
  | handleWrite (outcome : WriteOutcome)
  | handleClose
  | connectDestroyed
  deriving DecidableEq, Repr

inductive Action where
  | construct (p fd : Nat) (writeComplete highWater : Bool) (mark : Nat)
  | turn (p : Nat) (turn : Turn)
  | destruct (p : Nat)
  deriving DecidableEq, Repr

def Life.turn (l : Life) : Turn → Option (Life × List Call)
  | .connectEstablished =>
      some (⟨{ l.conn with state := .kConnected, channel := l.conn.channel.enableReading }, .established⟩,
        [.enableReading])
  | .sendInLoop data outcome => do
      let (conn, _) ← l.conn.sendInLoop data outcome
      some ({ l with conn }, sendInLoopCalls l.conn data outcome)
  | .shutdown => some ({ l with conn := l.conn.shutdown.1 }, [])
  | .handleWrite outcome => do
      let (conn, _) ← l.conn.handleWrite outcome
      some ({ l with conn }, handleWriteCalls l.conn outcome)
  | .handleClose =>
      let times := match l.stage with
        | .closed times => times + 1
        | _ => 1
      some (⟨{ l.conn with state := .kDisconnected, channel := l.conn.channel.disableAll }, .closed times⟩,
        [.disableAll])
  | .connectDestroyed =>
      let conn := if l.conn.state = .kConnected then
          { l.conn with state := .kDisconnected, channel := l.conn.channel.disableAll }
        else l.conn
      some (⟨conn, .destroyed⟩, connectDestroyedCalls l.conn)

def step (s : State) : Action → Option State
  | .construct p fd writeComplete highWater mark =>
      some {
        poller := { s.poller with objects := Function.update s.poller.objects p (some (Channel.make fd)) }
        lives := Function.update s.lives p
          (some ⟨⟨.kConnecting, Channel.make fd, writeComplete, highWater, mark, Buffer.fresh⟩, .constructed⟩) }
  | .turn p turn => do
      let l ← s.lives p
      let (life, calls) ← l.turn turn
      let poller ← run PollerMirror.step s.poller (calls.map (PollerMirror.Action.mk p))
      some { poller, lives := Function.update s.lives p (some life) }
  | .destruct p =>
      some {
        poller := { s.poller with objects := Function.update s.poller.objects p none }
        lives := Function.update s.lives p none }

def start : State := ⟨⟨fun _ => none, fun _ => none, fun _ => none, []⟩, fun _ => none⟩

/- What the owners of a connection see to: it is established once and before all else,
its events come before its end, and whoever still sends finds it disconnected then. -/
def Orderly (l : Life) : Turn → Prop
  | .connectEstablished => l.stage = .constructed
  | .sendInLoop _ _ => l.stage ≠ .constructed ∧ (l.stage = .destroyed → l.conn.state = .kDisconnected)
  | .shutdown => True
  | .handleWrite _ | .handleClose => l.stage ≠ .constructed ∧ l.stage ≠ .destroyed
  | .connectDestroyed => l.stage ≠ .constructed

/- An object that is new, with a descriptor that no object has; an end that comes last. -/
def Proper (s : State) : Action → Prop
  | .construct p fd _ _ _ => s.lives p = none ∧ ∀ q l, s.lives q = some l → l.conn.channel.fd ≠ fd
  | .turn p turn => ∀ l, s.lives p = some l → Orderly l turn
  | .destruct p => ∀ l, s.lives p = some l → l.stage = .constructed ∨ l.stage = .destroyed

section Poller
variable {s t u : EPollPoller} {p : Nat} {c : Channel}

structure Local (p fd : Nat) (s t : EPollPoller) : Prop where
  objects : ∀ q ≠ p, t.objects q = s.objects q
  channels : ∀ other ≠ fd, t.channels other = s.channels other
  epoll : ∀ other ≠ fd, t.epoll other = s.epoll other

theorem localSelf (p fd : Nat) (s : EPollPoller) : Local p fd s s :=
  ⟨fun _ _ => rfl, fun _ _ => rfl, fun _ _ => rfl⟩

theorem localTrans {fd : Nat} (first : Local p fd s t) (second : Local p fd t u) : Local p fd s u where
  objects q other := (second.objects q other).trans (first.objects q other)
  channels fd' other := (second.channels fd' other).trans (first.channels fd' other)
  epoll fd' other := (second.epoll fd' other).trans (first.epoll fd' other)

theorem setIndexLocal {index : PollerIndex} (there : s.objects p = some c) (ok : s.setIndex p index = some t) :
    Local p c.fd s t ∧ t.objects p = some { c with index } := by
  simp only [EPollPoller.setIndex, there, bind, Option.bind_some, Option.some.injEq] at ok
  rw [← ok]
  exact ⟨⟨fun q other => Function.update_of_ne other _ _, fun _ _ => rfl, fun _ _ => rfl⟩, Function.update_self ..⟩

theorem updateLocal {operation : EpollCtl} (there : s.objects p = some c) (ok : s.update operation p = some t) :
    Local p c.fd s t ∧ t.objects p = some c := by
  simp only [EPollPoller.update, there, bind, Option.bind_some] at ok
  split at ok
  · rename_i epoll changed
    rw [← Option.some.inj ok]
    refine ⟨⟨fun _ _ => rfl, fun _ _ => rfl, fun other apart => ?_⟩, there⟩
    cases operation with
    | add =>
      obtain ⟨-, last⟩ := Option.ite_none_left_eq_some.mp changed
      rw [← Option.some.inj last]
      exact Function.update_of_ne apart _ _
    | mod | del =>
      obtain ⟨-, last⟩ := Option.ite_none_right_eq_some.mp changed
      rw [← Option.some.inj last]
      exact Function.update_of_ne apart _ _
  · obtain ⟨-, last⟩ := Option.ite_none_right_eq_some.mp ok
    rw [← Option.some.inj last]
    exact ⟨⟨fun _ _ => rfl, fun _ _ => rfl, fun _ _ => rfl⟩, there⟩

theorem updateChannelLocal (there : s.objects p = some c) (ok : s.updateChannel p = some t) :
    Local p c.fd s t := by
  simp only [EPollPoller.updateChannel, there, bind, Option.bind_some] at ok
  split at ok
  · let channels := if c.index = .kNew then Function.update s.channels c.fd (some p) else s.channels
    have mapped : Local p c.fd s { s with channels } := by
      refine ⟨fun _ _ => rfl, fun other apart => ?_, fun _ _ => rfl⟩
      simp only [channels]
      split
      · exact Function.update_of_ne apart _ _
      · rfl
    obtain ⟨u, indexed, last⟩ := Option.bind_eq_some_iff.mp ok
    obtain ⟨first, object⟩ := setIndexLocal (s := { s with channels }) there indexed
    exact localTrans mapped (localTrans first (updateLocal object last).1)
  · split at ok
    · obtain ⟨u, deleted, last⟩ := Option.bind_eq_some_iff.mp ok
      obtain ⟨first, object⟩ := updateLocal there deleted
      exact localTrans first (setIndexLocal object last).1
    · exact (updateLocal there ok).1

theorem changeLocal {f : Channel → Channel} (fd : (f c).fd = c.fd) (there : s.objects p = some c)
    (ok : s.change p f = some t) : Local p c.fd s t := by
  simp only [EPollPoller.change, there, bind, Option.bind_some] at ok
  let changed : EPollPoller := { s with objects := Function.update s.objects p (some (f c)) }
  have written : Local p c.fd s changed :=
    ⟨fun q other => Function.update_of_ne other _ _, fun _ _ => rfl, fun _ _ => rfl⟩
  have later : Local p (f c).fd changed t := updateChannelLocal (Function.update_self ..) ok
  exact localTrans written (fd ▸ later)

theorem removeLocal (there : s.objects p = some c) (ok : s.remove p = some t) :
    Local p c.fd s t ∧ t.objects p = some { c with index := .kNew } := by
  simp only [EPollPoller.remove, EPollPoller.removeChannel, there, bind, Option.bind_some] at ok
  let cleared : EPollPoller := { s with channels := Function.update s.channels c.fd none }
  have first : Local p c.fd s cleared :=
    ⟨fun _ _ => rfl, fun other apart => Function.update_of_ne apart _ _, fun _ _ => rfl⟩
  have object : cleared.objects p = some c := there
  split at ok
  · obtain ⟨u, deleted, last⟩ := Option.bind_eq_some_iff.mp ok
    obtain ⟨second, object'⟩ := updateLocal object deleted
    exact (setIndexLocal object' last).imp_left (localTrans (localTrans first second))
  · exact (setIndexLocal object ok).imp_left (localTrans first)

def after (call : Call) (c : Channel) : Channel :=
  { onChannel call c with
    index :=
      if call = .remove then .kNew
      else if c.index = .kAdded ∧ (onChannel call c).isNoneEvent = true then .kDeleted
      else .kAdded }

def fdsOf (s : EPollPoller) (p : Nat) : Option Nat := (s.objects p).map Channel.fd

def Apart (s : EPollPoller) : Prop := ∀ p q fd, fdsOf s p = some fd → fdsOf s q = some fd → p = q

theorem changeSpec (distinct : Apart s) (mirror : PollerMirror.Inv (fdsOf s) s) (there : s.objects p = some c)
    {f : Channel → Channel} (fd : (f c).fd = c.fd) (index : (f c).index = c.index) :
    ∃ t, s.change p f = some t ∧ PollerMirror.Inv (fdsOf s) t ∧ t.objects p = some { f c with
      index := if c.index = .kAdded ∧ (f c).isNoneEvent = true then .kDeleted else .kAdded } := by
  by_cases present : c.index = .kAdded
  · obtain ⟨t, ok, inv, object⟩ := PollerMirror.modifyInv distinct mirror there present fd index
    refine ⟨t, ok, inv, object.trans (congrArg some ?_)⟩
    by_cases nothing : (f c).isNoneEvent = true
    · rw [if_pos nothing, if_pos ⟨present, nothing⟩]
    · rw [if_neg nothing, if_neg fun both => nothing both.2, ← present, ← index]
  · obtain ⟨t, ok, inv, object⟩ := PollerMirror.addInv distinct mirror there present fd index
    refine ⟨t, ok, inv, object.trans ?_⟩
    rw [if_neg fun both => present both.1]

theorem callSpec (distinct : Apart s) (mirror : PollerMirror.Inv (fdsOf s) s) (there : s.objects p = some c)
    (call : Call) :
    ∃ t, PollerMirror.step s ⟨p, call⟩ = some t ∧ PollerMirror.Inv (fdsOf s) t ∧ Local p c.fd s t ∧
      t.objects p = some (after call c) := by
  cases call with
  | remove =>
    obtain ⟨t, ok, inv⟩ := PollerMirror.removeInv distinct mirror there
    obtain ⟨others, object⟩ := removeLocal there ok
    exact ⟨t, ok, inv, others, object⟩
  | enableReading =>
    obtain ⟨t, ok, inv, object⟩ := changeSpec (f := Channel.enableReading) distinct mirror there rfl rfl
    exact ⟨t, ok, inv, changeLocal rfl there ok, object⟩
  | disableReading =>
    obtain ⟨t, ok, inv, object⟩ := changeSpec (f := Channel.disableReading) distinct mirror there rfl rfl
    exact ⟨t, ok, inv, changeLocal rfl there ok, object⟩
  | enableWriting =>
    obtain ⟨t, ok, inv, object⟩ := changeSpec (f := Channel.enableWriting) distinct mirror there rfl rfl
    exact ⟨t, ok, inv, changeLocal rfl there ok, object⟩
  | disableWriting =>
    obtain ⟨t, ok, inv, object⟩ := changeSpec (f := Channel.disableWriting) distinct mirror there rfl rfl
    exact ⟨t, ok, inv, changeLocal rfl there ok, object⟩
  | disableAll =>
    obtain ⟨t, ok, inv, object⟩ := changeSpec (f := Channel.disableAll) distinct mirror there rfl rfl
    exact ⟨t, ok, inv, changeLocal rfl there ok, object⟩

def afterAll (calls : List Call) (c : Channel) : Channel := calls.foldl (fun c call => after call c) c

theorem afterFd (call : Call) (c : Channel) : (after call c).fd = c.fd := by
  cases call <;> rfl

theorem callsSpec (distinct : Apart s) (mirror : PollerMirror.Inv (fdsOf s) s) (there : s.objects p = some c)
    (calls : List Call) :
    ∃ t, run PollerMirror.step s (calls.map (PollerMirror.Action.mk p)) = some t ∧
      PollerMirror.Inv (fdsOf s) t ∧ Local p c.fd s t ∧ t.objects p = some (afterAll calls c) := by
  induction calls generalizing s c with
  | nil => exact ⟨s, rfl, mirror, localSelf p c.fd s, there⟩
  | cons call rest ih =>
    obtain ⟨t, first, inv, others, object⟩ := callSpec distinct mirror there call
    have same : fdsOf t = fdsOf s := funext inv.fds
    obtain ⟨u, later, inv', others', object'⟩ := ih (by rw [Apart, same]; exact distinct) (same ▸ inv) object
    rw [afterFd] at others'
    exact ⟨u, runCons.mpr ⟨t, first, later⟩, same ▸ inv', localTrans others others', object'⟩

theorem afterAllSame (calls : List Call) {d : Channel} (fd : c.fd = d.fd) (events : c.events = d.events) :
    (afterAll calls c).fd = (calls.foldl (fun ch call => onChannel call ch) d).fd ∧
      (afterAll calls c).events = (calls.foldl (fun ch call => onChannel call ch) d).events := by
  induction calls generalizing c d with
  | nil => exact ⟨fd, events⟩
  | cons call rest ih =>
    refine ih ?_ ?_
    · rw [afterFd, fd]
      cases call <;> rfl
    · cases call <;> simp only [after, onChannel, Channel.enableReading, Channel.disableReading,
        Channel.enableWriting, Channel.disableWriting, Channel.disableAll, id, events]

structure Reading (c : Channel) : Prop where
  index : c.index = .kAdded
  epollin : c.events.epollin = true
  epollpri : c.events.epollpri = true
  epollerr : c.events.epollerr = false
  epollhup : c.events.epollhup = false

theorem writingReading {call : Call} (writing : call = .enableWriting ∨ call = .disableWriting)
    (reading : Reading c) : Reading (after call c) := by
  obtain ⟨index, epollin, epollpri, epollerr, epollhup⟩ := reading
  have input : (onChannel call c).events.epollin = true := by
    rcases writing with rfl | rfl <;>
      simp [onChannel, Channel.enableWriting, Channel.disableWriting, EpollMask.or, EpollMask.and, EpollMask.not,
        Channel.kWriteEvent, epollin]
  have some_ : ¬(onChannel call c).isNoneEvent = true := by
    intro nothing
    rw [of_decide_eq_true nothing] at input
    contradiction
  refine ⟨?_, input, ?_, ?_, ?_⟩
  · simp only [after]
    rw [if_neg (by rcases writing with rfl | rfl <;> decide), if_neg fun both => some_ both.2]
  all_goals
    rcases writing with rfl | rfl <;>
      simp [after, onChannel, Channel.enableWriting, Channel.disableWriting, EpollMask.or, EpollMask.and,
        EpollMask.not, Channel.kWriteEvent, epollpri, epollerr, epollhup]

end Poller

def Staged (l : Life) (c : Channel) : Prop :=
  match l.stage with
  | .constructed => c.index = .kNew ∧ l.conn.state = .kConnecting ∧ l.conn.channel.events = Channel.kNoneEvent ∧
      l.conn.outputBuffer = Buffer.fresh
  | .established => Reading c ∧ Synced l.conn
  | .closed times => c.index = (if times % 2 = 0 then .kAdded else .kDeleted) ∧ l.conn.state = .kDisconnected ∧
      l.conn.channel.events = Channel.kNoneEvent
  | .destroyed => c.index = .kNew

structure Fits (l : Life) (c : Channel) : Prop where
  fd : c.fd = l.conn.channel.fd
  events : c.events = l.conn.channel.events
  staged : Staged l c

section Life
variable {l m : Life} {c : Channel} {calls : List Call}

theorem sendingCalls (c : TcpConnection) (data : Bytes) (outcome : WriteOutcome) :
    ∀ call ∈ sendInLoopCalls c data outcome, call = .enableWriting := by
  unfold sendInLoopCalls
  split
  · simp
  · split
    · simp
    · split <;> simp

theorem writingCalls (c : TcpConnection) (outcome : WriteOutcome) :
    ∀ call ∈ handleWriteCalls c outcome, call = .disableWriting := by
  cases outcome with
  | failed errno => simp [handleWriteCalls]
  | wrote n => simp only [handleWriteCalls]; split <;> simp

theorem readingKept (writing : ∀ call ∈ calls, call = .enableWriting ∨ call = .disableWriting)
    (reading : Reading c) : Reading (afterAll calls c) := by
  induction calls generalizing c with
  | nil => exact reading
  | cons call rest ih =>
    obtain ⟨first, later⟩ := List.forall_mem_cons.mp writing
    exact ih later (writingReading first reading)

theorem disabled (c : Channel) : c.disableAll.events = Channel.kNoneEvent := by
  simp [Channel.disableAll, EpollMask.and, Channel.kNoneEvent]

theorem quietWrite {conn d : TcpConnection} {outcome : WriteOutcome} {effects : List Effect}
    (quiet : conn.channel.isWriting = false) (ok : conn.handleWrite outcome = some (d, effects)) :
    d = conn ∧ handleWriteCalls conn outcome = [] := by
  constructor
  · unfold TcpConnection.handleWrite at ok
    rw [quiet] at ok
    exact (Prod.mk.inj (Option.some.inj ok)).1.symm
  · cases outcome with
    | failed errno => rfl
    | wrote n => simp only [handleWriteCalls, quiet, Bool.false_and, Bool.false_eq_true, if_false]

theorem establishedFits (staged : Staged l c) (first : l.stage = .constructed)
    (events : c.events = l.conn.channel.events) :
    Staged ⟨{ l.conn with state := .kConnected, channel := l.conn.channel.enableReading }, .established⟩
      (after .enableReading c) := by
  simp only [Staged, first] at staged
  obtain ⟨index, -, none_, fresh⟩ := staged
  refine ⟨?_, nofun, fresh ▸ freshValid, ?_⟩
  · rw [none_] at events
    refine ⟨?_, ?_, ?_, ?_, ?_⟩ <;>
      simp [after, onChannel, Channel.enableReading, EpollMask.or, Channel.kReadEvent, Channel.kNoneEvent, index,
        events]
  · simp [Channel.isWritingBit, Channel.enableReading, EpollMask.or, Channel.kReadEvent, Channel.kNoneEvent, none_,
      fresh]

theorem disconnectedSend {conn d : TcpConnection} {data : Bytes} {outcome : WriteOutcome} {effects : List Effect}
    (gone : conn.state = .kDisconnected) (ok : conn.sendInLoop data outcome = some (d, effects)) :
    d = conn ∧ sendInLoopCalls conn data outcome = [] := by
  rw [TcpConnection.sendInLoop, if_pos gone] at ok
  exact ⟨(Prod.mk.inj (Option.some.inj ok)).1.symm, by rw [sendInLoopCalls, if_pos gone]⟩

theorem shutdownFits (fits : Fits l c) : Fits { l with conn := l.conn.shutdown.1 } c := by
  unfold TcpConnection.shutdown
  split
  · rename_i connected
    refine ⟨fits.fd, fits.events, ?_⟩
    have staged := fits.staged
    cases stage : l.stage with
    | constructed | closed times =>
      simp only [Staged, stage, connected] at staged
      simp at staged
    | established =>
      simp only [Staged, stage] at staged ⊢
      exact ⟨staged.1, nofun, staged.2.valid, staged.2.flag⟩
    | destroyed => simpa only [Staged, stage] using staged
  · exact fits

theorem closedFits (times : Nat) (index : c.index = if times % 2 = 0 then .kAdded else .kDeleted) :
    (after .disableAll c).index = if (times + 1) % 2 = 0 then .kAdded else .kDeleted := by
  have nothing : (onChannel .disableAll c).isNoneEvent = true := decide_eq_true (disabled c)
  simp only [after, nothing, and_true]
  rw [if_neg nofun, index]
  rcases Nat.mod_two_eq_zero_or_one times with even | odd
  · rw [if_pos (by rw [if_pos even]), if_neg (by omega)]
  · rw [if_neg (by rw [if_neg (by omega)]; nofun), if_pos (by omega)]

theorem turnFits {turn : Turn} (orderly : Orderly l turn) (fits : Fits l c) (ok : l.turn turn = some (m, calls)) :
    Fits m (afterAll calls c) := by
  have ⟨fd, events, staged⟩ := fits
  cases turn with
  | connectEstablished =>
    cases Option.some.inj ok
    have both := afterAllSame [.enableReading] fd events
    exact ⟨both.1, both.2, establishedFits staged orderly events⟩
  | sendInLoop data outcome =>
    obtain ⟨⟨conn, effects⟩, sent, last⟩ := Option.bind_eq_some_iff.mp ok
    cases Option.some.inj last
    have both := afterAllSame (sendInLoopCalls l.conn data outcome) fd events
    rw [← sendInLoopChannel sent] at both
    refine ⟨both.1, both.2, ?_⟩
    cases stage : l.stage with
    | constructed => exact absurd stage orderly.1
    | established =>
      simp only [Staged, stage] at staged ⊢
      exact ⟨readingKept (fun call member => .inl (sendingCalls _ _ _ call member)) staged.1,
        (sendInLoopSound staged.2 sent).1⟩
    | closed times =>
      simp only [Staged, stage] at staged ⊢
      obtain ⟨same, none_⟩ := disconnectedSend staged.2.1 sent
      rw [same, none_]
      exact staged
    | destroyed =>
      simp only [Staged, stage] at staged ⊢
      rw [(disconnectedSend (orderly.2 stage) sent).2]
      exact staged
  | shutdown =>
    cases Option.some.inj ok
    exact shutdownFits fits
  | handleWrite outcome =>
    obtain ⟨⟨conn, effects⟩, wrote, last⟩ := Option.bind_eq_some_iff.mp ok
    cases Option.some.inj last
    have both := afterAllSame (handleWriteCalls l.conn outcome) fd events
    rw [← handleWriteChannel wrote] at both
    refine ⟨both.1, both.2, ?_⟩
    cases stage : l.stage with
    | constructed => exact absurd stage orderly.1
    | established =>
      simp only [Staged, stage] at staged ⊢
      exact ⟨readingKept (fun call member => .inr (writingCalls _ _ call member)) staged.1,
        (handleWriteSound staged.2 wrote).1⟩
    | closed times =>
      simp only [Staged, stage] at staged ⊢
      have quiet : l.conn.channel.isWriting = false := by rw [Channel.isWritingBit, staged.2.2]; rfl
      obtain ⟨same, none_⟩ := quietWrite quiet wrote
      rw [same, none_]
      exact staged
    | destroyed => exact absurd stage orderly.2
  | handleClose =>
    cases Option.some.inj ok
    have both := afterAllSame [.disableAll] fd events
    refine ⟨both.1, both.2, ?_⟩
    cases stage : l.stage with
    | constructed => exact absurd stage orderly.1
    | established =>
      simp only [Staged, stage] at staged
      exact ⟨closedFits 0 staged.1.index, rfl, disabled _⟩
    | closed times =>
      simp only [Staged, stage] at staged
      exact ⟨closedFits times staged.1, rfl, disabled _⟩
    | destroyed => exact absurd stage orderly.2
  | connectDestroyed =>
    cases Option.some.inj ok
    have both := afterAllSame (connectDestroyedCalls l.conn) fd events
    unfold connectDestroyedCalls at both ⊢
    split
    · rename_i connected
      rw [if_pos connected] at both
      exact ⟨both.1, both.2, rfl⟩
    · rename_i other
      rw [if_neg other] at both
      exact ⟨both.1, both.2, rfl⟩

end Life

structure Inv (s : State) : Prop where
  mirror : PollerMirror.Inv (fdsOf s.poller) s.poller
  distinct : Apart s.poller
  absent : ∀ p, s.lives p = none → s.poller.objects p = none
  present : ∀ p l, s.lives p = some l → ∃ c, s.poller.objects p = some c ∧ Fits l c
  nobody : ∀ fd, (∀ p, fdsOf s.poller p ≠ some fd) → s.poller.channels fd = none ∧ s.poller.epoll fd = none

theorem startInv : Inv start where
  mirror := ⟨fun _ => rfl, rfl, fun p c found => by cases found⟩
  distinct p q fd found := by cases found
  absent _ _ := rfl
  present p l found := by cases found
  nobody _ _ := ⟨rfl, rfl⟩

section Steps
variable {s t : State} {p fd : Nat} {l : Life} {turn : Turn}

theorem writeInv (inv : Inv s) {poller : EPollPoller} {life : Option Life}
    (others : ∀ q ≠ p, poller.objects q = s.poller.objects q) (mirror : PollerMirror.Inv (fdsOf poller) poller)
    (distinct : Apart poller) (gone : life = none → poller.objects p = none)
    (here : ∀ l, life = some l → ∃ c, poller.objects p = some c ∧ Fits l c)
    (nobody : ∀ fd, (∀ p, fdsOf poller p ≠ some fd) → poller.channels fd = none ∧ poller.epoll fd = none) :
    Inv ⟨poller, Function.update s.lives p life⟩ := by
  refine ⟨mirror, distinct, fun q none_ => ?_, fun q k found => ?_, nobody⟩
  · by_cases same : q = p
    · subst same
      exact gone (by simpa using none_)
    · rw [others q same]
      exact inv.absent q (by simpa [Function.update_of_ne same] using none_)
  · by_cases same : q = p
    · subst same
      exact here k (by simpa using found)
    · rw [others q same]
      exact inv.present q k (by simpa [Function.update_of_ne same] using found)

theorem turnGoes (inv : Inv s) (there : s.lives p = some l) (turn : Turn) (orderly : Orderly l turn)
    {m : Life} {calls : List Call} (ok : l.turn turn = some (m, calls)) :
    ∃ t, step s (.turn p turn) = some t ∧ Inv t ∧ t.lives = Function.update s.lives p (some m) := by
  obtain ⟨c, object, fits⟩ := inv.present p l there
  obtain ⟨poller, went, mirror, others, object'⟩ := callsSpec inv.distinct inv.mirror object calls
  have same : fdsOf poller = fdsOf s.poller := funext mirror.fds
  refine ⟨⟨poller, Function.update s.lives p (some m)⟩, ?_, writeInv inv others.objects (same ▸ mirror) ?_ nofun
    (fun k found => ?_) fun fd free => ?_, rfl⟩
  · simp only [step, there, ok, went, bind, Option.bind_some]
  · rw [Apart, same]
    exact inv.distinct
  · exact Option.some.inj found ▸ ⟨_, object', turnFits orderly fits ok⟩
  · have free' : ∀ p, fdsOf s.poller p ≠ some fd := same ▸ free
    have other : fd ≠ c.fd := by
      rintro rfl
      exact free' p (by rw [fdsOf, object]; rfl)
    obtain ⟨channels, epoll⟩ := inv.nobody fd free'
    exact ⟨(others.channels fd other).trans channels, (others.epoll fd other).trans epoll⟩

theorem fdsUpdate (s : EPollPoller) (p : Nat) (object : Option Channel) :
    fdsOf { s with objects := Function.update s.objects p object } =
      Function.update (fdsOf s) p (object.map Channel.fd) := by
  funext q
  by_cases here : q = p
  · subst here
    simp [fdsOf]
  · simp only [fdsOf, Function.update_of_ne here]

theorem constructGoes (inv : Inv s) (new : s.lives p = none)
    (unused : ∀ q l, s.lives q = some l → l.conn.channel.fd ≠ fd) (writeComplete highWater : Bool) (mark : Nat) :
    ∃ t, step s (.construct p fd writeComplete highWater mark) = some t ∧ Inv t := by
  have free : ∀ q, fdsOf s.poller q ≠ some fd := by
    intro q same
    cases life : s.lives q with
    | none =>
      rw [fdsOf, inv.absent q life] at same
      contradiction
    | some l =>
      obtain ⟨c, object, fits⟩ := inv.present q l life
      rw [fdsOf, object] at same
      exact unused q l life (fits.fd.symm.trans (Option.some.inj same))
  have fds := fdsUpdate s.poller p (some (Channel.make fd))
  refine ⟨_, rfl, writeInv inv (fun q other => Function.update_of_ne other _ _) ?_ ?_ nofun (fun k found => ?_) ?_⟩
  · refine ⟨fun _ => rfl, inv.mirror.clean, fun q c found => ?_⟩
    by_cases here : q = p
    · subst here
      have made : Channel.make fd = c := by simpa using found
      rw [← made]
      exact inv.nobody fd free
    · exact inv.mirror.each q c (by simpa [Function.update_of_ne here] using found)
  · intro q r other first second
    rw [fds] at first second
    by_cases atQ : q = p <;> by_cases atR : r = p
    · exact atQ.trans atR.symm
    · rw [atQ, Function.update_self] at first
      rw [Function.update_of_ne atR, ← first] at second
      exact absurd second (free r)
    · rw [Function.update_of_ne atQ] at first
      rw [atR, Function.update_self, ← first] at second
      exact absurd second.symm (free q)
    · rw [Function.update_of_ne atQ] at first
      rw [Function.update_of_ne atR] at second
      exact inv.distinct q r other first second
  · refine ⟨_, Function.update_self .., ?_⟩
    exact Option.some.inj found ▸ ⟨rfl, rfl, rfl, rfl, rfl, rfl⟩
  · intro other nobody
    rw [fds] at nobody
    refine inv.nobody other fun q same => ?_
    by_cases here : q = p
    · subst here
      rw [fdsOf, inv.absent q new] at same
      contradiction
    · exact nobody q (by rw [Function.update_of_ne here, same])

theorem destructGoes (inv : Inv s)
    (ended : ∀ l, s.lives p = some l → l.stage = .constructed ∨ l.stage = .destroyed) :
    ∃ t, step s (.destruct p) = some t ∧ Inv t := by
  have fds := fdsUpdate s.poller p none
  refine ⟨_, rfl, writeInv inv (fun q other => Function.update_of_ne other _ _) ?_ ?_
    (fun _ => Function.update_self ..) (fun _ found => by cases found) ?_⟩
  · refine ⟨fun _ => rfl, inv.mirror.clean, fun q c found => ?_⟩
    by_cases here : q = p
    · subst here
      simp at found
    · exact inv.mirror.each q c (by simpa [Function.update_of_ne here] using found)
  · intro q r other first second
    rw [fds] at first second
    have notQ : q ≠ p := by rintro rfl; simp at first
    have notR : r ≠ p := by rintro rfl; simp at second
    rw [Function.update_of_ne notQ] at first
    rw [Function.update_of_ne notR] at second
    exact inv.distinct q r other first second
  · intro fd nobody
    rw [fds] at nobody
    by_cases own : fdsOf s.poller p = some fd
    · -- the poller forgot the descriptor when the connection ended
      cases life : s.lives p with
      | none =>
        rw [fdsOf, inv.absent p life] at own
        contradiction
      | some l =>
        obtain ⟨c, object, fits⟩ := inv.present p l life
        rw [fdsOf, object] at own
        have new : c.index = .kNew := by
          have staged := fits.staged
          rcases ended l life with stage | stage <;> simp only [Staged, stage] at staged
          · exact staged.1
          · exact staged
        have registered := inv.mirror.each p c object
        rw [new, show c.fd = fd from Option.some.inj own] at registered
        exact registered
    · refine inv.nobody fd fun q same => ?_
      by_cases here : q = p
      · exact own (here ▸ same)
      · exact nobody q (by rw [Function.update_of_ne here, same])

theorem stepGoes {a : Action} (inv : Inv s) (proper : Proper s a) :
    (∃ p turn, a = .turn p turn ∧ ((s.lives p).bind (Life.turn · turn)) = none) ∨
      ∃ t, step s a = some t ∧ Inv t := by
  cases a with
  | construct p fd writeComplete highWater mark => exact .inr (constructGoes inv proper.1 proper.2 _ _ _)
  | destruct p => exact .inr (destructGoes inv proper)
  | turn p turn =>
    cases there : s.lives p with
    | none => exact .inl ⟨p, turn, rfl, by rw [there]; rfl⟩
    | some l =>
      cases ok : l.turn turn with
      | none => exact .inl ⟨p, turn, rfl, by rw [there]; exact ok⟩
      | some last =>
        obtain ⟨t, went, inv', -⟩ := turnGoes inv there turn (proper l there) ok
        exact .inr ⟨t, went, inv'⟩

theorem stepInv {a : Action} (inv : Inv s) (proper : Proper s a) (ok : step s a = some t) : Inv t := by
  rcases stepGoes inv proper with ⟨p, turn, rfl, stuck⟩ | ⟨u, ok', inv'⟩
  · cases there : s.lives p with
    | none => simp [step, there] at ok
    | some l =>
      rw [there, Option.bind_some] at stuck
      simp [step, there, stuck] at ok
  · exact Option.some.inj (ok'.symm.trans ok) ▸ inv'

end Steps

def Interest (s : EPollPoller) (p : Nat) (l : Life) : Prop :=
  match l.stage with
  | .constructed | .destroyed => s.epoll l.conn.channel.fd = none ∧ s.channels l.conn.channel.fd = none
  | .established => s.epoll l.conn.channel.fd =
      some (⟨true, true, decide (l.conn.outputBuffer.readable ≠ []), false, false⟩, p)
  | .closed times => s.epoll l.conn.channel.fd = if times % 2 = 0 then some (Channel.kNoneEvent, p) else none

structure Watching (s : State) : Prop where
  interest : ∀ p l, s.lives p = some l → Interest s.poller p l
  nothingElse : ∀ fd mask p, s.poller.epoll fd = some (mask, p) →
    ∃ l, s.lives p = some l ∧ l.conn.channel.fd = fd
  goesOn : ∀ p l turn, s.lives p = some l → Orderly l turn → (l.turn turn).isSome →
    (step s (.turn p turn)).isSome
  failures : s.poller.failures = []

theorem interestOf {s : State} {p : Nat} {l : Life} (inv : Inv s) (there : s.lives p = some l) :
    Interest s.poller p l := by
  obtain ⟨c, object, fits⟩ := inv.present p l there
  have registered := inv.mirror.each p c object
  have staged := fits.staged
  rw [fits.fd] at registered
  cases stage : l.stage with
  | constructed =>
    simp only [Staged, Interest, stage] at staged ⊢
    rw [staged.1] at registered
    exact registered.symm
  | destroyed =>
    simp only [Staged, Interest, stage] at staged ⊢
    rw [staged] at registered
    exact registered.symm
  | established =>
    simp only [Staged, Interest, stage] at staged ⊢
    obtain ⟨⟨index, epollin, epollpri, epollerr, epollhup⟩, synced⟩ := staged
    have epollout : c.events.epollout = decide (l.conn.outputBuffer.readable ≠ []) := by
      rw [fits.events, ← Channel.isWritingBit, Bool.eq_iff_iff, synced.flag, decide_eq_true_iff]
    have mask : c.events = ⟨c.events.epollin, c.events.epollpri, c.events.epollout, c.events.epollerr,
      c.events.epollhup⟩ := rfl
    rw [epollin, epollpri, epollout, epollerr, epollhup] at mask
    rw [index] at registered
    rw [← mask]
    exact registered.2
  | closed times =>
    simp only [Staged, Interest, stage] at staged ⊢
    obtain ⟨index, -, none_⟩ := staged
    rw [fits.events, none_, index] at registered
    split
    · rename_i even
      rw [if_pos even] at registered
      exact registered.2
    · rename_i odd
      rw [if_neg odd] at registered
      exact registered.2

theorem interestExact {actions : List Action} {s : State} (ok : run step start actions = some s)
    (proper : Along step Proper start actions) : Watching s := by
  have inv := runInvariantAlong stepInv startInv proper ok
  refine ⟨fun p l there => interestOf inv there, fun fd mask p watched => ?_, fun p l turn there orderly goes => ?_,
    inv.mirror.clean⟩
  · by_cases free : ∀ q, fdsOf s.poller q ≠ some fd
    · rw [(inv.nobody fd free).2] at watched
      contradiction
    · obtain ⟨q, own⟩ := not_forall_not.mp free
      obtain ⟨c, object, same⟩ := Option.map_eq_some_iff.mp own
      have event := (PollerMirror.mirrorsOf inv.mirror object).registration (mask, p) (same ▸ watched)
      rw [(Prod.mk.inj event).2]
      cases life : s.lives q with
      | none =>
        rw [inv.absent q life] at object
        contradiction
      | some l =>
        obtain ⟨d, object', fits⟩ := inv.present q l life
        cases Option.some.inj (object.symm.trans object')
        exact ⟨l, rfl, fits.fd.symm.trans same⟩
  · obtain ⟨⟨m, calls⟩, goes⟩ := Option.isSome_iff_exists.mp goes
    obtain ⟨t, went, -⟩ := turnGoes inv there turn orderly goes
    rw [went]
    rfl


def hangUpRun : List Action :=
  [.construct 0 5 false false 0, .turn 0 .connectEstablished, .turn 0 .handleClose, .turn 0 .connectDestroyed,
    .destruct 0, .construct 1 5 false false 0, .turn 1 .connectEstablished, .turn 1 (.sendInLoop [1, 2, 3] (.wrote 1))]

def connecting : Life := ⟨⟨.kConnecting, Channel.make 5, false, false, 0, Buffer.fresh⟩, .constructed⟩

def connected : Life :=
  ⟨⟨.kConnected, (Channel.make 5).enableReading, false, false, 0, Buffer.fresh⟩, .established⟩

theorem interestExactSample :
    ∃ s, run step start hangUpRun = some s ∧ s.poller.epoll 5 = some (⟨true, true, true, false, false⟩, 1) ∧
      Watching s := by
  have properA : Proper start (.construct 0 5 false false 0) := ⟨rfl, fun q l found => by cases found⟩
  obtain ⟨a, first, livesA⟩ : ∃ t, step start (.construct 0 5 false false 0) = some t ∧
    t.lives = Function.update start.lives 0 (some connecting) := ⟨_, rfl, rfl⟩
  have thereA := (congrFun livesA 0).trans (Function.update_self ..)
  obtain ⟨b, second, invB, livesB⟩ := turnGoes (stepInv startInv properA first) thereA .connectEstablished rfl rfl
  have thereB := (congrFun livesB 0).trans (Function.update_self ..)
  obtain ⟨c, third, invC, livesC⟩ := turnGoes invB thereB .handleClose ⟨nofun, nofun⟩ rfl
  have thereC := (congrFun livesC 0).trans (Function.update_self ..)
  obtain ⟨d, fourth, invD, livesD⟩ := turnGoes invC thereC .connectDestroyed nofun rfl
  have thereD := (congrFun livesD 0).trans (Function.update_self ..)
  have properD : Proper d (.destruct 0) := by
    intro l found
    rw [thereD] at found
    exact Option.some.inj found ▸ .inr rfl
  obtain ⟨e, fifth, livesE⟩ : ∃ t, step d (.destruct 0) = some t ∧ t.lives = Function.update d.lives 0 none :=
    ⟨_, rfl, rfl⟩
  have nobodyE : e.lives = start.lives := by
    rw [livesE, livesD, livesC, livesB, livesA]
    simp only [Function.update_idem]
    exact Function.update_eq_self_iff.mpr rfl
  have properE : Proper e (.construct 1 5 false false 0) := by
    refine ⟨by rw [nobodyE]; rfl, fun q l found => ?_⟩
    rw [nobodyE] at found
    cases found
  obtain ⟨f, sixth, livesF⟩ : ∃ t, step e (.construct 1 5 false false 0) = some t ∧
    t.lives = Function.update e.lives 1 (some connecting) := ⟨_, rfl, rfl⟩
  have thereF := (congrFun livesF 1).trans (Function.update_self ..)
  have invF := stepInv (stepInv invD properD fifth) properE sixth
  obtain ⟨g, seventh, invG, livesG⟩ := turnGoes invF thereF .connectEstablished rfl rfl
  have thereG : g.lives 1 = some connected := (congrFun livesG 1).trans (Function.update_self ..)
  have sends : (connected.turn (.sendInLoop [1, 2, 3] (.wrote 1))).map (fun turned =>
      (turned.1.stage, turned.1.conn.channel.fd, turned.1.conn.outputBuffer.readable)) =
      some (.established, 5, [2, 3]) := by decide +kernel
  obtain ⟨⟨life, calls⟩, sent, facts⟩ := Option.map_eq_some_iff.mp sends
  obtain ⟨stage, fd, rest⟩ : life.stage = .established ∧ life.conn.channel.fd = 5 ∧
    life.conn.outputBuffer.readable = [2, 3] := by simpa using facts
  obtain ⟨h, last, -, livesH⟩ := turnGoes invG thereG (.sendInLoop [1, 2, 3] (.wrote 1)) ⟨nofun, nofun⟩ sent
  have thereH := (congrFun livesH 1).trans (Function.update_self ..)
  have ok : run step start hangUpRun = some h := by
    simp only [hangUpRun, run, first, second, third, fourth, fifth, sixth, seventh, last, bind, Option.bind_some]
  have orderly {s : State} {p : Nat} {l : Life} {turn : Turn} (there : s.lives p = some l) (fine : Orderly l turn) :
      Proper s (.turn p turn) := fun k found => Option.some.inj (there.symm.trans found) ▸ fine
  have watching := interestExact ok (alongCons first properA (alongCons second (orderly thereA rfl)
    (alongCons third (orderly thereB ⟨nofun, nofun⟩) (alongCons fourth (orderly thereC nofun)
      (alongCons fifth properD (alongCons sixth properE (alongCons seventh (orderly thereF rfl)
        (alongCons last (orderly thereG ⟨nofun, nofun⟩) trivial))))))))
  have interest := watching.interest 1 life thereH
  simp only [Interest, stage, fd, rest] at interest
  exact ⟨h, ok, interest, watching⟩

end TinyNetwork.LoopInterest
