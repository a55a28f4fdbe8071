import TinyNetwork.PeerLink

/-! The echo server on one of its connections. The input buffer is emptied by every
message, the output buffer fills when the peer reads too slowly; between them and the
kernel nothing may be lost, reordered or sent twice, and the input side may not grow. -/
namespace TinyNetwork.Relay

variable {α : Type}

/- Items on their way through a chain of queues. The last queue is where they come in,
every queue gives away from its front and takes in at its back, and what has left the
first one is delivered. Whichever queue moves when, the chain is one queue. -/
def Relayed (delivered : List α) (queues : List (List α)) (sent : List α) : Prop :=
  delivered ++ queues.flatten = sent

variable {delivered sent : List α} {queue next : List α} {queues : List (List α)}

theorem flowEnters (flow : Relayed delivered (queues ++ [queue]) sent) (items : List α) :
    Relayed delivered (queues ++ [queue ++ items]) (sent ++ items) := by
  unfold Relayed at flow ⊢
  rw [← flow]
  simp

theorem flowPasses {after left entered : List α} (kept : left ++ after = queue ++ entered)
    (flow : Relayed delivered (queue :: (entered ++ next) :: queues) sent) :
    Relayed (delivered ++ left) (after :: next :: queues) sent := by
  unfold Relayed at flow ⊢
  calc delivered ++ left ++ (after :: next :: queues).flatten
      = delivered ++ ((left ++ after) ++ (next ++ queues.flatten)) := by simp
    _ = delivered ++ (queue :: (entered ++ next) :: queues).flatten := by rw [kept]; simp
    _ = sent := flow

theorem flowLeaves {after left : List α} (kept : left ++ after = queue)
    (flow : Relayed delivered (queue :: queues) sent) : Relayed (delivered ++ left) (after :: queues) sent := by
  unfold Relayed at flow ⊢
  rw [← flow, ← kept]
  simp

theorem flowPrefix (flow : Relayed delivered queues sent) : delivered <+: sent := ⟨_, flow⟩

theorem flowDone (flow : Relayed delivered queues sent) (empty : ∀ queue ∈ queues, queue = []) :
    delivered = sent := by
  rw [← flow, List.flatten_eq_nil_iff.mpr empty, List.append_nil]

end TinyNetwork.Relay

namespace TinyNetwork.EchoServer
open Runs Words Buffer PeerLink LiveConnection Relay
open OutgoingStream hiding step Action

/- EchoServer::onMessage; the log line has no effect on the connection. -/
def onMessage (outcome : WriteOutcome) (l : LiveConnection) : Option LiveConnection := do
  let (msg, inputBuffer) ← l.inputBuffer.retrieveAllAsString
  { l with inputBuffer }.send msg outcome

def inputLimit : Nat := kCheapPrepend + 2 * extrabufSize

structure Drained (b : Buffer) : Prop where
  reader : b.readerIndex = kCheapPrepend
  writer : b.writerIndex = kCheapPrepend
  room : kCheapPrepend + kInitialSize ≤ b.buffer.size
  small : b.buffer.size ≤ inputLimit

theorem drainedValid {b : Buffer} (drained : Drained b) : Valid b :=
  ⟨Nat.le_of_eq drained.reader.symm, Nat.le_of_eq (drained.reader.trans drained.writer.symm),
    by have := drained.room; rw [drained.writer]; omega⟩

theorem drainedReadable {b : Buffer} (drained : Drained b) : b.readable = [] := by
  have count := readableLength (drainedValid drained)
  rw [drained.reader, drained.writer, Nat.sub_self] at count
  exact List.eq_nil_of_length_eq_zero count

theorem drainedWritable {b : Buffer} (drained : Drained b) : b.writableBytes = b.buffer.size - kCheapPrepend := by
  rw [writableBytesEq (drainedValid drained), drained.writer]

theorem freshDrained : Drained fresh := by
  refine ⟨freshFront.1, freshFront.2, Nat.le_of_eq freshSize.symm, ?_⟩
  rw [freshSize]
  decide

structure Filled (b : Buffer) (data : Bytes) : Prop where
  valid : Valid b
  content : b.readable = data
  room : kCheapPrepend + kInitialSize ≤ b.buffer.size
  small : b.buffer.size ≤ inputLimit

theorem readFilled {b c : Buffer} {data : Bytes} {n : Int} (drained : Drained b)
    (ok : b.readFd (.got data) = some (c, n)) : n = data.length ∧ Filled c data := by
  have valid := drainedValid drained
  obtain ⟨count, added⟩ := readFdExtends valid ok
  have growth := readFdGrowth valid ok
  have room := drained.room
  have small := drained.small
  rw [drainedWritable drained] at growth
  refine ⟨count, added.valid, ?_, Nat.le_trans room added.size, ?_⟩
  · rw [added.content, drainedReadable drained, List.nil_append]
  · unfold inputLimit at small ⊢
    omega

theorem filledDrained {b : Buffer} {data : Bytes} (filled : Filled b data) : Drained b.retrieveAll :=
  ⟨rfl, rfl, filled.room, filled.small⟩

theorem filledEmpty {b c : Buffer} {n : Int} (drained : Drained b) (ok : b.readFd (.got []) = some (c, n)) :
    Drained c := by
  have filled := (readFilled drained ok).2
  have valid := drainedValid drained
  simp only [Buffer.readFd, bind, List.length_nil, Nat.zero_le, if_true, Option.bind_eq_some_iff] at ok
  obtain ⟨v, _, last⟩ := ok
  obtain ⟨rfl, _⟩ := Prod.mk.inj (Option.some.inj last)
  refine ⟨drained.reader, ?_, filled.room, filled.small⟩
  simp only [drained.writer]
  decide

/- While the connection is up: what the kernel took, the output buffer and what nobody
has read yet are together what the peer sent. -/
structure Open (w : Link) : Prop where
  connected : w.life.conn.state = .kConnected
  synced : Synced w.life.conn
  flow : Intact w.life → Relayed (taken w.life) [w.life.conn.outputBuffer.readable, w.unread] w.sent

structure Shut (w : Link) : Prop where
  state : w.life.conn.state = .kDisconnected
  quiet : w.life.conn.channel.isWriting = false
  front : Intact w.life → taken w.life <+: w.sent

structure Inv (w : Link) : Prop where
  input : Drained w.life.inputBuffer
  standing : Open w ∨ Shut w

theorem invPrefix {w : Link} (inv : Inv w) (intact : Intact w.life) : taken w.life <+: w.sent := by
  rcases inv.standing with up | down
  · exact flowPrefix (up.flow intact)
  · exact down.front intact

theorem startInv (fd : Nat) (writeComplete highWater : Bool) (mark : Nat) :
    Inv (start fd writeComplete highWater mark) := by
  refine ⟨freshDrained, .inl ⟨rfl, ⟨by simp [start, setChannel, setState, LiveConnection.note], freshValid, ?_⟩,
    fun _ => ?_⟩⟩
  · simp [start, LiveConnection.make, setChannel, setState, LiveConnection.note]
  · simp [start, Relayed, taken, effectsOf, LiveConnection.make, setChannel, setState, LiveConnection.note]

theorem arrivesInv {w : Link} (inv : Inv w) (data : Bytes) :
    Inv { w with sent := w.sent ++ data, unread := w.unread ++ data } := by
  refine ⟨inv.input, ?_⟩
  rcases inv.standing with up | down
  · exact .inl ⟨up.connected, up.synced, fun intact => @flowEnters _ _ _ _ [_] (up.flow intact) data⟩
  · exact .inr ⟨down.state, down.quiet, fun intact => (down.front intact).trans (List.prefix_append _ _)⟩

theorem quietInv {w : Link} {life : LiveConnection} (inv : Inv w) (conn : life.conn = w.life.conn)
    (input : Drained life.inputBuffer) (wire : taken life = taken w.life) (safe : Intact life → Intact w.life) :
    Inv { w with life } := by
  refine ⟨input, ?_⟩
  rcases inv.standing with up | down
  · refine .inl ⟨by rw [conn]; exact up.connected, by rw [conn]; exact up.synced, fun intact => ?_⟩
    simp only [wire, conn]
    exact up.flow (safe intact)
  · refine .inr ⟨by rw [conn]; exact down.state, by rw [conn]; exact down.quiet, fun intact => ?_⟩
    simp only [wire]
    exact down.front (safe intact)

theorem errorInv {w : Link} (inv : Inv w) (text : String) :
    Inv { w with life := (w.life.note (.effect (.logError text))).handleError } := by
  have first := noteQuiet w.life (n := .effect (.logError text)) (by rfl) (by simp [effectsOf, Broken])
  have second := noteQuiet (w.life.note (.effect (.logError text))) (n := .handleError) (by rfl)
    (by simp [effectsOf, Broken])
  exact quietInv inv rfl inv.input (second.1.trans first.1) fun intact => first.2.mp (second.2.mp intact)

theorem closeInv {w : Link} {m : LiveConnection} (inv : Inv w) (ok : w.life.handleClose [] = some m) :
    Inv { w with life := m } := by
  obtain ⟨m', done, state, quiet, _, input, wire⟩ := closedQuietly w.life
  cases Option.some.inj (done.symm.trans ok)
  refine ⟨by simp only [input]; exact inv.input, .inr ⟨state, quiet, fun intact => ?_⟩⟩
  simp only [taken, Intact, wire] at intact ⊢
  exact invPrefix inv intact

theorem writeInv {w : Link} {m : LiveConnection} {outcome : WriteOutcome} (inv : Inv w)
    (ok : w.life.handleWrite outcome = some m) : Inv { w with life := m } := by
  obtain ⟨⟨conn, effects⟩, wrote, last⟩ := Option.bind_eq_some_iff.mp ok
  cases Option.some.inj last
  have wire := effectsOfDone w.life conn effects
  refine ⟨inv.input, ?_⟩
  rcases inv.standing with up | down
  · obtain ⟨synced, content⟩ := handleWriteSound up.synced wrote
    have state := (ConnectionLifecycle.handleWriteState wrote).trans up.connected
    refine .inl ⟨state, synced, fun intact => ?_⟩
    rw [Intact, wire, brokenAppend, not_or] at intact
    have flow := flowLeaves content (up.flow intact.1)
    rwa [taken, ← acceptedAppend, ← wire] at flow
  · have state := (ConnectionLifecycle.handleWriteState wrote).trans down.state
    simp only [TcpConnection.handleWrite, down.quiet] at wrote
    cases Option.some.inj wrote
    refine .inr ⟨state, down.quiet, fun intact => ?_⟩
    simp only [Intact, taken, wire, brokenAppend, not_or, acceptedAppend] at intact ⊢
    simpa [Effect.bytes, taken] using down.front intact.1

theorem messageInv {w : Link} {b : Buffer} {outcome : WriteOutcome} {data left : Bytes} {m : LiveConnection}
    (inv : Inv w) (filled : Filled b data) (waiting : w.unread = data ++ left)
    (ok : onMessage outcome ({ w.life with inputBuffer := b }.note .messageCallback) = some m) :
    Inv { w with life := m, unread := left } := by
  obtain ⟨⟨msg, emptied⟩, taken_, ok⟩ := Option.bind_eq_some_iff.mp ok
  obtain ⟨rfl, rfl⟩ := Prod.mk.inj (Option.some.inj ((retrieveAllContent filled.valid).symm.trans taken_))
  rw [filled.content] at ok
  rcases sendCases ok with ⟨connected, conn, effects, sent, rfl⟩ | ⟨gone, rfl⟩
  · refine ⟨filledDrained filled, .inl ?_⟩
    rcases inv.standing with up | down
    · obtain ⟨synced, content⟩ := sendInLoopSound up.synced sent
      refine ⟨(ConnectionLifecycle.sendInLoopState sent).trans connected, synced, fun intact => ?_⟩
      simp only [Intact, taken, effectsOfDone, brokenAppend, not_or, acceptedAppend] at intact ⊢
      have before := up.flow (by simpa [Intact, LiveConnection.note, effectsOf] using intact.1)
      rw [waiting] at before
      simpa [taken, LiveConnection.note, LiveConnection.effects, effectsOf] using flowPasses (content intact.2) before
    · exact absurd (connected.symm.trans down.state) (by simp)
  · rcases inv.standing with up | down
    · exact absurd up.connected gone
    · refine ⟨filledDrained filled, .inr ⟨down.state, down.quiet, fun intact => ?_⟩⟩
      have note := noteQuiet { w.life with inputBuffer := b } (n := .messageCallback) rfl (by simp [effectsOf, Broken])
      have front := down.front (note.2.mp intact)
      exact note.1 ▸ front

theorem readInv {w : Link} {r : Receipt} {outcome : WriteOutcome} {m : LiveConnection} (inv : Inv w)
    (ok : w.life.handleReadWith (onMessage outcome) (r.readv w.unread) [] = some m) :
    Inv { w with life := m, unread := r.left w.unread } := by
  obtain ⟨⟨b, n⟩, got, ok⟩ := Option.bind_eq_some_iff.mp ok
  simp only at ok
  cases r with
  | failed errno =>
    cases Option.some.inj got
    simp only [Int.reduceLT, if_false, Int.reduceEq] at ok
    cases Option.some.inj ok
    exact errorInv inv _
  | got count =>
    obtain ⟨rfl, filled⟩ := readFilled inv.input got
    have waiting : w.unread = w.unread.take count ++ w.unread.drop count := (List.take_append_drop ..).symm
    split at ok
    · exact messageInv inv filled waiting ok
    · rename_i none_
      have nothing : w.unread.take count = [] := List.eq_nil_of_length_eq_zero (by omega)
      rw [Receipt.readv, nothing] at got
      rw [nothing, List.nil_append] at waiting
      simp only [nothing, List.length_nil, Int.ofNat_zero, if_true] at ok
      have read : Inv { w with life := { w.life with inputBuffer := b } } :=
        quietInv inv rfl (filledEmpty inv.input got) rfl id
      have closed := closeInv read ok
      simp only [Receipt.left, ← waiting]
      exact closed

theorem stepInv {w t : Link} {a : Action WriteOutcome} (inv : Inv w) (ok : step onMessage w a = some t) : Inv t := by
  cases a with
  | arrives data =>
    cases Option.some.inj ok
    exact arrivesInv inv data
  | event r =>
    obtain ⟨life, handled, last⟩ := Option.bind_eq_some_iff.mp ok
    cases Option.some.inj last
    refine eventRule (fun l => Inv { w with life := l })
      (fun l => Inv ⟨l, w.sent, if r.reads then r.receipt.left w.unread else w.unread⟩) ?_ ?_ ?_ ?_ ?_ inv handled
    · intro l m before closed
      exact closeInv (w := { w with life := l }) before closed
    · intro l text before
      exact errorInv (w := { w with life := l }) before text
    · intro l m before readable read
      have done := readInv (w := { w with life := l }) before read
      simpa only [show r.reads = true from readable, if_true] using done
    · intro l before quiet
      simpa only [show r.reads = false from quiet, Bool.false_eq_true, if_false] using before
    · intro l m before wrote
      exact writeInv (w := ⟨l, _, _⟩) before wrote

theorem runInv {fd : Nat} {writeComplete highWater : Bool} {mark : Nat} {actions : List (Action WriteOutcome)}
    {w : Link} (ok : run (step onMessage) (start fd writeComplete highWater mark) actions = some w) : Inv w :=
  runInvariant stepInv (startInv ..) ok

theorem sendsAll {c : TcpConnection} (synced : Synced c) (empty : c.outputBuffer.readable = []) (data : Bytes) :
    ∃ effects, c.sendInLoop data (.wrote data.length) = some (c, effects) ∧ ¬ Broken effects := by
  have quiet : c.channel.isWriting = false := by
    rw [← Bool.not_eq_true]
    exact fun writing => synced.flag.mp writing empty
  have none_ : c.outputBuffer.readableBytes = 0 := by rw [syncedLength synced, empty, List.length_nil]
  have direct : c.firstWrite data (.wrote data.length) = some (data.length, false,
      .accepted data :: if c.writeCompleteCallback then [.queueWriteComplete] else []) := by
    simp [TcpConnection.firstWrite, TcpConnection.directWrite, quiet, none_]
  refine ⟨.accepted data :: if c.writeCompleteCallback then [.queueWriteComplete] else [], ?_, ?_⟩
  · simp [TcpConnection.sendInLoop, synced.live, direct]
  · split <;> simp [Broken]

theorem writesAll {c : TcpConnection} (synced : Synced c) (queued : c.outputBuffer.readable ≠ []) :
    ∃ d effects, c.handleWrite (.wrote c.outputBuffer.readableBytes) = some (d, effects) ∧
      d.outputBuffer.readable = [] ∧ ¬ Broken effects := by
  have writing := synced.flag.mpr queued
  have length := syncedLength synced
  have some_ : 0 < c.outputBuffer.readableBytes := by rw [length]; exact List.length_pos_iff.mpr queued
  obtain ⟨_, content, _⟩ := drainedSound synced c.outputBuffer.readableBytes writing
  refine ⟨(c.drained c.outputBuffer.readableBytes).1, .accepted (c.outputBuffer.readable.take
    c.outputBuffer.readableBytes) :: (c.drained c.outputBuffer.readableBytes).2, ?_, ?_, ?_⟩
  · simp only [TcpConnection.handleWrite, writing, if_true, if_pos (Nat.le_refl _), if_pos some_]
  · rw [content, length, List.drop_length]
  · simp only [TcpConnection.drained, TcpConnection.shutdownInLoop]
    split
    · split <;> split <;> simp [Broken]
    · simp [Broken]

structure Echoes (w : Link) (arrived : Bytes) : Prop where
  front : Intact w.life → taken w.life <+: arrived
  whole : Intact w.life → w.life.conn.state = .kConnected →
    taken w.life ++ w.life.conn.outputBuffer.readable ++ w.unread = arrived
  bounded : w.life.inputBuffer.buffer.size ≤ inputLimit

theorem echoFaithful {fd : Nat} {writeComplete highWater : Bool} {mark : Nat}
    {actions : List (Action WriteOutcome)} {w : Link}
    (ok : run (step onMessage) (start fd writeComplete highWater mark) actions = some w) :
    Echoes w (arrived actions) := by
  have inv := runInv ok
  have all : w.sent = arrived actions := runArrived ok
  rw [← all]
  refine ⟨invPrefix inv, fun intact connected => ?_, inv.input.small⟩
  rcases inv.standing with up | down
  · simpa [Relayed] using up.flow intact
  · exact absurd (connected.symm.trans down.state) (by simp)

def slowPeer : List (Action WriteOutcome) :=
  [.arrives [1, 2, 3], .event ⟨{ epollin := true }, .got 2, .wrote 1, .wrote 0⟩, .arrives [4],
    .event ⟨{ epollin := true, epollout := true }, .got 9, .wrote 0, .wrote 2⟩]

theorem echoFaithfulSample :
    ∃ w, run (step onMessage) (start 5 true false 64) slowPeer = some w ∧ w.unread = [] ∧
      Echoes w (arrived slowPeer) := by
  have left : (run (step onMessage) (start 5 true false 64) slowPeer).map Link.unread = some [] := by
    decide +kernel
  obtain ⟨w, ok, last⟩ := Option.map_eq_some_iff.mp left
  exact ⟨w, ok, last, echoFaithful ok⟩

structure Going (all : Bytes) (w : Link) : Prop where
  inv : Inv w
  connected : w.life.conn.state = .kConnected
  intact : Intact w.life
  sent : w.sent = all

def waiting (w : Link) : Nat := w.unread.length + w.life.conn.outputBuffer.readable.length

theorem goingOpen {all : Bytes} {w : Link} (going : Going all w) : Open w := by
  rcases going.inv.standing with up | down
  · exact up
  · exact absurd (going.connected.symm.trans down.state) (by simp)

def writeEvent (w : Link) : Action WriteOutcome :=
  .event ⟨{ epollout := true }, .got 0, .wrote 0, .wrote w.life.conn.outputBuffer.readableBytes⟩

def readEvent (w : Link) : Action WriteOutcome :=
  .event ⟨{ epollin := true }, .got kInitialSize, .wrote (w.unread.take kInitialSize).length, .wrote 0⟩

theorem writeDown {all : Bytes} {w : Link} (going : Going all w)
    (queued : w.life.conn.outputBuffer.readable ≠ []) :
    ∃ t, step onMessage w (writeEvent w) = some t ∧ Going all t ∧ waiting t < waiting w := by
  obtain ⟨d, effects, wrote, empty, safe⟩ := writesAll (goingOpen going).synced queued
  have ok : step onMessage w (writeEvent w) = some { w with life := w.life.effects d effects } := by
    simp [step, writeEvent, Report.reads, handleEventWith, closeEvent, errorEvent, readEventWith,
      LiveConnection.writeEvent, LiveConnection.handleWrite, wrote]
  refine ⟨_, ok, ⟨stepInv going.inv ok, ?_, ?_, going.sent⟩, ?_⟩
  · exact (ConnectionLifecycle.handleWriteState wrote).trans going.connected
  · rw [Intact, effectsOfDone, brokenAppend]
    exact fun broken => broken.elim going.intact safe
  · simp only [waiting, LiveConnection.effects, empty, List.length_nil]
    exact Nat.add_lt_add_left (List.length_pos_iff.mpr queued) _

theorem readDown {all : Bytes} {w : Link} (going : Going all w) (empty : w.life.conn.outputBuffer.readable = [])
    (more : w.unread ≠ []) :
    ∃ t, step onMessage w (readEvent w) = some t ∧ Going all t ∧ waiting t < waiting w := by
  have drained := going.inv.input
  have short : (w.unread.take kInitialSize).length ≤ kInitialSize := List.length_take_le ..
  have some_ : 0 < (w.unread.take kInitialSize).length := by
    rw [List.length_take]
    exact Nat.lt_min.mpr ⟨by decide, List.length_pos_iff.mpr more⟩
  have offered : (w.unread.take kInitialSize).length ≤ w.life.inputBuffer.iovecTotal := by
    have room := drained.room
    rw [iovecTotal, drainedWritable drained]
    split <;> omega
  have got : ∃ b, w.life.inputBuffer.readFd (.got (w.unread.take kInitialSize)) =
      some (b, ((w.unread.take kInitialSize).length : Int)) := by
    rcases readFdSpec (drainedValid drained) offered with ⟨b, done, _⟩ | ⟨_, beyond⟩
    · exact ⟨b, done⟩
    · rw [drained.writer] at beyond
      exact absurd (Nat.lt_of_lt_of_le beyond (Nat.add_le_add_left short _)) (by decide)
  obtain ⟨b, done⟩ := got
  have filled := (readFilled drained done).2
  obtain ⟨effects, sent, safe⟩ := sendsAll (goingOpen going).synced empty (w.unread.take kInitialSize)
  let life := (({ w.life with inputBuffer := b.retrieveAll }).note .messageCallback).effects w.life.conn effects
  have ok : step onMessage w (readEvent w) = some ⟨life, w.sent, w.unread.drop kInitialSize⟩ := by
    have positive : (0 : Int) < (w.unread.take kInitialSize).length := Int.ofNat_lt.mpr some_
    simp only [step, readEvent, Report.reads, handleEventWith, closeEvent, errorEvent, readEventWith,
      LiveConnection.writeEvent, handleReadWith, Receipt.readv, Receipt.left, done, positive, onMessage,
      LiveConnection.note, retrieveAllContent filled.valid, filled.content, send, going.connected, sent,
      bind, Option.bind_some, Bool.false_and, Bool.true_or, Bool.false_eq_true, if_true, if_false]
    rfl
  refine ⟨_, ok, ⟨stepInv going.inv ok, going.connected, ?_, going.sent⟩, ?_⟩
  · have note := noteQuiet { w.life with inputBuffer := b.retrieveAll } (n := .messageCallback) rfl
      (by simp [effectsOf, Broken])
    rw [Intact, effectsOfDone, brokenAppend]
    exact fun broken => broken.elim (note.2.mpr going.intact) safe
  · have less : (w.unread.drop kInitialSize).length < w.unread.length := by
      rw [List.length_drop]
      have length := List.length_pos_iff.mpr more
      exact Nat.sub_lt length (by decide)
    exact Nat.add_lt_add_right less _

theorem echoCompletes {fd : Nat} {writeComplete highWater : Bool} {mark : Nat}
    {actions : List (Action WriteOutcome)} {w : Link}
    (ok : run (step onMessage) (start fd writeComplete highWater mark) actions = some w)
    (connected : w.life.conn.state = .kConnected) (intact : Intact w.life) :
    ∃ more t, run (step onMessage) w more = some t ∧ arrived more = [] ∧ taken t.life = arrived actions := by
  have inv := runInv ok
  have all : w.sent = arrived actions := runArrived ok
  have going : Going (arrived actions) w := ⟨inv, connected, intact, all⟩
  obtain ⟨more, t, ran, last, none_⟩ := @runDescends _ _ (step onMessage) _ waiting
    (fun {s} going some_ => by
      by_cases queued : s.life.conn.outputBuffer.readable = []
      · have more : s.unread ≠ [] := by
          intro nothing
          simp [waiting, queued, nothing] at some_
        obtain ⟨t, ok, next, less⟩ := readDown going queued more
        exact ⟨_, t, ok, next, less⟩
      · obtain ⟨t, ok, next, less⟩ := writeDown going queued
        exact ⟨_, t, ok, next, less⟩) w going
  refine ⟨more, t, ran, ?_, ?_⟩
  · have kept : w.sent ++ arrived more = w.sent := by rw [← runArrived ran, last.sent, all]
    exact List.append_right_eq_self.mp kept
  · have flow := (goingOpen last).flow last.intact
    rw [last.sent] at flow
    refine flowDone flow fun queue member => ?_
    simp only [waiting, Nat.add_eq_zero_iff, List.length_eq_zero_iff] at none_
    simp only [List.mem_cons, List.not_mem_nil, or_false] at member
    rcases member with rfl | rfl
    · exact none_.2
    · exact none_.1

theorem echoCompletesSample :
    ∃ w more t, run (step onMessage) (start 5 true false 64) slowPeer = some w ∧
      run (step onMessage) w more = some t ∧ taken t.life = [1, 2, 3, 4] := by
  have end_ : (run (step onMessage) (start 5 true false 64) slowPeer).map
      (fun w => (w.life.conn.state, effectsOf w.life.trace)) =
        some (.kConnected, [.accepted [1], .accepted [2, 3]]) := by
    decide +kernel
  obtain ⟨w, ok, last⟩ := Option.map_eq_some_iff.mp end_
  obtain ⟨connected, trace⟩ := Prod.mk.inj last
  have intact : Intact w.life := by simp [Intact, trace, Broken]
  obtain ⟨more, t, ran, _, back⟩ := echoCompletes ok connected intact
  exact ⟨w, more, t, ok, ran, back⟩

end TinyNetwork.EchoServer
