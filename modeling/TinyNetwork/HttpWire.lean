import TinyNetwork.HalfClose
import TinyNetwork.HttpTrace
import TinyNetwork.PeerLink
import TinyNetwork.ResponseFraming

/-! The HTTP server on the wire: its callback on a connection whose kernel takes what it
likes. The bytes the peer gets are blocks, each a refusal or the response to a request
that is in what the peer sent; the FIN comes behind the last of them and nothing behind
the FIN. -/
namespace TinyNetwork.HttpWire
open Runs Buffer PeerLink LiveConnection HttpTrace
open OutgoingStream hiding step Action

/- The clock of the event, and what ::write does for the two calls of send(). -/
structure Answer where
  receiveTime : Timestamp
  refusal : WriteOutcome
  response : WriteOutcome
  deriving DecidableEq, Repr

def onRequest (httpCallback : HttpCallback) (l : LiveConnection) (req : HttpRequest) (outcome : WriteOutcome) :
    Option LiveConnection := do
  -- the Connection header and the version are read, but close is then set to true
  let response := httpCallback req { closeConnection := true }
  let buf ← response.appendToBuffer fresh
  let l ← l.send buf.readable outcome
  some (if response.closeConnection then l.shutdown else l)

def refuse (l : LiveConnection) (outcome : WriteOutcome) : Option LiveConnection := do
  let l ← l.send HttpServer.badRequest outcome
  some l.shutdown

def judge (l : LiveConnection) (ok : Bool) (outcome : WriteOutcome) : Option LiveConnection :=
  if ok then some l else refuse l outcome

def onMessage (httpCallback : HttpCallback) (answer : Answer) (l : LiveConnection) : Option LiveConnection := do
  let (ok, context, inputBuffer) ← HttpContext.parseRequest {} l.inputBuffer answer.receiveTime
  let l ← judge { l with inputBuffer } ok answer.refusal
  if context.gotAll then onRequest httpCallback l context.request answer.response else some l

def behindFin (effects : List Effect) : Bytes := accepted (effects.dropWhile (· ≠ .shutdownWrite))

theorem behindFinAppend (a b : List Effect) :
    behindFin (a ++ b) = if .shutdownWrite ∈ a then behindFin a ++ accepted b else behindFin b := by
  induction a with
  | nil => simp
  | cons e rest ih =>
    by_cases fin : e = .shutdownWrite
    · simp [behindFin, fin, List.dropWhile]
    · have later : behindFin (e :: rest ++ b) = behindFin (rest ++ b) := by simp [behindFin, fin]
      have here : behindFin (e :: rest) = behindFin rest := by simp [behindFin, fin]
      rw [later, ih, here]
      simp [Ne.symm fin]

theorem behindFinNone {effects : List Effect} (none_ : .shutdownWrite ∉ effects) : behindFin effects = [] := by
  rw [behindFin, List.dropWhile_eq_nil_iff.mpr, acceptedNil]
  intro e member
  simp only [ne_eq, decide_not, Bool.not_eq_eq_eq_not, Bool.not_true, decide_eq_false_iff_not]
  exact fun same => none_ (same ▸ member)

theorem behindFinKept {a b : List Effect} (first : behindFin a = []) (second : behindFin b = [])
    (later : .shutdownWrite ∈ a → accepted b = []) : behindFin (a ++ b) = [] := by
  rw [behindFinAppend]
  split
  · rename_i fin
    rw [first, later fin, List.append_nil]
  · exact second

theorem sendInLoopQuiet {c d : TcpConnection} {data : Bytes} {outcome : WriteOutcome} {effects : List Effect}
    (ok : c.sendInLoop data outcome = some (d, effects)) : .shutdownWrite ∉ effects := by
  unfold TcpConnection.sendInLoop at ok
  split at ok
  · cases Option.some.inj ok
    simp
  · simp only [bind, Option.bind_eq_some_iff] at ok
    obtain ⟨⟨nwrote, fault, first⟩, written, ok⟩ := ok
    have quiet := HalfClose.firstWriteQuiet written
    split at ok
    · simp only [TcpConnection.bufferRest, bind, Option.bind_eq_some_iff] at ok
      obtain ⟨out, _, last⟩ := ok
      cases Option.some.inj last
      rw [List.mem_append, not_or]
      exact ⟨quiet, by split <;> simp⟩
    · cases Option.some.inj ok
      exact quiet

theorem handleWriteFin {c d : TcpConnection} {outcome : WriteOutcome} {effects : List Effect}
    (ok : c.handleWrite outcome = some (d, effects)) :
    behindFin effects = [] ∧ (.shutdownWrite ∈ effects → c.state = .kDisconnecting) := by
  unfold TcpConnection.handleWrite at ok
  split at ok
  · cases outcome with
    | wrote n =>
      simp only at ok
      split at ok <;> try contradiction
      split at ok
      · cases Option.some.inj ok
        simp only [TcpConnection.drained, TcpConnection.shutdownInLoop]
        split
        · split <;> split <;> simp [behindFin, List.dropWhile, OutgoingStream.Effect.bytes, *]
        · simp [behindFin, List.dropWhile]
      · cases Option.some.inj ok
        simp [behindFin, List.dropWhile]
    | failed errno =>
      cases Option.some.inj ok
      simp [behindFin, List.dropWhile]
  · cases Option.some.inj ok
    simp [behindFin, List.dropWhile]

def Fin (l : LiveConnection) : Prop := .shutdownWrite ∈ effectsOf l.trace
instance (l : LiveConnection) : Decidable (Fin l) := by unfold Fin; infer_instance

structure Up (blocks : List Bytes) (l : LiveConnection) : Prop where
  connected : l.conn.state = .kConnected
  synced : OutgoingStream.Synced l.conn
  flow : Intact l → taken l ++ l.conn.outputBuffer.readable = blocks.flatten
  unfinished : ¬ Fin l

structure Half (blocks : List Bytes) (l : LiveConnection) : Prop where
  some_ : blocks ≠ []
  disconnecting : l.conn.state = .kDisconnecting
  synced : OutgoingStream.Synced l.conn
  flow : Intact l → taken l ++ l.conn.outputBuffer.readable = blocks.flatten
  finished : Fin l ↔ l.conn.outputBuffer.readable = []
  last : behindFin (effectsOf l.trace) = []

/- What the peer can rely on: a front of the blocks, all of them before the FIN, at
least one, and nothing behind it. -/
structure Delivered (blocks : List Bytes) (l : LiveConnection) : Prop where
  some_ : Fin l → blocks ≠ []
  front : Intact l → taken l <+: blocks.flatten
  finished : Intact l → Fin l → taken l = blocks.flatten
  last : behindFin (effectsOf l.trace) = []

structure Down (blocks : List Bytes) (l : LiveConnection) : Prop where
  disconnected : l.conn.state = .kDisconnected
  quiet : l.conn.channel.isWriting = false
  delivered : Delivered blocks l

inductive Wire (blocks : List Bytes) (l : LiveConnection) : Prop where
  | up (up : Up blocks l)
  | half (half : Half blocks l)
  | down (down : Down blocks l)

theorem wireDelivered {blocks : List Bytes} {l : LiveConnection} (wire : Wire blocks l) : Delivered blocks l := by
  cases wire with
  | up up =>
    exact ⟨fun fin => absurd fin up.unfinished, fun intact => ⟨_, up.flow intact⟩,
      fun _ fin => absurd fin up.unfinished, behindFinNone up.unfinished⟩
  | half half =>
    refine ⟨fun _ => half.some_, fun intact => ⟨_, half.flow intact⟩, fun intact fin => ?_, half.last⟩
    rw [← half.flow intact, half.finished.mp fin, List.append_nil]
  | down down => exact down.delivered

structure Quiet (l m : LiveConnection) : Prop where
  same : taken m = taken l
  intact : Intact m ↔ Intact l
  fin : Fin m ↔ Fin l
  last : behindFin (effectsOf l.trace) = [] → behindFin (effectsOf m.trace) = []

theorem quietOf {l m : LiveConnection} {effects : List Effect} (trace : effectsOf m.trace = effectsOf l.trace ++ effects)
    (nothing : accepted effects = []) (safe : ¬ Broken effects) (silent : .shutdownWrite ∉ effects) : Quiet l m := by
  refine ⟨?_, ?_, ?_, fun last => ?_⟩
  · rw [taken, trace, acceptedAppend, nothing, List.append_nil, taken]
  · rw [Intact, trace, brokenAppend, or_iff_left safe, Intact]
  · rw [Fin, trace, List.mem_append, or_iff_left silent, Fin]
  · rw [trace]
    exact behindFinKept last (behindFinNone silent) fun _ => nothing

theorem quietSame {l m : LiveConnection} (trace : effectsOf m.trace = effectsOf l.trace) : Quiet l m :=
  @quietOf _ _ [] (by rw [trace, List.append_nil]) rfl (by simp [Broken]) (by simp)

theorem deliveredQuiet {blocks : List Bytes} {l m : LiveConnection} (delivered : Delivered blocks l)
    (quiet : Quiet l m) : Delivered blocks m := by
  obtain ⟨some_, front, finished, last⟩ := delivered
  obtain ⟨same, intact, fin, kept⟩ := quiet
  exact ⟨by rwa [fin], by rwa [intact, same], by rwa [intact, fin, same], kept last⟩

theorem wireQuiet {blocks : List Bytes} {l m : LiveConnection} (wire : Wire blocks l) (conn : m.conn = l.conn)
    (quiet : Quiet l m) : Wire blocks m := by
  obtain ⟨same, intact, fin, kept⟩ := quiet
  cases wire with
  | up up =>
    exact .up ⟨conn ▸ up.connected, conn ▸ up.synced, by rw [intact, same, conn]; exact up.flow,
      by rw [fin]; exact up.unfinished⟩
  | half half =>
    exact .half ⟨half.some_, conn ▸ half.disconnecting, conn ▸ half.synced, by rw [intact, same, conn]; exact half.flow,
      by rw [fin, conn]; exact half.finished, kept half.last⟩
  | down down =>
    exact .down ⟨conn ▸ down.disconnected, conn ▸ down.quiet,
      deliveredQuiet down.delivered ⟨same, intact, fin, kept⟩⟩

theorem sendUp {blocks : List Bytes} {l m : LiveConnection} {data : Bytes} {outcome : WriteOutcome}
    (up : Up blocks l) (ok : l.send data outcome = some m) :
    Up (blocks ++ [data]) m ∧ m.inputBuffer = l.inputBuffer := by
  rcases sendCases ok with ⟨_, conn, effects, sent, rfl⟩ | ⟨gone, _⟩
  · obtain ⟨synced, content⟩ := sendInLoopSound up.synced sent
    have state := (ConnectionLifecycle.sendInLoopState sent).trans up.connected
    refine ⟨⟨state, synced, fun intact => ?_, ?_⟩, rfl⟩
    · simp only [Intact, taken, effectsOfDone, brokenAppend, not_or, acceptedAppend] at intact ⊢
      calc accepted (effectsOf l.trace) ++ accepted effects ++ conn.outputBuffer.readable
          = taken l ++ (l.conn.outputBuffer.readable ++ data) := by
            rw [List.append_assoc, content intact.2]; rfl
        _ = (blocks ++ [data]).flatten := by rw [← List.append_assoc, up.flow intact.1]; simp
    · rw [Fin, effectsOfDone, List.mem_append, not_or]
      exact ⟨up.unfinished, sendInLoopQuiet sent⟩
  · exact absurd up.connected gone

theorem shutdownUp {blocks : List Bytes} {l : LiveConnection} (up : Up blocks l) (some_ : blocks ≠ []) :
    Half blocks l.shutdown ∧ l.shutdown.inputBuffer = l.inputBuffer := by
  have synced : OutgoingStream.Synced { l.conn with state := .kDisconnecting } :=
    ⟨by simp, up.synced.valid, up.synced.flag⟩
  have fin := HalfClose.shutdownInLoopFin synced
  obtain ⟨nothing, safe⟩ := shutdownInLoopSound { l.conn with state := .kDisconnecting }
  have trace : effectsOf l.shutdown.trace = effectsOf l.trace ++
      ({ l.conn with state := .kDisconnecting } : TcpConnection).shutdownInLoop := by
    rw [LiveConnection.shutdown, if_pos up.connected]
    simp only [effectsOfDone]
    congr 1
    simp [setState, LiveConnection.note, effectsOf]
  have conn : l.shutdown.conn = { l.conn with state := .kDisconnecting } := by
    rw [LiveConnection.shutdown, if_pos up.connected]
    rfl
  refine ⟨⟨some_, by rw [conn], conn ▸ synced, fun intact => ?_, ?_, ?_⟩, ?_⟩
  · rw [Intact, trace, brokenAppend, not_or] at intact
    rw [taken, trace, acceptedAppend, nothing, List.append_nil, conn]
    exact up.flow intact.1
  · rw [Fin, trace, List.mem_append, fin, conn]
    exact or_iff_right up.unfinished
  · rw [trace]
    refine behindFinKept (behindFinNone up.unfinished) ?_ fun fin => absurd fin up.unfinished
    rw [TcpConnection.shutdownInLoop]
    split <;> simp [behindFin, List.dropWhile, OutgoingStream.Effect.bytes]
  · rw [LiveConnection.shutdown, if_pos up.connected]
    rfl

theorem closeWire {blocks : List Bytes} {l m : LiveConnection} (wire : Wire blocks l)
    (ok : l.handleClose [] = some m) : Wire blocks m := by
  obtain ⟨m', done, state, quiet, _, _, trace⟩ := closedQuietly l
  cases Option.some.inj (done.symm.trans ok)
  exact .down ⟨state, quiet, deliveredQuiet (wireDelivered wire) (quietSame trace)⟩

theorem writeIdle {c d : TcpConnection} {outcome : WriteOutcome} {effects : List Effect}
    (quiet : c.channel.isWriting = false) (ok : c.handleWrite outcome = some (d, effects)) :
    d = c ∧ accepted effects = [] ∧ ¬ Broken effects ∧ .shutdownWrite ∉ effects := by
  simp only [TcpConnection.handleWrite, quiet] at ok
  cases Option.some.inj ok
  refine ⟨rfl, ?_, ?_, ?_⟩ <;> simp [OutgoingStream.Effect.bytes, Broken]

theorem writeWire {blocks : List Bytes} {l m : LiveConnection} {outcome : WriteOutcome} (wire : Wire blocks l)
    (ok : l.handleWrite outcome = some m) : Wire blocks m := by
  obtain ⟨⟨conn, effects⟩, wrote, last⟩ := Option.bind_eq_some_iff.mp ok
  cases Option.some.inj last
  have trace := effectsOfDone l conn effects
  have state := ConnectionLifecycle.handleWriteState wrote
  obtain ⟨behind, fin⟩ := handleWriteFin wrote
  have flows {c : Bytes} (synced : OutgoingStream.Synced l.conn)
      (flow : Intact l → taken l ++ l.conn.outputBuffer.readable = c) :
      Intact (l.effects conn effects) → taken (l.effects conn effects) ++ conn.outputBuffer.readable = c := by
    intro intact
    simp only [Intact, taken, trace, brokenAppend, not_or, acceptedAppend] at intact ⊢
    rw [List.append_assoc, (handleWriteSound synced wrote).2]
    exact flow intact.1
  cases wire with
  | up up =>
    refine .up ⟨state.trans up.connected, (handleWriteSound up.synced wrote).1, flows up.synced up.flow, ?_⟩
    rw [Fin, trace, List.mem_append, not_or]
    exact ⟨up.unfinished, fun sent => absurd ((fin sent).symm.trans up.connected) (by simp)⟩
  | half half =>
    have keeps := HalfClose.handleWriteKeeps half.synced wrote
    refine .half ⟨half.some_, state.trans half.disconnecting, keeps.synced, flows half.synced half.flow, ?_, ?_⟩
    · rw [Fin, trace, List.mem_append]
      by_cases empty : l.conn.outputBuffer.readable = []
      · have quiet : l.conn.channel.isWriting = false := by
          rw [← Bool.not_eq_true]
          exact fun writing => half.synced.flag.mp writing empty
        obtain ⟨rfl, _⟩ := writeIdle quiet wrote
        exact ⟨fun _ => empty, fun _ => .inl (half.finished.mpr empty)⟩
      · constructor
        · rintro (old | new)
          · exact absurd (half.finished.mp old) empty
          · exact keeps.clean new
        · intro drained
          rcases keeps.pending (state.trans half.disconnecting) empty with still | new
          · exact absurd drained still
          · exact .inr new
    · rw [trace]
      refine behindFinKept half.last behind fun sent => ?_
      have empty := half.finished.mp sent
      have quiet : l.conn.channel.isWriting = false := by
        rw [← Bool.not_eq_true]
        exact fun writing => half.synced.flag.mp writing empty
      exact (writeIdle quiet wrote).2.1
  | down down =>
    obtain ⟨rfl, nothing, safe, silent⟩ := writeIdle down.quiet wrote
    exact .down ⟨down.disconnected, down.quiet, deliveredQuiet down.delivered (quietOf trace nothing safe silent)⟩

/- The blocks the server can owe for what the peer has sent, and whether it closes
after them: the refusal of a text that does not parse, the response to one that does. -/
inductive Response (httpCallback : HttpCallback) (sent : Bytes) : Bool → Bytes → Prop where
  | refusal {t bytes d last} (inside : bytes <:+: sent) (parses : Parses t {} false bytes d false last) :
      Response httpCallback sent true HttpServer.badRequest
  | response {t bytes d ok last} (inside : bytes <:+: sent) (parses : Parses t {} false bytes d ok last)
      (all : d.gotAll = true) :
      Response httpCallback sent (httpCallback d.request { closeConnection := true }).closeConnection
        (httpCallback d.request { closeConnection := true }).pieces.flatten

variable {httpCallback : HttpCallback}

theorem responseGrows {sent : Bytes} {close : Bool} {block : Bytes}
    (response : Response httpCallback sent close block) (data : Bytes) :
    Response httpCallback (sent ++ data) close block := by
  cases response with
  | refusal inside parses => exact .refusal (inside.trans (List.prefix_append _ _).isInfix) parses
  | response inside parses all => exact .response (inside.trans (List.prefix_append _ _).isInfix) parses all

structure History (httpCallback : HttpCallback) (sent : Bytes) (state : StateE) (blocks : List Bytes) : Prop where
  owed : ∀ block ∈ blocks, ∃ close, Response httpCallback sent close block
  kept : ∀ block ∈ blocks.dropLast, Response httpCallback sent false block
  more : state = .kConnected → ∀ block ∈ blocks, Response httpCallback sent false block

theorem historySnoc {sent : Bytes} {state : StateE} {blocks : List Bytes} {close : Bool} {block : Bytes}
    (history : History httpCallback sent .kConnected blocks) (response : Response httpCallback sent close block)
    (closes : state = .kConnected → close = false) : History httpCallback sent state (blocks ++ [block]) := by
  have before := history.more rfl
  refine ⟨?_, by rw [List.dropLast_concat]; exact before, fun connected => ?_⟩
  · exact List.forall_mem_append.mpr ⟨history.owed, List.forall_mem_singleton.mpr ⟨close, response⟩⟩
  · exact List.forall_mem_append.mpr ⟨before, List.forall_mem_singleton.mpr (closes connected ▸ response)⟩

theorem historyGrows {sent : Bytes} {state : StateE} {blocks : List Bytes}
    (history : History httpCallback sent state blocks) (data : Bytes) :
    History httpCallback (sent ++ data) state blocks :=
  ⟨fun block member => (history.owed block member).imp fun _ response => responseGrows response data,
    fun block member => responseGrows (history.kept block member) data,
    fun connected block member => responseGrows (history.more connected block member) data⟩

theorem historyDown {sent : Bytes} {before after : StateE} {blocks : List Bytes}
    (history : History httpCallback sent before blocks) (down : after = .kConnected → before = .kConnected) :
    History httpCallback sent after blocks :=
  ⟨history.owed, history.kept, fun connected => history.more (down connected)⟩

theorem sendIdle {l m : LiveConnection} {data : Bytes} {outcome : WriteOutcome}
    (gone : l.conn.state ≠ .kConnected) (ok : l.send data outcome = some m) : m = l := by
  rcases sendCases ok with ⟨connected, _⟩ | ⟨_, same⟩
  · exact absurd connected gone
  · exact same

theorem shutdownIdle {l : LiveConnection} (gone : l.conn.state ≠ .kConnected) : l.shutdown = l := if_neg gone

theorem refuseIdle {l m : LiveConnection} {outcome : WriteOutcome} (gone : l.conn.state ≠ .kConnected)
    (ok : refuse l outcome = some m) : m = l := by
  obtain ⟨m', sent, last⟩ := Option.bind_eq_some_iff.mp ok
  rw [← Option.some.inj last, sendIdle gone sent, shutdownIdle gone]

theorem requestIdle {l m : LiveConnection} {req : HttpRequest} {outcome : WriteOutcome}
    (gone : l.conn.state ≠ .kConnected) (ok : onRequest httpCallback l req outcome = some m) : m = l := by
  simp only [onRequest, bind, Option.bind_eq_some_iff] at ok
  obtain ⟨buf, _, m', sent, last⟩ := ok
  rw [← Option.some.inj last, sendIdle gone sent, shutdownIdle gone, ite_self]

theorem refuseUp {blocks : List Bytes} {l m : LiveConnection} {outcome : WriteOutcome} (up : Up blocks l)
    (ok : refuse l outcome = some m) :
    Half (blocks ++ [HttpServer.badRequest]) m ∧ m.inputBuffer = l.inputBuffer := by
  obtain ⟨m', sent, last⟩ := Option.bind_eq_some_iff.mp ok
  obtain ⟨up', input⟩ := sendUp up sent
  obtain ⟨half, input'⟩ := shutdownUp up' (by simp)
  rw [← Option.some.inj last]
  exact ⟨half, input'.trans input⟩

theorem requestUp {blocks : List Bytes} {l m : LiveConnection} {req : HttpRequest} {outcome : WriteOutcome}
    (up : Up blocks l) (ok : onRequest httpCallback l req outcome = some m) :
    m.inputBuffer = l.inputBuffer ∧
      Wire (blocks ++ [(httpCallback req { closeConnection := true }).pieces.flatten]) m ∧
      (m.conn.state = .kConnected → (httpCallback req { closeConnection := true }).closeConnection = false) := by
  simp only [onRequest, bind, Option.bind_eq_some_iff] at ok
  obtain ⟨buf, rendered, m', sent, last⟩ := ok
  rw [HttpResponse.appendToBufferSpec rendered] at sent
  obtain ⟨up', input⟩ := sendUp up sent
  rw [← Option.some.inj last]
  split
  · obtain ⟨half, input'⟩ := shutdownUp up' (by simp)
    exact ⟨input'.trans input, .half half,
      fun connected => absurd (half.disconnecting.symm.trans connected) (by simp)⟩
  · rename_i keeps
    exact ⟨input, .up up', fun _ => by simpa using keeps⟩

theorem parsesSuffix {t : Timestamp} {c d : HttpContext} {ok ok' : Bool} {bytes last : Bytes}
    (parses : Parses t c ok bytes d ok' last) : last <:+ bytes := by
  have line {bytes line rest : Bytes} (first : FirstLine bytes line rest) : rest <:+ bytes := ⟨_, first.cut.symm⟩
  induction parses with
  | starved state none => exact List.suffix_refl _
  | refuse state first bad => exact List.suffix_refl _
  | accept state first good more ih => exact ih.trans (line first)
  | header state first colon more ih => exact ih.trans (line first)
  | finish state first plain => exact line first

structure Inv (httpCallback : HttpCallback) (w : Link) : Prop where
  valid : Valid w.life.inputBuffer
  read : w.life.inputBuffer.readable ++ w.unread <:+ w.sent
  served : ∃ blocks, Wire blocks w.life ∧ History httpCallback w.sent w.life.conn.state blocks

theorem startInv (fd : Nat) (writeComplete highWater : Bool) (mark : Nat) :
    Inv httpCallback (start fd writeComplete highWater mark) := by
  have input : (start fd writeComplete highWater mark).life.inputBuffer = fresh := rfl
  have synced : OutgoingStream.Synced (start fd writeComplete highWater mark).life.conn := by
    refine ⟨by simp [start, setChannel, setState, LiveConnection.note], freshValid, ?_⟩
    simp [start, LiveConnection.make, setChannel, setState, LiveConnection.note]
  refine ⟨freshValid, ?_, [], .up ⟨rfl, synced, fun _ => ?_, ?_⟩, ⟨by simp, by simp, by simp⟩⟩
  · rw [input, freshReadable]
    exact List.suffix_refl _
  · simp [start, taken, effectsOf, LiveConnection.make, setChannel, setState, LiveConnection.note]
  · simp [Fin, start, effectsOf, LiveConnection.make, setChannel, setState, LiveConnection.note]

theorem messageInv {w : Link} {b : Buffer} {answer : Answer} {left : Bytes} {m : LiveConnection}
    (inv : Inv httpCallback w) (valid : Valid b) (read : b.readable ++ left <:+ w.sent)
    (ok : onMessage httpCallback answer ({ w.life with inputBuffer := b }.note .messageCallback) = some m) :
    Inv httpCallback { w with life := m, unread := left } := by
  obtain ⟨d, good, last, parses⟩ := parsesTotal answer.receiveTime (c := {}) (.inl rfl) false b.readable
  obtain ⟨b', done, consumed⟩ := parseRequestOf parses valid rfl
  have inside : b.readable <:+: w.sent := (List.prefix_append _ left).isInfix.trans read.isInfix
  have rest : b'.readable ++ left <:+ w.sent := by
    obtain ⟨line, cut⟩ := parsesSuffix parses
    refine List.IsSuffix.trans ⟨line, ?_⟩ read
    rw [consumed.content, ← List.append_assoc, cut]
  obtain ⟨blocks, wire, history⟩ := inv.served
  simp only [onMessage, LiveConnection.note, done, bind, Option.bind_some] at ok
  obtain ⟨l, first, second⟩ := Option.bind_eq_some_iff.mp ok
  let parsed : LiveConnection := ⟨w.life.conn, b', w.life.trace ++ [.messageCallback]⟩
  have wire' : Wire blocks parsed := wireQuiet wire rfl (quietSame (by simp [parsed, effectsOf]))
  -- whatever is answered, the input buffer is what the parse left of it
  suffices served : m.inputBuffer = b' ∧ ∃ blocks, Wire blocks m ∧ History httpCallback w.sent m.conn.state blocks by
    obtain ⟨input, served⟩ := served
    exact ⟨by simp only [input]; exact consumed.valid, by simp only [input]; exact rest, served⟩
  by_cases connected : parsed.conn.state = .kConnected
  · have up : Up blocks parsed := by
      cases wire' with
      | up up => exact up
      | half half => exact absurd (connected.symm.trans half.disconnecting) (by simp)
      | down down => exact absurd (connected.symm.trans down.disconnected) (by simp)
    have open_ : History httpCallback w.sent .kConnected blocks := by
      rw [show w.life.conn.state = .kConnected from connected] at history
      exact history
    cases good with
    | false =>
      obtain ⟨half, input⟩ := refuseUp up first
      have gone : l.conn.state ≠ .kConnected := by simp [half.disconnecting]
      have same : m = l := by
        split at second
        · exact requestIdle gone second
        · exact (Option.some.inj second).symm
      rw [same]
      exact ⟨input, _, .half half, historySnoc open_ (.refusal inside parses) fun up => absurd up gone⟩
    | true =>
      cases Option.some.inj first
      split at second
      · rename_i all
        obtain ⟨input, wire'', closes⟩ := requestUp up second
        exact ⟨input, _, wire'', historySnoc open_ (.response inside parses all) closes⟩
      · cases Option.some.inj second
        exact ⟨rfl, blocks, wire', history⟩
  · have refused : l = parsed := by
      cases good with
      | true => exact (Option.some.inj first).symm
      | false => exact refuseIdle connected first
    have same : m = parsed := by
      rw [refused] at second
      split at second
      · exact requestIdle connected second
      · exact (Option.some.inj second).symm
    rw [same]
    exact ⟨rfl, blocks, wire', history⟩

theorem quietInv {w : Link} {m : LiveConnection} (inv : Inv httpCallback w) (valid : Valid m.inputBuffer)
    (input : m.inputBuffer.readable = w.life.inputBuffer.readable) (conn : m.conn = w.life.conn)
    (quiet : Quiet w.life m) : Inv httpCallback { w with life := m } := by
  obtain ⟨blocks, wire, history⟩ := inv.served
  exact ⟨valid, by rw [input]; exact inv.read, blocks, wireQuiet wire conn quiet, by rw [conn]; exact history⟩

theorem errorInv {w : Link} (inv : Inv httpCallback w) (text : String) :
    Inv httpCallback { w with life := (w.life.note (.effect (.logError text))).handleError } := by
  refine quietInv inv inv.valid rfl rfl (@quietOf _ _ [.logError text] ?_ rfl ?_ ?_)
  · simp [handleError, LiveConnection.note, effectsOf]
  · simp [Broken]
  · simp

theorem closeInv {w : Link} {m : LiveConnection} (inv : Inv httpCallback w) (ok : w.life.handleClose [] = some m) :
    Inv httpCallback { w with life := m } := by
  obtain ⟨blocks, wire, history⟩ := inv.served
  have wire' := closeWire wire ok
  obtain ⟨m', done, state, _, _, input, _⟩ := closedQuietly w.life
  cases Option.some.inj (done.symm.trans ok)
  exact ⟨by rw [input]; exact inv.valid, by rw [input]; exact inv.read, blocks, wire',
    historyDown history fun up => absurd (state.symm.trans up) (by simp)⟩

theorem writeInv {w : Link} {m : LiveConnection} {outcome : WriteOutcome} (inv : Inv httpCallback w)
    (ok : w.life.handleWrite outcome = some m) : Inv httpCallback { w with life := m } := by
  obtain ⟨blocks, wire, history⟩ := inv.served
  have wire' := writeWire wire ok
  obtain ⟨⟨conn, effects⟩, wrote, last⟩ := Option.bind_eq_some_iff.mp ok
  cases Option.some.inj last
  exact ⟨inv.valid, inv.read, blocks, wire',
    historyDown history fun up => (ConnectionLifecycle.handleWriteState wrote).symm.trans up⟩

theorem readInv {w : Link} {r : Receipt} {answer : Answer} {m : LiveConnection} (inv : Inv httpCallback w)
    (ok : w.life.handleReadWith (onMessage httpCallback answer) (r.readv w.unread) [] = some m) :
    Inv httpCallback { w with life := m, unread := r.left w.unread } := by
  obtain ⟨⟨b, n⟩, got, ok⟩ := Option.bind_eq_some_iff.mp ok
  simp only at ok
  cases r with
  | failed errno =>
    cases Option.some.inj got
    simp only [Int.reduceLT, if_false, Int.reduceEq] at ok
    cases Option.some.inj ok
    exact errorInv inv _
  | got count =>
    obtain ⟨rfl, added⟩ := readFdExtends inv.valid got
    have cut : w.unread.take count ++ w.unread.drop count = w.unread := List.take_append_drop ..
    have read : b.readable ++ w.unread.drop count <:+ w.sent := by
      rw [added.content, List.append_assoc, cut]
      exact inv.read
    split at ok
    · exact messageInv inv added.valid read ok
    · rename_i none_
      have nothing : w.unread.take count = [] := List.eq_nil_of_length_eq_zero (by omega)
      rw [nothing] at added
      rw [nothing, List.nil_append] at cut
      simp only [nothing, List.length_nil, Int.ofNat_zero, if_true] at ok
      have input : b.readable = w.life.inputBuffer.readable := by rw [added.content, List.append_nil]
      have same : Inv httpCallback { w with life := { w.life with inputBuffer := b } } :=
        quietInv inv added.valid input rfl (quietSame rfl)
      have closed := closeInv same ok
      simpa only [Receipt.left, cut] using closed

theorem stepInv {w t : Link} {a : Action Answer} (inv : Inv httpCallback w)
    (ok : step (onMessage httpCallback) w a = some t) : Inv httpCallback t := by
  cases a with
  | arrives data =>
    cases Option.some.inj ok
    obtain ⟨blocks, wire, history⟩ := inv.served
    refine ⟨inv.valid, ?_, blocks, wire, historyGrows history data⟩
    obtain ⟨past, all⟩ := inv.read
    exact ⟨past, by rw [← all]; simp⟩
  | event r =>
    obtain ⟨life, handled, last⟩ := Option.bind_eq_some_iff.mp ok
    cases Option.some.inj last
    refine eventRule (fun l => Inv httpCallback { w with life := l })
      (fun l => Inv httpCallback ⟨l, w.sent, if r.reads then r.receipt.left w.unread else w.unread⟩)
      ?_ ?_ ?_ ?_ ?_ inv handled
    · intro l m before closed
      exact closeInv (w := { w with life := l }) before closed
    · intro l text before
      exact errorInv (w := { w with life := l }) before text
    · intro l m before readable read
      have done := readInv (w := { w with life := l }) before read
      simpa only [show r.reads = true from readable, if_true] using done
    · intro l before quiet
      simpa only [show r.reads = false from quiet, Bool.false_eq_true, if_false] using before
    · intro l m before wrote
      exact writeInv (w := ⟨l, _, _⟩) before wrote

def Agrees (l m : LiveConnection) (answer : Session → Session) : Prop :=
  ∀ events, ∃ more, answer ⟨l.conn.state, l.inputBuffer, events, true⟩ =
    ⟨m.conn.state, m.inputBuffer, events ++ more, true⟩

theorem agreesTrans {l m o : LiveConnection} {first second : Session → Session} (a : Agrees l m first)
    (b : Agrees m o second) : Agrees l o (second ∘ first) := by
  intro events
  obtain ⟨more, same⟩ := a events
  obtain ⟨more', same'⟩ := b (events ++ more)
  exact ⟨more ++ more', by rw [Function.comp, same, same', List.append_assoc]⟩

theorem sendAgrees {l m : LiveConnection} {data : Bytes} {outcome : WriteOutcome} (ok : l.send data outcome = some m) :
    Agrees l m (·.send data) := by
  intro events
  rcases sendCases ok with ⟨connected, conn, effects, sent, rfl⟩ | ⟨gone, rfl⟩
  · have state := ConnectionLifecycle.sendInLoopState sent
    exact ⟨[.sent data], by simp [Session.send, connected, LiveConnection.effects, state]⟩
  · exact ⟨[], by simp [Session.send, gone]⟩

theorem shutdownAgrees (l : LiveConnection) : Agrees l l.shutdown (·.shutdown) := by
  intro events
  refine ⟨[.shutdown], ?_⟩
  by_cases connected : l.conn.state = .kConnected
  · simp [Session.shutdown, LiveConnection.shutdown, connected, LiveConnection.effects, setState, LiveConnection.note]
  · simp [Session.shutdown, LiveConnection.shutdown, connected]

theorem requestAgrees {l m : LiveConnection} {req : HttpRequest} {outcome : WriteOutcome}
    (ok : onRequest httpCallback l req outcome = some m) :
    Agrees l m (HttpServer.onRequest httpCallback · req) := by
  simp only [onRequest, bind, Option.bind_eq_some_iff] at ok
  obtain ⟨buf, rendered, m', sent, last⟩ := ok
  delta HttpServer.onRequest
  simp only [rendered]
  rw [← Option.some.inj last]
  split
  · exact agreesTrans (sendAgrees sent) (shutdownAgrees m')
  · exact sendAgrees sent

theorem judgeAgrees {l m : LiveConnection} {ok : Bool} {outcome : WriteOutcome} (judged : judge l ok outcome = some m) :
    Agrees l m (fun s => if ok then s else (s.send HttpServer.badRequest).shutdown) := by
  cases ok with
  | true =>
    cases Option.some.inj judged
    exact fun events => ⟨[], by simp⟩
  | false =>
    obtain ⟨m', sent, last⟩ := Option.bind_eq_some_iff.mp judged
    rw [← Option.some.inj last]
    exact agreesTrans (sendAgrees sent) (shutdownAgrees m')

theorem messageAgrees {l m : LiveConnection} {answer : Answer} (ok : onMessage httpCallback answer l = some m) :
    Agrees l m (HttpServer.onMessage httpCallback answer.receiveTime) := by
  simp only [onMessage, bind, Option.bind_eq_some_iff] at ok
  obtain ⟨⟨good, context, inputBuffer⟩, parsed, m', judged, last⟩ := ok
  intro events
  obtain ⟨more, same⟩ := judgeAgrees judged events
  simp only at same last
  simp only [HttpServer.onMessage, parsed]
  rw [same]
  split at last
  · rename_i all
    obtain ⟨more', same'⟩ := requestAgrees last (events ++ more)
    exact ⟨more ++ more', (if_pos all).trans (same'.trans (by rw [List.append_assoc]))⟩
  · rename_i some_
    cases Option.some.inj last
    exact ⟨more, by rw [if_neg some_]⟩

structure Serves (httpCallback : HttpCallback) (arrived : Bytes) (l : LiveConnection) (blocks : List Bytes) :
    Prop where
  delivered : Delivered blocks l
  owed : ∀ block ∈ blocks, ∃ close, Response httpCallback arrived close block
  kept : ∀ block ∈ blocks.dropLast, Response httpCallback arrived false block
  pending : Intact l → l.conn.state ≠ .kDisconnected → taken l ++ l.conn.outputBuffer.readable = blocks.flatten
  graceful : l.conn.state = .kDisconnecting → (Fin l ↔ l.conn.outputBuffer.readable = [])

theorem runInv {fd : Nat} {writeComplete highWater : Bool} {mark : Nat} {actions : List (Action Answer)}
    {w : Link} (ok : run (step (onMessage httpCallback)) (start fd writeComplete highWater mark) actions = some w) :
    Inv httpCallback w :=
  runInvariant stepInv (startInv ..) ok

theorem wireServes {sent : Bytes} {l : LiveConnection} {blocks : List Bytes} (wire : Wire blocks l)
    (history : History httpCallback sent l.conn.state blocks) : Serves httpCallback sent l blocks := by
  refine ⟨wireDelivered wire, history.owed, history.kept, fun intact live => ?_, fun disconnecting => ?_⟩
  · cases wire with
    | up up => exact up.flow intact
    | half half => exact half.flow intact
    | down down => exact absurd down.disconnected live
  · cases wire with
    | up up => exact absurd (disconnecting.symm.trans up.connected) (by simp)
    | half half => exact half.finished
    | down down => exact absurd (disconnecting.symm.trans down.disconnected) (by simp)

theorem httpServes {fd : Nat} {writeComplete highWater : Bool} {mark : Nat} {actions : List (Action Answer)}
    {w : Link} (ok : run (step (onMessage httpCallback)) (start fd writeComplete highWater mark) actions = some w) :
    ∃ blocks, Serves httpCallback (arrived actions) w.life blocks := by
  obtain ⟨blocks, wire, history⟩ := (runInv ok).served
  have all : w.sent = arrived actions := runArrived ok
  exact ⟨blocks, wireServes wire (all ▸ history)⟩

def noRequest : List (Action Answer) :=
  [.arrives (ascii "x\r\n"), .event ⟨{ epollin := true }, .got 9, ⟨⟨5⟩, .wrote 1, .wrote 0⟩, .wrote 0⟩]

theorem httpServesSample :
    ∃ w blocks, run (step (onMessage defaultHttpCallback)) (start 5 false false 64) noRequest = some w ∧
      taken w.life = [72] ∧ Serves defaultHttpCallback (arrived noRequest) w.life blocks := by
  have end_ : (run (step (onMessage defaultHttpCallback)) (start 5 false false 64) noRequest).map
      (fun w => taken w.life) = some [72] := by decide +kernel
  obtain ⟨w, ok, last⟩ := Option.map_eq_some_iff.mp end_
  obtain ⟨blocks, serves⟩ := httpServes ok
  exact ⟨w, blocks, ok, last, serves⟩

end TinyNetwork.HttpWire
