import TinyNetwork.TcpConnection
import TinyNetwork.Runs

/-! The outgoing byte stream of an established connection. A world is the
connection, everything it has done so far, and the bytes handed to sendInLoop.
handleClose and connectDestroyed are not steps here; shutdown() is, since it only
announces the half-close. -/
namespace TinyNetwork.OutgoingStream
open Runs Words Buffer

structure World where
  conn : TcpConnection
  trace : List Effect
  handed : Bytes
  deriving DecidableEq, Repr

inductive Action where
  | sendInLoop (data : Bytes) (outcome : WriteOutcome)
  | handleWrite (outcome : WriteOutcome)
  | shutdown
  deriving DecidableEq, Repr

def step (w : World) : Action → Option World
  | .sendInLoop data outcome => do
      let (c, effects) ← w.conn.sendInLoop data outcome
      some ⟨c, w.trace ++ effects, w.handed ++ data⟩
  | .handleWrite outcome => do
      let (c, effects) ← w.conn.handleWrite outcome
      some ⟨c, w.trace ++ effects, w.handed⟩
  | .shutdown => some ⟨w.conn.shutdown.1, w.trace ++ w.conn.shutdown.2, w.handed⟩

def Effect.bytes : Effect → Bytes
  | .accepted data => data
  | _ => []

def accepted (trace : List Effect) : Bytes := trace.flatMap Effect.bytes

def Broken (trace : List Effect) : Prop :=
  .writeFailed .epipe ∈ trace ∨ .writeFailed .econnreset ∈ trace

@[simp] theorem acceptedAppend (a b : List Effect) : accepted (a ++ b) = accepted a ++ accepted b :=
  List.flatMap_append

@[simp] theorem acceptedNil : accepted [] = [] := rfl

@[simp] theorem acceptedCons (e : Effect) (rest : List Effect) :
    accepted (e :: rest) = Effect.bytes e ++ accepted rest := rfl

theorem brokenAppend {a b : List Effect} : Broken (a ++ b) ↔ Broken a ∨ Broken b := by
  simp only [Broken, List.mem_append]
  tauto

def established (fd : Nat) (writeComplete highWater : Bool) (mark : Nat) : World :=
  ⟨⟨.kConnected, (Channel.make fd).enableReading, writeComplete, highWater, mark, Buffer.fresh⟩, [], []⟩

/- What holds of a connection between calls, whatever the writes did: the channel
is interested in writing exactly while bytes are queued. -/
structure Synced (c : TcpConnection) : Prop where
  live : c.state ≠ .kDisconnected
  valid : Valid c.outputBuffer
  flag : c.channel.isWriting = true ↔ c.outputBuffer.readable ≠ []

theorem syncedLength {c : TcpConnection} (synced : Synced c) :
    c.outputBuffer.readableBytes = c.outputBuffer.readable.length :=
  readableBytesLength synced.valid

theorem bufferRestSound {c d : TcpConnection} (synced : Synced c) {rest : Bytes} (nonempty : rest ≠ [])
    {effects all : List Effect} (ok : c.bufferRest rest effects = some (d, all)) :
    Synced d ∧ d.outputBuffer.readable = c.outputBuffer.readable ++ rest ∧
      accepted all = accepted effects ∧ (Broken all → Broken effects) := by
  simp only [TcpConnection.bufferRest, bind, Option.bind_eq_some_iff] at ok
  obtain ⟨out, grown, last⟩ := ok
  obtain ⟨kept, content, _, _⟩ := appendedAny synced.valid grown
  cases Option.some.inj last
  have up : (if c.channel.isWriting then c.channel else c.channel.enableWriting).isWriting = true := by
    split
    · assumption
    · exact Channel.enableWritingWriting _
  refine ⟨⟨synced.live, kept, ?_⟩, content, ?_, ?_⟩
  · simp [up, content, nonempty]
  · split <;> simp [Effect.bytes]
  · rw [brokenAppend]
    split <;> simp [Broken]

theorem directWriteSound {c : TcpConnection} {data : Bytes} {outcome : WriteOutcome}
    {nwrote : Nat} {fault : Bool} {effects : List Effect}
    (ok : c.directWrite data outcome = some (nwrote, fault, effects)) :
    accepted effects = data.take nwrote ∧ (fault = true ↔ Broken effects) := by
  cases outcome with
  | wrote n =>
    simp only [TcpConnection.directWrite] at ok
    split at ok <;> try contradiction
    cases Option.some.inj ok
    constructor
    · split <;> simp [Effect.bytes]
    · split <;> simp [Broken]
  | failed errno =>
    simp only [TcpConnection.directWrite] at ok
    cases Option.some.inj ok
    constructor
    · split <;> simp [Effect.bytes]
    · cases errno <;> simp [Broken]

theorem sendInLoopSound {c d : TcpConnection} (synced : Synced c) {data : Bytes}
    {outcome : WriteOutcome} {effects : List Effect} (ok : c.sendInLoop data outcome = some (d, effects)) :
    Synced d ∧ (¬ Broken effects →
      accepted effects ++ d.outputBuffer.readable = c.outputBuffer.readable ++ data) := by
  simp only [TcpConnection.sendInLoop, if_neg synced.live, bind, Option.bind_eq_some_iff] at ok
  obtain ⟨⟨nwrote, fault, first⟩, written, ok⟩ := ok
  have front : accepted first = data.take nwrote ∧ (fault = true ↔ Broken first) ∧
      (c.outputBuffer.readable ≠ [] → data.take nwrote = []) := by
    unfold TcpConnection.firstWrite at written
    split at written
    · rename_i direct
      obtain ⟨taken, gone⟩ := directWriteSound written
      simp only [Bool.and_eq_true, beq_iff_eq, syncedLength synced] at direct
      exact ⟨taken, gone, fun queued => absurd (List.eq_nil_of_length_eq_zero direct.2) queued⟩
    · cases Option.some.inj written
      simp [Broken]
  obtain ⟨taken, gone, behind⟩ := front
  -- either nothing was queued before, or the kernel got nothing of the data
  have order : data.take nwrote ++ (c.outputBuffer.readable ++ data.drop nwrote) =
      c.outputBuffer.readable ++ data := by
    by_cases queued : c.outputBuffer.readable = []
    · simp [queued]
    · rw [behind queued, List.nil_append]
      have whole := List.take_append_drop nwrote data
      rw [behind queued, List.nil_append] at whole
      rw [whole]
  split at ok
  · rename_i keep
    simp only [Bool.and_eq_true, Bool.not_eq_true', decide_eq_true_eq] at keep
    have nonempty : data.drop nwrote ≠ [] := by
      intro empty
      have := congrArg List.length empty
      simp only [List.length_drop, List.length_nil] at this
      omega
    obtain ⟨synced', content, same, _⟩ := bufferRestSound synced nonempty ok
    exact ⟨synced', fun _ => by rw [same, taken, content, order]⟩
  · rename_i done
    cases Option.some.inj ok
    refine ⟨synced, fun intact => ?_⟩
    have whole : data.drop nwrote = [] := by
      have alive : fault = false := by
        cases fault
        · rfl
        · exact absurd (gone.mp rfl) intact
      simp only [alive, Bool.not_false, Bool.true_and, decide_eq_true_eq] at done
      exact List.drop_eq_nil_of_le (by omega)
    rw [taken, ← order, whole, List.append_nil]

theorem shutdownInLoopSound (c : TcpConnection) :
    accepted c.shutdownInLoop = [] ∧ ¬ Broken c.shutdownInLoop := by
  unfold TcpConnection.shutdownInLoop
  split <;> simp [Effect.bytes, Broken]

theorem shutdownSound {c : TcpConnection} (synced : Synced c) :
    Synced c.shutdown.1 ∧ c.shutdown.1.outputBuffer = c.outputBuffer ∧
      accepted c.shutdown.2 = [] := by
  unfold TcpConnection.shutdown
  split
  · exact ⟨⟨by simp, synced.valid, synced.flag⟩, rfl, (shutdownInLoopSound _).1⟩
  · exact ⟨synced, rfl, rfl⟩

theorem drainedSound {c : TcpConnection} (synced : Synced c) (n : Nat)
    (writing : c.channel.isWriting = true) :
    Synced (c.drained n).1 ∧
      (c.drained n).1.outputBuffer.readable = c.outputBuffer.readable.drop n ∧
      accepted (c.drained n).2 = [] := by
  have kept := retrieveValid synced.valid n
  have content := retrieveReadable synced.valid n
  have total := readableBytesLength kept
  simp only [TcpConnection.drained]
  split
  · rename_i empty
    rw [total] at empty
    refine ⟨⟨synced.live, kept, ?_⟩, content, ?_⟩
    · simp [List.eq_nil_of_length_eq_zero empty]
    · rw [acceptedAppend]
      have finish := (shutdownInLoopSound
        { c with outputBuffer := c.outputBuffer.retrieve n, channel := c.channel.disableWriting }).1
      split <;> split <;> simp [Effect.bytes, finish]
  · rename_i more
    rw [total] at more
    refine ⟨⟨synced.live, kept, ?_⟩, content, rfl⟩
    simp only [writing, true_iff]
    intro empty
    simp [empty] at more

theorem handleWriteSound {c d : TcpConnection} (synced : Synced c) {outcome : WriteOutcome}
    {effects : List Effect} (ok : c.handleWrite outcome = some (d, effects)) :
    Synced d ∧ accepted effects ++ d.outputBuffer.readable = c.outputBuffer.readable := by
  unfold TcpConnection.handleWrite at ok
  split at ok
  · rename_i writing
    cases outcome with
    | wrote n =>
      simp only at ok
      split at ok <;> try contradiction
      split at ok
      · obtain ⟨synced', content, nothing⟩ := drainedSound synced n writing
        cases Option.some.inj ok
        refine ⟨synced', ?_⟩
        rw [acceptedCons, nothing, content, Effect.bytes, List.append_nil, List.take_append_drop]
      · rename_i zero
        have none_ : n = 0 := by omega
        cases Option.some.inj ok
        exact ⟨synced, by simp [Effect.bytes, none_]⟩
    | failed errno =>
      cases Option.some.inj ok
      exact ⟨synced, by simp [Effect.bytes]⟩
  · cases Option.some.inj ok
    exact ⟨synced, by simp [Effect.bytes]⟩

structure Inv (w : World) : Prop where
  synced : Synced w.conn
  stream : ¬ Broken w.trace → accepted w.trace ++ w.conn.outputBuffer.readable = w.handed

def Small : Action → Prop
  | .sendInLoop data _ => data.length < intLimit
  | _ => True

theorem stepInv {w t : World} {a : Action} (inv : Inv w) (ok : step w a = some t) : Inv t := by
  cases a with
  | sendInLoop data outcome =>
    simp only [step, bind, Option.bind_eq_some_iff] at ok
    obtain ⟨⟨d, effects⟩, sent, last⟩ := ok
    obtain ⟨synced, content⟩ := sendInLoopSound inv.synced sent
    cases Option.some.inj last
    refine ⟨synced, fun intact => ?_⟩
    rw [brokenAppend, not_or] at intact
    calc accepted (w.trace ++ effects) ++ d.outputBuffer.readable
        = accepted w.trace ++ (accepted effects ++ d.outputBuffer.readable) := by simp
      _ = accepted w.trace ++ (w.conn.outputBuffer.readable ++ data) := by rw [content intact.2]
      _ = w.handed ++ data := by rw [← List.append_assoc, inv.stream intact.1]
  | handleWrite outcome =>
    simp only [step, bind, Option.bind_eq_some_iff] at ok
    obtain ⟨⟨d, effects⟩, drained, last⟩ := ok
    obtain ⟨synced, content⟩ := handleWriteSound inv.synced drained
    cases Option.some.inj last
    refine ⟨synced, fun intact => ?_⟩
    rw [brokenAppend, not_or] at intact
    rw [acceptedAppend, List.append_assoc, content, inv.stream intact.1]
  | shutdown =>
    obtain ⟨synced, same, nothing⟩ := shutdownSound inv.synced
    cases Option.some.inj ok
    refine ⟨synced, fun intact => ?_⟩
    rw [brokenAppend, not_or] at intact
    rw [acceptedAppend, nothing, same, List.append_nil, inv.stream intact.1]

theorem establishedInv (fd : Nat) (writeComplete highWater : Bool) (mark : Nat) :
    Inv (established fd writeComplete highWater mark) :=
  ⟨⟨by simp [established], freshValid, by simp [established]⟩, by simp [established]⟩

theorem runInv {fd : Nat} {writeComplete highWater : Bool} {mark : Nat} {actions : List Action}
    {w : World} (ok : run step (established fd writeComplete highWater mark) actions = some w) : Inv w :=
  runInvariant stepInv (establishedInv ..) ok

def handedBy : List Action → Bytes
  | [] => []
  | .sendInLoop data _ :: rest => data ++ handedBy rest
  | _ :: rest => handedBy rest

theorem runHanded {w t : World} {actions : List Action} (ok : run step w actions = some t) :
    t.handed = w.handed ++ handedBy actions := by
  induction actions generalizing w with
  | nil => cases Option.some.inj ok; simp [handedBy]
  | cons a rest ih =>
    obtain ⟨u, first, later⟩ := runCons.mp ok
    rw [ih later]
    cases a with
    | sendInLoop data outcome =>
      simp only [step, bind, Option.bind_eq_some_iff] at first
      obtain ⟨_, _, last⟩ := first
      cases Option.some.inj last
      simp [handedBy]
    | handleWrite outcome =>
      simp only [step, bind, Option.bind_eq_some_iff] at first
      obtain ⟨_, _, last⟩ := first
      cases Option.some.inj last
      rfl
    | shutdown => cases Option.some.inj first; rfl

/- ::write never reports more than it was given. -/
def Possible (w : World) : Action → Prop
  | .sendInLoop data (.wrote n) => n ≤ data.length
  | .handleWrite (.wrote n) => n ≤ w.conn.outputBuffer.readableBytes
  | _ => True

theorem directWriteDone {c : TcpConnection} {data : Bytes} {outcome : WriteOutcome}
    (possible : ∀ n, outcome = .wrote n → n ≤ data.length) :
    c.directWrite data outcome ≠ none := by
  cases outcome with
  | wrote n => simp [TcpConnection.directWrite, possible n rfl]
  | failed errno => simp [TcpConnection.directWrite]

theorem stepStuck {w : World} {a : Action} (inv : Inv w) (small : Small a) (possible : Possible w a)
    (stuck : step w a = none) :
    ∃ data outcome, a = .sendInLoop data outcome ∧
      maxSize < w.conn.outputBuffer.writerIndex + data.length := by
  cases a with
  | sendInLoop data outcome =>
    refine ⟨data, outcome, rfl, ?_⟩
    have possible' : ∀ n, outcome = .wrote n → n ≤ data.length := by
      rintro n rfl
      exact possible
    simp only [step, bind, Option.bind_eq_none_iff, TcpConnection.sendInLoop,
      if_neg inv.synced.live] at stuck
    have first : w.conn.firstWrite data outcome ≠ none := by
      unfold TcpConnection.firstWrite
      split
      · exact directWriteDone possible'
      · simp
    obtain ⟨⟨nwrote, fault, effects⟩, written⟩ := Option.ne_none_iff_exists'.mp first
    simp only [written, Option.bind_some] at stuck
    split at stuck
    · have rest : (data.drop nwrote).length < intLimit := by
        rw [List.length_drop]
        change data.length < intLimit at small
        omega
      rcases appendSpec inv.synced.valid rest with ⟨out, ok, _⟩ | ⟨_, beyond⟩
      · simp [TcpConnection.bufferRest, ok] at stuck
      · rw [List.length_drop] at beyond; omega
    · simp at stuck
  | handleWrite outcome =>
    exfalso
    simp only [step, bind, TcpConnection.handleWrite] at stuck
    split at stuck
    · cases outcome with
      | wrote n =>
        have fits : n ≤ w.conn.outputBuffer.readableBytes := possible
        simp only [if_pos fits] at stuck
        split at stuck <;> simp at stuck
      | failed errno => simp at stuck
    · simp at stuck
  | shutdown => simp [step] at stuck

theorem outgoingStreamIntact {fd : Nat} {writeComplete highWater : Bool} {mark : Nat}
    {actions : List Action} {w : World} (ok : run step (established fd writeComplete highWater mark) actions = some w) :
    (¬ Broken w.trace →
      accepted w.trace ++ w.conn.outputBuffer.readable = handedBy actions) ∧
    (w.conn.channel.isWriting = true ↔ w.conn.outputBuffer.readable ≠ []) ∧
    ∀ a, Small a → Possible w a → step w a = none →
      ∃ data outcome, a = .sendInLoop data outcome ∧
        maxSize < w.conn.outputBuffer.writerIndex + data.length := by
  have inv := runInv ok
  refine ⟨fun intact => ?_, inv.synced.flag, fun a => stepStuck inv⟩
  have handed := runHanded ok
  rw [inv.stream intact, handed]
  rfl

def sampleActions : List Action :=
  [.sendInLoop [1, 2, 3] (.wrote 1), .handleWrite (.failed .ewouldblock),
    .sendInLoop [4] (.wrote 0), .handleWrite (.wrote 1)]

theorem outgoingStreamSample :
    ∃ w, run step (established 5 true false 64) sampleActions = some w ∧
      accepted w.trace ++ w.conn.outputBuffer.readable = [1, 2, 3, 4] ∧
      w.conn.channel.isWriting = true := by
  have trace : (run step (established 5 true false 64) sampleActions).map World.trace =
      some [.accepted [1], .writeFailed .ewouldblock,
        .logError "TcpConnection::handleWrite() failed", .accepted [2]] := by decide +kernel
  obtain ⟨w, ok, last⟩ := Option.map_eq_some_iff.mp trace
  have intact := outgoingStreamIntact ok
  have stream := intact.1 (by simp [last, Broken])
  refine ⟨w, ok, stream, intact.2.1.mpr ?_⟩
  intro empty
  simp [last, empty, Effect.bytes, sampleActions, handedBy] at stream

end TinyNetwork.OutgoingStream
