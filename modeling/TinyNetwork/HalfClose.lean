import TinyNetwork.OutgoingStream

/-! The half-close. shutdown() is a test of the state, a store to it and a call of
runInLoop, and other threads may stand between any two of these. shutdownInLoop looks
at the interest flag and not at the buffer; that the two agree is what makes the FIN
come after the last byte, and come at all. -/
namespace TinyNetwork.HalfClose
open Runs Buffer OutgoingStream

inductive Stage where
  | tested
  | stored
  deriving DecidableEq, Repr

/- `fins` has the content of the output buffer at each call of shutdownWrite();
`tested` and `stored` count the calls of other threads at these stages, and `queued`
the functors in the loop. -/
structure State where
  conn : TcpConnection
  fins : List Bytes
  tested : Nat
  stored : Nat
  queued : Nat
  inLoop : Option Stage
  deriving DecidableEq, Repr

inductive Action where
  | sendInLoop (data : Bytes) (outcome : WriteOutcome)
  | handleWrite (outcome : WriteOutcome)
  | test (loopThread : Bool)
  | store (loopThread : Bool)
  | finish (loopThread : Bool)
  | functor
  deriving DecidableEq, Repr

def settle (s : State) (conn : TcpConnection) (effects : List Effect) : State :=
  { s with
    conn
    fins := s.fins ++ (effects.filter (fun e => e = .shutdownWrite)).map fun _ => conn.outputBuffer.readable }

def step (s : State) : Action → Option State
  | .sendInLoop data outcome =>
      if s.inLoop.isSome then none
      else do
        let (conn, effects) ← s.conn.sendInLoop data outcome
        some (settle s conn effects)
  | .handleWrite outcome =>
      if s.inLoop.isSome then none
      else do
        let (conn, effects) ← s.conn.handleWrite outcome
        some (settle s conn effects)
  | .test true =>
      if s.inLoop.isSome then none
      else if s.conn.state = .kConnected then some { s with inLoop := some .tested }
      else some s
  | .test false =>
      if s.conn.state = .kConnected then some { s with tested := s.tested + 1 } else some s
  | .store true =>
      if s.inLoop = some .tested then
        some { s with conn := { s.conn with state := .kDisconnecting }, inLoop := some .stored }
      else none
  | .store false =>
      if 0 < s.tested then
        some { s with
          conn := { s.conn with state := .kDisconnecting }, tested := s.tested - 1, stored := s.stored + 1 }
      else none
  | .finish true =>
      if s.inLoop = some .stored then some { settle s s.conn s.conn.shutdownInLoop with inLoop := none }
      else none
  | .finish false =>
      if 0 < s.stored then some { s with stored := s.stored - 1, queued := s.queued + 1 } else none
  | .functor =>
      if s.inLoop.isSome ∨ s.queued = 0 then none
      else some { settle s s.conn s.conn.shutdownInLoop with queued := s.queued - 1 }

def start (fd : Nat) (writeComplete highWater : Bool) (mark : Nat) : State :=
  ⟨(established fd writeComplete highWater mark).conn, [], 0, 0, 0, none⟩

theorem shutdownSteps {s : State} (idle : s.inLoop = none) (connected : s.conn.state = .kConnected) :
    run step s [.test true, .store true, .finish true] =
      some (settle s s.conn.shutdown.1 s.conn.shutdown.2) := by
  simp [run, step, idle, connected, settle, TcpConnection.shutdown]

def Announced (s : State) : Prop := 0 < s.stored ∨ 0 < s.queued ∨ s.inLoop = some .stored

structure Inv (s : State) : Prop where
  synced : Synced s.conn
  clean : ∀ unsent ∈ s.fins, unsent = []
  pending : s.conn.state = .kDisconnecting →
    Announced s ∨ s.conn.outputBuffer.readable ≠ [] ∨ s.fins ≠ []

structure Keeps (c d : TcpConnection) (effects : List Effect) : Prop where
  synced : Synced d
  state : d.state = c.state
  clean : .shutdownWrite ∈ effects → d.outputBuffer.readable = []
  pending : d.state = .kDisconnecting → c.outputBuffer.readable ≠ [] →
    d.outputBuffer.readable ≠ [] ∨ .shutdownWrite ∈ effects

theorem directWriteQuiet {c : TcpConnection} {data : Bytes} {outcome : WriteOutcome} {nwrote : Nat}
    {fault : Bool} {effects : List Effect} (ok : c.directWrite data outcome = some (nwrote, fault, effects)) :
    .shutdownWrite ∉ effects := by
  cases outcome with
  | wrote n =>
    simp only [TcpConnection.directWrite] at ok
    split at ok <;> try contradiction
    cases Option.some.inj ok
    split <;> simp
  | failed errno =>
    simp only [TcpConnection.directWrite] at ok
    cases Option.some.inj ok
    split <;> simp

theorem firstWriteQuiet {c : TcpConnection} {data : Bytes} {outcome : WriteOutcome} {nwrote : Nat}
    {fault : Bool} {effects : List Effect} (ok : c.firstWrite data outcome = some (nwrote, fault, effects)) :
    .shutdownWrite ∉ effects := by
  unfold TcpConnection.firstWrite at ok
  split at ok
  · exact directWriteQuiet ok
  · cases Option.some.inj ok
    simp

theorem bufferRestKeeps {c d : TcpConnection} (synced : Synced c) {rest : Bytes} (nonempty : rest ≠ [])
    {effects all : List Effect} (quiet : .shutdownWrite ∉ effects)
    (ok : c.bufferRest rest effects = some (d, all)) : Keeps c d all := by
  simp only [TcpConnection.bufferRest, bind, Option.bind_eq_some_iff] at ok
  obtain ⟨out, grown, last⟩ := ok
  have added := appendedAny synced.valid grown
  cases Option.some.inj last
  have content : out.readable ≠ [] := by
    rw [added.content]
    simp [nonempty]
  have up : (if c.channel.isWriting then c.channel else c.channel.enableWriting).isWriting = true := by
    split
    · assumption
    · exact Channel.enableWritingWriting _
  refine ⟨⟨synced.live, added.valid, ?_⟩, rfl, fun fin => ?_, fun _ _ => .inl content⟩
  · simp [up, content]
  · exfalso
    rcases List.mem_append.mp fin with old | new
    · exact quiet old
    · split at new <;> simp at new

theorem sendInLoopKeeps {c d : TcpConnection} (synced : Synced c) {data : Bytes} {outcome : WriteOutcome}
    {effects : List Effect} (ok : c.sendInLoop data outcome = some (d, effects)) : Keeps c d effects := by
  simp only [TcpConnection.sendInLoop, if_neg synced.live, bind, Option.bind_eq_some_iff] at ok
  obtain ⟨⟨nwrote, fault, first⟩, written, ok⟩ := ok
  have quiet := firstWriteQuiet written
  split at ok
  · rename_i keep
    simp only [Bool.and_eq_true, decide_eq_true_eq] at keep
    refine bufferRestKeeps synced (fun empty => ?_) quiet ok
    have length := congrArg List.length empty
    simp only [List.length_drop, List.length_nil] at length
    omega
  · cases Option.some.inj ok
    exact ⟨synced, rfl, fun fin => absurd fin quiet, fun _ queued => .inl queued⟩

theorem shutdownInLoopFin {c : TcpConnection} (synced : Synced c) :
    (.shutdownWrite ∈ c.shutdownInLoop ↔ c.outputBuffer.readable = []) := by
  have flag := synced.flag
  unfold TcpConnection.shutdownInLoop
  split
  · rename_i writing
    simpa using flag.mp writing
  · rename_i quiet
    simp only [List.mem_singleton, true_iff]
    by_contra queued
    exact quiet (flag.mpr queued)

theorem drainedKeeps {c : TcpConnection} (synced : Synced c) (n : Nat) (writing : c.channel.isWriting = true) :
    Keeps c (c.drained n).1 (c.drained n).2 := by
  have synced' := (drainedSound synced n writing).1
  have total := readableBytesLength (retrieveValid synced.valid n)
  simp only [TcpConnection.drained] at synced' ⊢
  split at synced'
  · rename_i none_
    have empty : (c.outputBuffer.retrieve n).readable = [] := List.eq_nil_of_length_eq_zero (total ▸ none_)
    rw [if_pos none_]
    refine ⟨synced', rfl, fun _ => empty, fun disconnecting _ => .inr (List.mem_append_right _ ?_)⟩
    rw [if_pos disconnecting]
    exact (shutdownInLoopFin synced').mpr empty
  · rename_i more
    rw [if_neg more]
    refine ⟨synced', rfl, fun fin => by simp at fin, fun _ _ => .inl fun empty => more ?_⟩
    rw [total, empty, List.length_nil]

theorem handleWriteKeeps {c d : TcpConnection} (synced : Synced c) {outcome : WriteOutcome}
    {effects : List Effect} (ok : c.handleWrite outcome = some (d, effects)) : Keeps c d effects := by
  unfold TcpConnection.handleWrite at ok
  split at ok
  · rename_i writing
    cases outcome with
    | wrote n =>
      simp only at ok
      split at ok <;> try contradiction
      split at ok
      · have keeps := drainedKeeps synced n writing
        cases Option.some.inj ok
        exact ⟨keeps.synced, keeps.state, fun fin => keeps.clean (by simpa using fin),
          fun disconnecting queued => (keeps.pending disconnecting queued).imp_right (List.mem_cons_of_mem _)⟩
      · cases Option.some.inj ok
        exact ⟨synced, rfl, fun fin => by simp at fin, fun _ queued => .inl queued⟩
    | failed errno =>
      cases Option.some.inj ok
      exact ⟨synced, rfl, fun fin => by simp at fin, fun _ queued => .inl queued⟩
  · cases Option.some.inj ok
    exact ⟨synced, rfl, fun fin => by simp at fin, fun _ queued => .inl queued⟩

theorem shutdownInLoopKeeps {c : TcpConnection} (synced : Synced c) : Keeps c c c.shutdownInLoop :=
  ⟨synced, rfl, (shutdownInLoopFin synced).mp, fun _ queued => .inl queued⟩

theorem settledFins {s : State} {conn : TcpConnection} {effects : List Effect}
    (clean : ∀ unsent ∈ s.fins, unsent = [])
    (empty : .shutdownWrite ∈ effects → conn.outputBuffer.readable = []) :
    ∀ unsent ∈ (settle s conn effects).fins, unsent = [] := by
  intro unsent member
  rcases List.mem_append.mp member with old | new
  · exact clean unsent old
  · obtain ⟨e, kept, rfl⟩ := List.mem_map.mp new
    obtain ⟨inside, fin⟩ := List.mem_filter.mp kept
    exact empty (of_decide_eq_true fin ▸ inside)

theorem settledSome {s : State} {conn : TcpConnection} {effects : List Effect}
    (fin : .shutdownWrite ∈ effects) : (settle s conn effects).fins ≠ [] := by
  refine List.append_ne_nil_of_right_ne_nil _ fun none_ => ?_
  have nothing := List.filter_eq_nil_iff.mp (List.map_eq_nil_iff.mp none_)
  exact nothing .shutdownWrite fin (by simp)

theorem settleInv {s : State} {conn : TcpConnection} {effects : List Effect} (inv : Inv s)
    (keeps : Keeps s.conn conn effects) : Inv (settle s conn effects) := by
  refine ⟨keeps.synced, settledFins inv.clean keeps.clean, fun disconnecting => ?_⟩
  rcases inv.pending (keeps.state ▸ disconnecting) with announced | queued | done
  · exact .inl announced
  · rcases keeps.pending disconnecting queued with still | fin
    · exact .inr (.inl still)
    · exact .inr (.inr (settledSome fin))
  · exact .inr (.inr (List.append_ne_nil_of_left_ne_nil done _))

theorem ranShutdownInLoop {s : State} (inv : Inv s) :
    (settle s s.conn s.conn.shutdownInLoop).conn.outputBuffer.readable ≠ [] ∨
      (settle s s.conn s.conn.shutdownInLoop).fins ≠ [] := by
  by_cases empty : s.conn.outputBuffer.readable = []
  · exact .inr (settledSome ((shutdownInLoopFin inv.synced).mpr empty))
  · exact .inl empty

theorem stepInv {s t : State} {a : Action} (inv : Inv s) (ok : step s a = some t) : Inv t := by
  cases a with
  | sendInLoop data outcome =>
    simp only [step] at ok
    split at ok <;> try contradiction
    simp only [bind, Option.bind_eq_some_iff] at ok
    obtain ⟨⟨conn, effects⟩, sent, last⟩ := ok
    rw [← Option.some.inj last]
    exact settleInv inv (sendInLoopKeeps inv.synced sent)
  | handleWrite outcome =>
    simp only [step] at ok
    split at ok <;> try contradiction
    simp only [bind, Option.bind_eq_some_iff] at ok
    obtain ⟨⟨conn, effects⟩, wrote, last⟩ := ok
    rw [← Option.some.inj last]
    exact settleInv inv (handleWriteKeeps inv.synced wrote)
  | test loopThread =>
    cases loopThread with
    | true =>
      simp only [step] at ok
      split at ok <;> try contradiction
      split at ok
      · rename_i connected
        rw [← Option.some.inj ok]
        exact ⟨inv.synced, inv.clean, fun disconnecting => by simp [connected] at disconnecting⟩
      · rw [← Option.some.inj ok]
        exact inv
    | false =>
      simp only [step] at ok
      split at ok
      · rw [← Option.some.inj ok]
        exact ⟨inv.synced, inv.clean, inv.pending⟩
      · rw [← Option.some.inj ok]
        exact inv
  | store loopThread =>
    have synced : Synced { s.conn with state := .kDisconnecting } :=
      ⟨by simp, inv.synced.valid, inv.synced.flag⟩
    cases loopThread with
    | true =>
      simp only [step] at ok
      split at ok <;> try contradiction
      rw [← Option.some.inj ok]
      exact ⟨synced, inv.clean, fun _ => .inl (.inr (.inr rfl))⟩
    | false =>
      simp only [step] at ok
      split at ok <;> try contradiction
      rw [← Option.some.inj ok]
      exact ⟨synced, inv.clean, fun _ => .inl (.inl (Nat.succ_pos _))⟩
  | finish loopThread =>
    cases loopThread with
    | true =>
      simp only [step] at ok
      split at ok <;> try contradiction
      rw [← Option.some.inj ok]
      have kept := settleInv inv (shutdownInLoopKeeps inv.synced)
      exact ⟨kept.synced, kept.clean, fun _ => .inr (ranShutdownInLoop inv)⟩
    | false =>
      simp only [step] at ok
      split at ok <;> try contradiction
      rw [← Option.some.inj ok]
      exact ⟨inv.synced, inv.clean, fun _ => .inl (.inr (.inl (Nat.succ_pos _)))⟩
  | functor =>
    simp only [step] at ok
    split at ok <;> try contradiction
    rw [← Option.some.inj ok]
    have kept := settleInv inv (shutdownInLoopKeeps inv.synced)
    exact ⟨kept.synced, kept.clean, fun _ => .inr (ranShutdownInLoop inv)⟩

theorem startInv (fd : Nat) (writeComplete highWater : Bool) (mark : Nat) :
    Inv (start fd writeComplete highWater mark) := by
  refine ⟨⟨by simp [start, established], freshValid, ?_⟩, by simp [start], by simp [start, established]⟩
  simp [start, established]

structure Graceful (s : State) : Prop where
  clean : ∀ unsent ∈ s.fins, unsent = []
  finished : s.conn.state = .kDisconnecting → s.conn.outputBuffer.readable = [] →
    s.tested = 0 → s.stored = 0 → s.inLoop = none → s.queued = 0 → s.fins ≠ []

theorem halfCloseGraceful {fd : Nat} {writeComplete highWater : Bool} {mark : Nat} {actions : List Action}
    {s : State} (ok : run step (start fd writeComplete highWater mark) actions = some s) : Graceful s := by
  have inv := runInvariant stepInv (startInv fd writeComplete highWater mark) ok
  refine ⟨inv.clean, fun disconnecting empty _ stored idle queued => ?_⟩
  rcases inv.pending disconnecting with announced | unsent | done
  · simp [Announced, stored, queued, idle] at announced
  · exact absurd empty unsent
  · exact done

def sampleActions : List Action :=
  [.sendInLoop [1, 2, 3] (.wrote 1), .test false, .store false, .finish false, .functor,
    .handleWrite (.wrote 1), .handleWrite (.wrote 1)]

theorem halfCloseSample :
    ∃ s, run step (start 5 true false 64) sampleActions = some s ∧ s.fins = [[]] ∧ Graceful s := by
  have fins : (run step (start 5 true false 64) sampleActions).map State.fins = some [[]] := by decide +kernel
  obtain ⟨s, ok, last⟩ := Option.map_eq_some_iff.mp fins
  exact ⟨s, ok, last, halfCloseGraceful ok⟩

end TinyNetwork.HalfClose
