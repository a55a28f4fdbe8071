import TinyNetwork.OutgoingStream

/-! The two signals of a connection to whoever sends on it. The high water mark callback is
queued when the output buffer comes up to the mark, the write complete callback when it
has become empty. A sender that stops on the one until the other comes holds a bounded
number of bytes back, and is never left waiting without bytes to be written. -/
namespace TinyNetwork.Backpressure
open Runs Buffer OutgoingStream

inductive Signal where
  | highWaterMark
  | writeComplete
  deriving DecidableEq, Repr

def signal : Effect → Option Signal
  | .queueHighWaterMark _ => some .highWaterMark
  | .queueWriteComplete => some .writeComplete
  | _ => none

def signals (trace : List Effect) : List Signal := trace.filterMap signal

@[simp] theorem signalsAppend (first second : List Effect) :
    signals (first ++ second) = signals first ++ signals second := List.filterMap_append

/- `called` of the queued callbacks have been called; `late` counts the bytes handed over
behind the last sendInLoop that queued one. -/
structure State where
  world : World
  called : Nat
  late : Nat
  deriving DecidableEq, Repr

inductive Action where
  | sendInLoop (data : Bytes) (outcome : WriteOutcome)
  | handleWrite (outcome : WriteOutcome)
  | shutdown
  | functor
  deriving DecidableEq, Repr

def raised (s : State) : Bool := (signals s.world.trace).getLast? == some .highWaterMark

def paused (s : State) : Bool := ((signals s.world.trace).take s.called).getLast? == some .highWaterMark

def step (s : State) : Action → Option State
  | .sendInLoop data outcome => do
      let world ← OutgoingStream.step s.world (.sendInLoop data outcome)
      let risen := (signals world.trace).length ≠ (signals s.world.trace).length
      some { s with world, late := if risen then 0 else s.late + data.length }
  | .handleWrite outcome => do
      let world ← OutgoingStream.step s.world (.handleWrite outcome)
      some { s with world }
  | .shutdown => do
      let world ← OutgoingStream.step s.world .shutdown
      some { s with world }
  | .functor =>
      if s.called < (signals s.world.trace).length then some { s with called := s.called + 1 } else none

def start (fd mark : Nat) : State := ⟨established fd true true mark, 0, 0⟩

/- The sender hands over at most `chunk` bytes at a time, nothing while it is paused, and no
more than `slack` bytes between a high water mark and its callback. -/
def Polite (chunk slack : Nat) (s : State) : Action → Prop
  | .sendInLoop data _ =>
      data.length ≤ chunk ∧ paused s = false ∧ (raised s = true → s.late + data.length ≤ slack)
  | _ => True

instance (chunk slack : Nat) (s : State) (a : Action) : Decidable (Polite chunk slack s a) := by
  cases a <;> unfold Polite <;> infer_instance

structure Config (c d : TcpConnection) : Prop where
  mark : d.highWaterMark = c.highWaterMark
  high : d.highWaterMarkCallback = c.highWaterMarkCallback
  complete : d.writeCompleteCallback = c.writeCompleteCallback

inductive Signals (c d : TcpConnection) (effects : List Effect) (more : Nat) : Prop where
  | quiet (none_ : signals effects = []) (length : d.outputBuffer.readable.length ≤ c.outputBuffer.readable.length + more)
      (below : d.outputBuffer.readable.length < c.highWaterMark ∨ c.highWaterMark ≤ c.outputBuffer.readable.length)
      (kept : d.outputBuffer.readable = [] → c.outputBuffer.readable = [])
  | high (one : signals effects = [.highWaterMark]) (before : c.outputBuffer.readable.length < c.highWaterMark)
      (after : c.highWaterMark ≤ d.outputBuffer.readable.length)
      (length : d.outputBuffer.readable.length ≤ c.outputBuffer.readable.length + more)
  | complete (one : signals effects = [.writeComplete]) (empty : d.outputBuffer.readable = [])

section Calls
variable {c d : TcpConnection} {data rest : Bytes} {outcome : WriteOutcome} {effects all : List Effect}

theorem bufferRestSignals (synced : Synced c) (nonempty : rest ≠ []) (callback : c.highWaterMarkCallback = true)
    (ok : c.bufferRest rest effects = some (d, all)) :
    Config c d ∧ d.outputBuffer.readable.length = c.outputBuffer.readable.length + rest.length ∧
      signals all = signals effects ++
        if c.highWaterMark ≤ c.outputBuffer.readable.length + rest.length ∧
          c.outputBuffer.readable.length < c.highWaterMark then [.highWaterMark] else [] := by
  obtain ⟨-, content, -⟩ := bufferRestSound synced nonempty ok
  simp only [TcpConnection.bufferRest, bind, Option.bind_eq_some_iff, syncedLength synced] at ok
  obtain ⟨out, -, last⟩ := ok
  cases Option.some.inj last
  refine ⟨⟨rfl, rfl, rfl⟩, by rw [content, List.length_append], ?_⟩
  rw [signalsAppend]
  simp only [callback, and_true]
  split <;> rfl

theorem directWriteSignals {nwrote : Nat} {fault : Bool}
    (ok : c.directWrite data outcome = some (nwrote, fault, effects)) :
    signals effects = [] ∨ signals effects = [.writeComplete] ∧ data.length ≤ nwrote := by
  cases outcome with
  | wrote n =>
    obtain ⟨-, same⟩ := Option.ite_none_right_eq_some.mp ok
    cases Option.some.inj same
    split
    · rename_i complete
      exact .inr ⟨rfl, Nat.le_of_sub_eq_zero complete.1⟩
    · exact .inl rfl
  | failed errno =>
    cases Option.some.inj ok
    refine .inl ?_
    split <;> rfl

theorem sendInLoopSignals (synced : Synced c) (callback : c.highWaterMarkCallback = true)
    (ok : c.sendInLoop data outcome = some (d, effects)) : Config c d ∧ Signals c d effects data.length := by
  simp only [TcpConnection.sendInLoop, if_neg synced.live, bind, Option.bind_eq_some_iff] at ok
  obtain ⟨⟨nwrote, fault, first⟩, written, ok⟩ := ok
  have front : signals first = [] ∨
      signals first = [.writeComplete] ∧ data.length ≤ nwrote ∧ c.outputBuffer.readable = [] := by
    unfold TcpConnection.firstWrite at written
    split at written
    · rename_i direct
      simp only [Bool.and_eq_true, beq_iff_eq, syncedLength synced] at direct
      exact (directWriteSignals written).imp_right fun both =>
        ⟨both.1, both.2, List.eq_nil_of_length_eq_zero direct.2⟩
    · cases Option.some.inj written
      exact .inl rfl
  split at ok
  · rename_i more
    simp only [Bool.and_eq_true, decide_eq_true_eq] at more
    have left : 0 < (data.drop nwrote).length := by
      rw [List.length_drop]
      exact more.2
    obtain ⟨config, length, same⟩ := bufferRestSignals synced (List.ne_nil_of_length_pos left) callback ok
    have nothing : signals first = [] := front.resolve_right fun both => by omega
    rw [nothing, List.nil_append] at same
    have less : (data.drop nwrote).length ≤ data.length := by
      rw [List.length_drop]
      exact Nat.sub_le _ _
    refine ⟨config, ?_⟩
    split at same
    · rename_i risen
      exact .high same risen.2 (by omega) (by omega)
    · rename_i stays
      refine .quiet same (by omega) (by omega) fun empty => ?_
      rw [empty, List.length_nil] at length
      omega
  · cases Option.some.inj ok
    refine ⟨⟨rfl, rfl, rfl⟩, ?_⟩
    rcases front with nothing | ⟨complete, -, empty⟩
    · exact .quiet nothing (Nat.le_add_right _ _) (Nat.lt_or_ge _ _) id
    · exact .complete complete empty

theorem shutdownSignals (c : TcpConnection) : signals c.shutdownInLoop = [] := by
  unfold TcpConnection.shutdownInLoop
  split <;> rfl

theorem drainedSignals (synced : Synced c) (callback : c.writeCompleteCallback = true)
    (writing : c.channel.isWriting = true) (n : Nat) :
    Config c (c.drained n).1 ∧ Signals c (c.drained n).1 (c.drained n).2 0 := by
  obtain ⟨-, content, -⟩ := drainedSound synced n writing
  have less : (c.drained n).1.outputBuffer.readable.length ≤ c.outputBuffer.readable.length := by
    rw [content, List.length_drop]
    exact Nat.sub_le _ _
  have total := readableBytesLength (retrieveValid synced.valid n)
  simp only [TcpConnection.drained] at content less ⊢
  split
  · rename_i empty
    rw [if_pos empty] at content less
    rw [total] at empty
    refine ⟨⟨rfl, rfl, rfl⟩, .complete ?_ (List.eq_nil_of_length_eq_zero empty)⟩
    simp only [callback, signalsAppend]
    split
    · rw [shutdownSignals]
      rfl
    · rfl
  · rename_i more
    rw [if_neg more] at content less
    rw [total] at more
    refine ⟨⟨rfl, rfl, rfl⟩, .quiet rfl less (by omega) fun empty => ?_⟩
    exact absurd (congrArg List.length empty) more

theorem handleWriteSignals (synced : Synced c) (callback : c.writeCompleteCallback = true)
    (ok : c.handleWrite outcome = some (d, effects)) : Config c d ∧ Signals c d effects 0 := by
  have same (effects : List Effect) (nothing : signals effects = []) : Config c c ∧ Signals c c effects 0 :=
    ⟨⟨rfl, rfl, rfl⟩, .quiet nothing (Nat.le_refl _) (Nat.lt_or_ge _ _) id⟩
  unfold TcpConnection.handleWrite at ok
  split at ok
  · cases outcome with
    | wrote n =>
      simp only at ok
      split at ok <;> try contradiction
      split at ok
      · rename_i writing _ _
        obtain ⟨config, told⟩ := drainedSignals synced callback writing n
        cases Option.some.inj ok
        refine ⟨config, ?_⟩
        cases told with
        | quiet nothing length below kept => exact .quiet nothing length below kept
        | high one before after length => exact .high one before after length
        | complete one empty => exact .complete one empty
      · cases Option.some.inj ok
        exact same _ rfl
    | failed errno =>
      cases Option.some.inj ok
      exact same _ rfl
  · cases Option.some.inj ok
    exact same _ rfl

end Calls

structure Inv (mark chunk slack : Nat) (s : State) : Prop where
  world : OutgoingStream.Inv s.world
  config : Config (established 0 true true mark).conn s.world.conn
  full : mark ≤ s.world.conn.outputBuffer.readable.length →
    raised s = true ∧ s.world.conn.outputBuffer.readable.length < mark + chunk + s.late
  empty : s.world.conn.outputBuffer.readable = [] → raised s = false
  late : raised s = true → s.late ≤ slack

section Steps
variable {mark chunk slack : Nat} {s t : State}

theorem startInv (fd : Nat) (positive : 0 < mark) : Inv mark chunk slack (start fd mark) := by
  have none_ : (start fd mark).world.conn.outputBuffer.readable = [] := by simp [start, established]
  refine ⟨establishedInv fd true true mark, ⟨rfl, rfl, rfl⟩, fun full => ?_, fun _ => rfl, fun risen => ?_⟩
  · rw [none_] at full
    exact absurd positive (Nat.not_lt.mpr full)
  · exact absurd risen Bool.false_ne_true

theorem configTrans {b c d : TcpConnection} (first : Config b c) (second : Config c d) : Config b d :=
  ⟨second.mark.trans first.mark, second.high.trans first.high, second.complete.trans first.complete⟩

theorem toldInv (positive : 0 < mark) (inv : Inv mark chunk slack s) {world : World} {effects : List Effect}
    {more late : Nat} (next : OutgoingStream.Inv world) (trace : world.trace = s.world.trace ++ effects)
    (config : Config s.world.conn world.conn) (told : Signals s.world.conn world.conn effects more)
    (small : more ≤ chunk) (patient : raised s = true → s.late + more ≤ slack)
    (counted : signals effects = [] → late = s.late + more) (fresh : signals effects = [.highWaterMark] → late = 0) :
    Inv mark chunk slack { s with world, late } := by
  have config' := configTrans inv.config config
  have same : s.world.conn.highWaterMark = mark := inv.config.mark
  have last (one : Signal) (told : signals effects = [one]) :
      raised { s with world, late } = (one == .highWaterMark) := by
    simp [raised, trace, told]
  have full := inv.full
  cases told with
  | quiet none_ length below kept =>
    have raised_ : raised { s with world, late } = raised s := by simp [raised, trace, none_]
    have counted := counted none_
    refine ⟨next, config', fun above => ?_, fun empty => ?_, fun risen => ?_⟩
    · have higher : s.world.conn.highWaterMark ≤ s.world.conn.outputBuffer.readable.length :=
        below.resolve_left (Nat.not_lt.mpr (same ▸ above))
      obtain ⟨risen, less⟩ := full (same ▸ higher)
      refine ⟨raised_.trans risen, ?_⟩
      dsimp only
      omega
    · rw [raised_]
      exact inv.empty (kept empty)
    · rw [raised_] at risen
      have := patient risen
      dsimp only
      omega
  | high one before after length =>
    have zero := fresh one
    refine ⟨next, config', fun _ => ⟨last _ one, ?_⟩, fun empty => ?_, fun _ => ?_⟩
    · dsimp only
      omega
    · dsimp only at empty
      rw [empty, List.length_nil] at after
      omega
    · dsimp only
      omega
  | complete one empty =>
    refine ⟨next, config', fun above => ?_, fun _ => last _ one, fun risen => ?_⟩
    · dsimp only at above
      rw [empty, List.length_nil] at above
      omega
    · rw [last _ one] at risen
      exact absurd risen (by decide)

theorem stepInv (positive : 0 < mark) {a : Action} (inv : Inv mark chunk slack s) (polite : Polite chunk slack s a)
    (ok : step s a = some t) : Inv mark chunk slack t := by
  cases a with
  | sendInLoop data outcome =>
    obtain ⟨small, -, patient⟩ := polite
    obtain ⟨world, sent, same⟩ := Option.bind_eq_some_iff.mp ok
    rw [← Option.some.inj same]
    have next := OutgoingStream.stepInv inv.world sent
    obtain ⟨⟨conn, effects⟩, called, last⟩ := Option.bind_eq_some_iff.mp sent
    cases Option.some.inj last
    obtain ⟨config, told⟩ := sendInLoopSignals inv.world.synced inv.config.high called
    refine toldInv positive inv next rfl config told small patient (fun none_ => ?_) fun some_ => ?_
    · simp [none_]
    · simp [some_]
  | handleWrite outcome =>
    obtain ⟨world, written, same⟩ := Option.bind_eq_some_iff.mp ok
    rw [← Option.some.inj same]
    have next := OutgoingStream.stepInv inv.world written
    obtain ⟨⟨conn, effects⟩, called, last⟩ := Option.bind_eq_some_iff.mp written
    cases Option.some.inj last
    obtain ⟨config, told⟩ := handleWriteSignals inv.world.synced inv.config.complete called
    refine toldInv positive inv next rfl config told (Nat.zero_le _) inv.late (fun _ => rfl) fun risen => ?_
    -- nothing was handed over, so the buffer did not grow
    cases told with
    | quiet none_ => simp [none_] at risen
    | high _ before after length => omega
    | complete one => simp [one] at risen
  | shutdown =>
    cases Option.some.inj ok
    have next := OutgoingStream.stepInv inv.world (a := .shutdown) rfl
    have quiet : signals s.world.conn.shutdown.2 = [] := by
      unfold TcpConnection.shutdown
      split
      · exact shutdownSignals _
      · rfl
    obtain ⟨-, same, -⟩ := shutdownSound inv.world.synced
    have config : Config s.world.conn s.world.conn.shutdown.1 := by
      unfold TcpConnection.shutdown
      split <;> exact ⟨rfl, rfl, rfl⟩
    have told : Signals s.world.conn s.world.conn.shutdown.1 s.world.conn.shutdown.2 0 :=
      .quiet quiet (by rw [same]; exact Nat.le_refl _) (by rw [same]; exact Nat.lt_or_ge _ _) (by rw [same]; exact id)
    refine toldInv positive inv next rfl config told (Nat.zero_le _) inv.late (fun _ => rfl) fun risen => ?_
    rw [quiet] at risen
    contradiction
  | functor =>
    obtain ⟨-, same⟩ := Option.ite_none_right_eq_some.mp ok
    rw [← Option.some.inj same]
    exact ⟨inv.world, inv.config, inv.full, inv.empty, inv.late⟩

end Steps

/- Less than the mark, a chunk and the slack is held back. A sender that has been told to
wait has bytes in the output buffer and a channel that wants to write them, or a callback
that is queued for it. -/
structure Held (mark chunk slack : Nat) (s : State) : Prop where
  bounded : s.world.conn.outputBuffer.readable.length < mark + chunk + slack
  waits : paused s = true →
    s.world.conn.outputBuffer.readable ≠ [] ∧ s.world.conn.channel.isWriting = true ∨
      s.called < (signals s.world.trace).length

theorem invHeld {mark chunk slack : Nat} {s : State} (inv : Inv mark chunk slack s) : Held mark chunk slack s where
  bounded := by
    by_cases above : mark ≤ s.world.conn.outputBuffer.readable.length
    · obtain ⟨risen, less⟩ := inv.full above
      have := inv.late risen
      omega
    · omega
  waits told := by
    by_cases more : s.called < (signals s.world.trace).length
    · exact .inr more
    · have all := List.take_of_length_le (Nat.not_lt.mp more)
      rw [paused, all] at told
      have bytes : s.world.conn.outputBuffer.readable ≠ [] := by
        intro empty
        have quiet := inv.empty empty
        rw [raised, told] at quiet
        contradiction
      exact .inl ⟨bytes, inv.world.synced.flag.mpr bytes⟩

theorem politeSenderHeld {fd mark chunk slack : Nat} (positive : 0 < mark) {actions : List Action} {s : State}
    (polite : Along step (Polite chunk slack) (start fd mark) actions)
    (ok : run step (start fd mark) actions = some s) : Held mark chunk slack s :=
  invHeld (runInvariantAlong (stepInv positive) (startInv fd positive) polite ok)

def politeRun : List Action :=
  [.sendInLoop [1, 2] (.wrote 0), .sendInLoop [3, 4] (.wrote 0), .sendInLoop [5, 6] (.wrote 0), .functor,
    .handleWrite (.wrote 4)]

theorem politeSenderHeldSample :
    ∃ s, run step (start 5 4) politeRun = some s ∧ paused s = true ∧ Held 4 2 2 s := by
  have seen : (run step (start 5 4) politeRun).map paused = some true := by decide +kernel
  obtain ⟨s, ok, told⟩ := Option.map_eq_some_iff.mp seen
  exact ⟨s, ok, told, politeSenderHeld (by decide) (by decide +kernel) ok⟩

end TinyNetwork.Backpressure
