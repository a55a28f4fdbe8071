import TinyNetwork.BufferQueue
import TinyNetwork.Backpressure

/-! How long the vector of a buffer gets. It never becomes shorter, and makeSpace makes it
longer only when the bytes to be kept do not fit, and then to no more than twice their
number. So a sender that heeds its callbacks bounds the memory of its connection. -/
namespace TinyNetwork.BufferMemory
open Runs Words Buffer BufferQueue

structure Grows (b c : Buffer) (held : Nat) : Prop where
  kept : b.buffer.size ≤ c.buffer.size
  bounded : c.buffer.size ≤ max b.buffer.size (2 * held + kCheapPrepend)

section Calls
variable {b c : Buffer}

theorem growsSame (same : c.buffer.size = b.buffer.size) (held : Nat) : Grows b c held :=
  ⟨Nat.le_of_eq same.symm, same ▸ Nat.le_max_left _ _⟩

theorem growsMore {held more : Nat} (grows : Grows b c held) (le : held ≤ more) : Grows b c more := by
  obtain ⟨kept, bounded⟩ := grows
  exact ⟨kept, by omega⟩

theorem ensureWritableBytesGrows (valid : Valid b) {len : Nat} (small : len < intLimit)
    (ok : b.ensureWritableBytes len = some c) : Grows b c (b.readable.length + len) := by
  have bound := b.sizeBound
  obtain ⟨cheap, order, inside⟩ := id valid
  have room := roomEq valid
  have want : sizeAdd len kCheapPrepend = len + kCheapPrepend :=
    sizeAddExact (by unfold sizeLimit kCheapPrepend; unfold intLimit at small; omega)
  have end_ : sizeAdd b.writerIndex len = b.writerIndex + len :=
    sizeAddExact (by unfold sizeLimit; unfold intLimit at small; omega)
  simp only [ensureWritableBytes, makeSpace, bind, widenNarrow small, room, want, end_] at ok
  split at ok
  · rename_i needed
    rw [writableBytesEq valid] at needed
    split at ok
    · rename_i short
      obtain ⟨v, grown, last⟩ := Option.bind_eq_some_iff.mp ok
      cases Option.some.inj last
      have size : v.size = b.writerIndex + len := CharVector.resizeSize grown
      have content := readableLength valid
      exact ⟨by simp only [size]; omega, by simp only [size]; omega⟩
    · obtain ⟨v, slid, last⟩ := Option.bind_eq_some_iff.mp ok
      cases Option.some.inj last
      exact growsSame (CharVector.copyWithinSize slid) _
  · cases Option.some.inj ok
    exact growsSame rfl _

/- An append of any length: a length that the parameter loses either goes through without
a longer vector or not at all. -/
theorem appendGrows (valid : Valid b) {data : Bytes} (ok : b.append data = some c) :
    Grows b c (b.readable.length + data.length) := by
  simp only [append, bind, Option.bind_eq_some_iff] at ok
  obtain ⟨ready, made, v, wrote, last⟩ := ok
  cases Option.some.inj last
  have size : v.size = ready.buffer.size := CharVector.writeSize wrote
  by_cases small : data.length < intLimit
  · obtain ⟨kept, bounded⟩ := ensureWritableBytesGrows valid small made
    exact ⟨by simp only [size]; exact kept, by simp only [size]; exact bounded⟩
  · refine growsSame (size.trans ?_) _
    unfold ensureWritableBytes at made
    split at made
    · rcases makeSpaceBig valid (by omega) made with less | ⟨long, -, -, -⟩
      · rw [beginWrite, CharVector.writeOutside less] at wrote
        contradiction
      · rw [makeSpace, roomEq valid, if_neg long] at made
        obtain ⟨w, slid, last⟩ := Option.bind_eq_some_iff.mp made
        cases Option.some.inj last
        exact CharVector.copyWithinSize slid
    · rw [Option.some.inj made]

theorem readFdGrows (valid : Valid b) {data : Bytes} {n : Int} (ok : b.readFd (.got data) = some (c, n)) :
    Grows b c (b.readable.length + data.length) := by
  have total := readableLength valid
  have tail := writableBytesEq valid
  obtain ⟨cheap, order, inside⟩ := valid
  simp only [readFd, bind] at ok
  split at ok <;> try contradiction
  obtain ⟨v, wrote, ok⟩ := Option.bind_eq_some_iff.mp ok
  have same : v.size = b.buffer.size := CharVector.writeSize wrote
  split at ok
  · cases Option.some.inj ok
    exact growsSame same _
  · rename_i beyond
    obtain ⟨d, appended_, last⟩ := Option.bind_eq_some_iff.mp ok
    cases Option.some.inj last
    -- the vector is full, and the rest comes from extrabuf
    have full : Valid { b with buffer := v, writerIndex := v.size } :=
      ⟨cheap, by simp only [same]; exact Nat.le_trans order inside, Nat.le_refl _⟩
    obtain ⟨kept, bounded⟩ := appendGrows full appended_
    rw [readableLength full, List.length_drop] at bounded
    simp only [same] at kept bounded
    exact ⟨kept, by omega⟩

theorem retrieveGrows (b : Buffer) (len held : Nat) : Grows b (b.retrieve len) held := by
  refine growsSame ?_ held
  unfold retrieve retrieveAll
  split <;> rfl

end Calls

theorem execGrows {b c : Buffer} {op : Op} {reply : Reply} (valid : Valid b) (allowed : Allowed b op)
    (ok : exec b op = some (c, reply)) : Grows b c (b.readableBytes + op.room) := by
  rw [readableBytesLength valid]
  cases op with
  | append data =>
    obtain ⟨d, done, last⟩ := Option.bind_eq_some_iff.mp ok
    cases Option.some.inj last
    exact appendGrows valid done
  | ensureWritableBytes len =>
    obtain ⟨d, done, last⟩ := Option.bind_eq_some_iff.mp ok
    cases Option.some.inj last
    exact ensureWritableBytesGrows valid allowed done
  | retrieve len =>
    cases Option.some.inj ok
    exact retrieveGrows b _ _
  | retrieveUntil offset =>
    cases Option.some.inj ok
    exact retrieveGrows b _ _
  | retrieveAll =>
    cases Option.some.inj ok
    exact growsSame (b := b) (c := b.retrieveAll) rfl _
  | retrieveAsString len | retrieveAllAsString =>
    obtain ⟨⟨text, d⟩, done, last⟩ := Option.bind_eq_some_iff.mp ok
    cases Option.some.inj last
    obtain ⟨-, same⟩ := Option.ite_none_right_eq_some.mp done
    cases Option.some.inj same
    exact retrieveGrows b _ _
  | readFd outcome =>
    obtain ⟨⟨d, n⟩, done, last⟩ := Option.bind_eq_some_iff.mp ok
    cases Option.some.inj last
    cases outcome with
    | failed errno =>
      cases Option.some.inj done
      exact growsSame rfl _
    | got data => exact readFdGrows valid done

structure Modest (b : Buffer) (peak : Nat) (s : Served) : Prop where
  valid : Valid s.buffer
  grows : Grows b s.buffer peak

theorem growsTrans {a b c : Buffer} {held : Nat} (first : Grows a b held) (second : Grows b c held) :
    Grows a c held := by
  obtain ⟨kept, bounded⟩ := first
  obtain ⟨kept', bounded'⟩ := second
  exact ⟨Nat.le_trans kept kept', by omega⟩

def Keeps (peak : Nat) (s : Served) (op : Op) : Prop :=
  Allowed s.buffer op ∧ s.buffer.readableBytes + op.room ≤ peak

theorem stepServed {peak : Nat} {s t : Served} {op : Op} (valid : Valid s.buffer) (keeps : Keeps peak s op)
    (ok : step s op = some t) : Modest s.buffer peak t := by
  obtain ⟨⟨c, reply⟩, done, last⟩ := Option.bind_eq_some_iff.mp ok
  cases Option.some.inj last
  rcases execSpec (q := ⟨s.buffer.readable, []⟩) valid rfl keeps.1 with
    ⟨d, other, done', valid', -⟩ | ⟨failed, -⟩
  · cases Option.some.inj (done.symm.trans done')
    exact ⟨valid', growsMore (execGrows valid keeps.1 done) keeps.2⟩
  · rw [failed] at done
    contradiction

theorem stepModest {b : Buffer} {peak : Nat} {s t : Served} {op : Op}
    (modest : Modest b peak s) (keeps : Keeps peak s op) (ok : step s op = some t) : Modest b peak t := by
  obtain ⟨valid, grows⟩ := stepServed modest.valid keeps ok
  exact ⟨valid, growsTrans modest.grows grows⟩

def Longer (s : Served) (op : Op) : Prop := ∀ t, step s op = some t → s.buffer.buffer.size ≤ t.buffer.buffer.size

theorem memoryBounded {initialSize : Nat} (fits : initialSize < sizeLimit - kCheapPrepend) {b : Buffer}
    (made : Buffer.make initialSize = some b) {peak : Nat} {ops : List Op} {s : Served}
    (along : Along step (Keeps peak) (served b) ops) (ok : run step (served b) ops = some s) :
    Along step Longer (served b) ops ∧
      kCheapPrepend + initialSize ≤ s.buffer.buffer.size ∧
      s.buffer.buffer.size ≤ max (kCheapPrepend + initialSize) (2 * peak + kCheapPrepend) := by
  have start : b.buffer.size = kCheapPrepend + initialSize := by
    rw [(madeSize made).2.2, sizeAddExact (by omega)]
  have first : Modest b peak (served b) :=
    ⟨(madeRefines fits made).valid, growsSame rfl _⟩
  have longer : Along step Longer (served b) ops :=
    alongShown (fun modest keeps _ moved => (stepServed (Modest.valid modest) keeps moved).grows.kept)
      stepModest first along
  obtain ⟨-, kept, bounded⟩ := runInvariantAlong stepModest first along ok
  rw [← start]
  exact ⟨longer, kept, bounded⟩

theorem handleWriteBuffer {c d : TcpConnection} {outcome : WriteOutcome} {effects : List Effect}
    (ok : c.handleWrite outcome = some (d, effects)) :
    d.outputBuffer = c.outputBuffer ∨ ∃ n, d.outputBuffer = c.outputBuffer.retrieve n := by
  unfold TcpConnection.handleWrite at ok
  split at ok
  · cases outcome with
    | wrote n =>
      simp only at ok
      split at ok <;> try contradiction
      split at ok
      · cases Option.some.inj ok
        refine .inr ⟨n, ?_⟩
        simp only [TcpConnection.drained]
        split <;> rfl
      · cases Option.some.inj ok
        exact .inl rfl
    | failed errno =>
      cases Option.some.inj ok
      exact .inl rfl
  · cases Option.some.inj ok
    exact .inl rfl

def small : Buffer := ⟨⟨List.replicate 24 0, by decide⟩, 8, 8⟩

instance (b : Buffer) (op : Op) : Decidable (Allowed b op) := by
  cases op with
  | readFd outcome => cases outcome <;> unfold Allowed <;> infer_instance
  | append | ensureWritableBytes | retrieve | retrieveUntil | retrieveAll | retrieveAsString
    | retrieveAllAsString => unfold Allowed; infer_instance

def longestAppend : List Op := [.append (List.replicate 20 7), .retrieve 18, .append (List.replicate 3 9)]

instance (peak : Nat) (s : Served) (op : Op) : Decidable (Keeps peak s op) :=
  inferInstanceAs (Decidable (_ ∧ _))

theorem memoryBoundedSample :
    Along step Longer (served small) longestAppend ∧
      ∃ s, run step (served small) longestAppend = some s ∧ 24 ≤ s.buffer.buffer.size ∧
        s.buffer.buffer.size ≤ max 24 (2 * 20 + 8) := by
  have goes : (run step (served small) longestAppend).isSome := by decide +kernel
  obtain ⟨s, ok⟩ := Option.isSome_iff_exists.mp goes
  have made : Buffer.make 16 = some small := rfl
  have keeps : Along step (Keeps 20) (served small) longestAppend := by decide +kernel
  obtain ⟨longer, bounds⟩ := memoryBounded (by decide) made keeps ok
  exact ⟨longer, s, ok, bounds⟩

theorem stepGrows {w t : OutgoingStream.World} {a : OutgoingStream.Action} (inv : OutgoingStream.Inv w)
    (ok : OutgoingStream.step w a = some t) :
    Grows w.conn.outputBuffer t.conn.outputBuffer t.conn.outputBuffer.readable.length := by
  have valid := inv.synced.valid
  cases a with
  | sendInLoop data outcome =>
    obtain ⟨⟨d, effects⟩, sent, last⟩ := Option.bind_eq_some_iff.mp ok
    cases Option.some.inj last
    simp only [TcpConnection.sendInLoop, if_neg inv.synced.live, bind, Option.bind_eq_some_iff] at sent
    obtain ⟨⟨nwrote, fault, first⟩, -, sent⟩ := sent
    split at sent
    · obtain ⟨out, grown, last⟩ := Option.bind_eq_some_iff.mp sent
      cases Option.some.inj last
      dsimp only
      rw [(appendedAny valid grown).content, List.length_append]
      exact appendGrows valid grown
    · cases Option.some.inj sent
      exact growsSame rfl _
  | handleWrite outcome =>
    obtain ⟨⟨d, effects⟩, written, last⟩ := Option.bind_eq_some_iff.mp ok
    cases Option.some.inj last
    rcases handleWriteBuffer written with same | ⟨n, same⟩
    · rw [same]
      exact growsSame rfl _
    · rw [same]
      exact retrieveGrows _ _ _
  | shutdown =>
    cases Option.some.inj ok
    refine growsSame ?_ _
    dsimp only
    rw [(OutgoingStream.shutdownSound inv.synced).2.1]

structure Held (mark chunk slack : Nat) (s : Backpressure.State) : Prop where
  inv : Backpressure.Inv mark chunk slack s
  memory : s.world.conn.outputBuffer.buffer.size ≤
    max (kCheapPrepend + kInitialSize) (2 * (mark + chunk + slack) + kCheapPrepend)

theorem stepHeld {mark chunk slack : Nat} (positive : 0 < mark) {s t : Backpressure.State}
    {a : Backpressure.Action} (held : Held mark chunk slack s) (polite : Backpressure.Polite chunk slack s a)
    (ok : Backpressure.step s a = some t) : Held mark chunk slack t := by
  have inv := Backpressure.stepInv positive held.inv polite ok
  have less := (Backpressure.invHeld inv).bounded
  have before := held.memory
  refine ⟨inv, ?_⟩
  have grows (world : OutgoingStream.World) (a : OutgoingStream.Action)
      (moved : OutgoingStream.step s.world a = some world) (same : t.world = world) :
      t.world.conn.outputBuffer.buffer.size ≤
        max (kCheapPrepend + kInitialSize) (2 * (mark + chunk + slack) + kCheapPrepend) := by
    obtain ⟨-, bounded⟩ := stepGrows held.inv.world moved
    rw [same] at less ⊢
    omega
  cases a with
  | sendInLoop data outcome | handleWrite outcome =>
    obtain ⟨world, moved, last⟩ := Option.bind_eq_some_iff.mp ok
    cases Option.some.inj last
    exact grows world _ moved rfl
  | shutdown =>
    cases Option.some.inj ok
    exact grows _ .shutdown rfl rfl
  | functor =>
    obtain ⟨-, last⟩ := Option.ite_none_right_eq_some.mp ok
    cases Option.some.inj last
    exact before

theorem politeMemory {fd mark chunk slack : Nat} (positive : 0 < mark) {actions : List Backpressure.Action}
    {s : Backpressure.State}
    (polite : Along Backpressure.step (Backpressure.Polite chunk slack) (Backpressure.start fd mark) actions)
    (ok : run Backpressure.step (Backpressure.start fd mark) actions = some s) :
    s.world.conn.outputBuffer.buffer.size ≤
      max (kCheapPrepend + kInitialSize) (2 * (mark + chunk + slack) + kCheapPrepend) := by
  have first : Held mark chunk slack (Backpressure.start fd mark) := by
    refine ⟨Backpressure.startInv fd positive, ?_⟩
    rw [show (Backpressure.start fd mark).world.conn.outputBuffer = fresh from rfl, fresh, CharVector.size,
      List.length_replicate]
    exact Nat.le_max_left _ _
  exact (runInvariantAlong (stepHeld positive) first polite ok).memory

theorem politeMemorySample :
    ∃ s, run Backpressure.step (Backpressure.start 5 4) Backpressure.politeRun = some s ∧
      s.world.conn.outputBuffer.buffer.size ≤ max (kCheapPrepend + kInitialSize) (2 * (4 + 2 + 2) + kCheapPrepend) := by
  have goes : (run Backpressure.step (Backpressure.start 5 4) Backpressure.politeRun).isSome := by decide +kernel
  obtain ⟨s, ok⟩ := Option.isSome_iff_exists.mp goes
  exact ⟨s, ok, politeMemory (by decide) (by decide +kernel) ok⟩

end TinyNetwork.BufferMemory
