import TinyNetwork.Buffer
import TinyNetwork.Runs

/-! The buffer as a FIFO queue of bytes. The queue is the purpose of the class and
knows nothing of indices, vectors or system calls: arrivals go to its back,
retrievals leave from its front. Runs of the buffer are compared with runs of the
queue on the same operations, answers included. -/
namespace TinyNetwork.BufferQueue
open Runs Words Buffer

/- One call on the buffer. `retrieveUntil` is given its pointer as an offset from
peek(), and `readFd` the outcome of its readv. -/
inductive Op where
  | append (data : Bytes)
  | ensureWritableBytes (len : Nat)
  | retrieve (len : Nat)
  | retrieveUntil (offset : Nat)
  | retrieveAll
  | retrieveAsString (len : Nat)
  | retrieveAllAsString
  | readFd (outcome : Readv)
  deriving DecidableEq, Repr

inductive Reply where
  | done
  | text (value : Bytes)
  | count (n : Int)
  deriving DecidableEq, Repr

def exec (b : Buffer) : Op → Option (Buffer × Reply)
  | .append data => do
      let c ← b.append data
      some (c, .done)
  | .ensureWritableBytes len => do
      let c ← b.ensureWritableBytes len
      some (c, .done)
  | .retrieve len => some (b.retrieve len, .done)
  | .retrieveUntil offset => some (b.retrieveUntil (b.peek + offset), .done)
  | .retrieveAll => some (b.retrieveAll, .done)
  | .retrieveAsString len => do
      let (value, c) ← b.retrieveAsString len
      some (c, .text value)
  | .retrieveAllAsString => do
      let (value, c) ← b.retrieveAllAsString
      some (c, .text value)
  | .readFd outcome => do
      let (c, n) ← b.readFd outcome
      some (c, .count n)

/- The range each call is made in: lengths an int can carry, pointers and string
lengths inside the readable region, and no more bytes than readv was offered. -/
def Allowed (b : Buffer) : Op → Prop
  | .append data => data.length < intLimit
  | .ensureWritableBytes len => len < intLimit
  | .retrieveUntil offset => offset ≤ b.readableBytes
  | .retrieveAsString len => len ≤ b.readableBytes
  | .readFd (.got data) => data.length ≤ b.iovecTotal
  | _ => True

def Op.room : Op → Nat
  | .append data => data.length
  | .ensureWritableBytes len => len
  | .readFd (.got data) => data.length
  | _ => 0

structure Served where
  buffer : Buffer
  replies : List Reply
  deriving DecidableEq, Repr

def step (s : Served) (op : Op) : Option Served := do
  let (b, reply) ← exec s.buffer op
  some ⟨b, s.replies ++ [reply]⟩

structure Queue where
  content : Bytes
  replies : List Reply
  deriving DecidableEq, Repr

def Queue.enqueue (q : Queue) (data : Bytes) (reply : Reply) : Queue :=
  ⟨q.content ++ data, q.replies ++ [reply]⟩

def Queue.dequeue (q : Queue) (n : Nat) (reply : Reply) : Queue :=
  ⟨q.content.drop (min n q.content.length), q.replies ++ [reply]⟩

def Queue.step (q : Queue) : Op → Queue
  | .append data => q.enqueue data .done
  | .ensureWritableBytes _ => q.enqueue [] .done
  | .retrieve len => q.dequeue len .done
  | .retrieveUntil offset => q.dequeue offset .done
  | .retrieveAll => q.dequeue q.content.length .done
  | .retrieveAsString len => q.dequeue len (.text (q.content.take len))
  | .retrieveAllAsString => q.dequeue q.content.length (.text q.content)
  | .readFd (.failed _) => q.enqueue [] (.count (-1))
  | .readFd (.got data) => q.enqueue data (.count data.length)

structure Refines (s : Served) (q : Queue) : Prop where
  valid : Valid s.buffer
  content : s.buffer.readable = q.content
  replies : s.replies = q.replies

theorem dropMin (xs : Bytes) (n : Nat) : xs.drop (min n xs.length) = xs.drop n := by
  by_cases h : n ≤ xs.length
  · rw [Nat.min_eq_left h]
  · rw [Nat.min_eq_right (by omega), List.drop_length, List.drop_eq_nil_of_le (by omega)]

theorem execSpec {b : Buffer} {q : Queue} (valid : Valid b) (same : b.readable = q.content)
    {op : Op} (allowed : Allowed b op) :
    (∃ c reply, exec b op = some (c, reply) ∧ Valid c ∧ c.readable = (q.step op).content ∧
      q.replies ++ [reply] = (q.step op).replies) ∨
    (exec b op = none ∧ maxSize < b.writerIndex + op.room) := by
  have total := readableBytesLength valid
  cases op with
  | append data =>
    rcases appendSpec valid allowed with ⟨c, ok, added⟩ | ⟨failed, beyond⟩
    · exact .inl ⟨c, .done, by simp [exec, ok], added.valid, by rw [added.content, same]; rfl, rfl⟩
    · exact .inr ⟨by simp [exec, failed], beyond⟩
  | ensureWritableBytes len =>
    rcases ensureWritableBytesSpec valid allowed with ⟨c, ok, same', _⟩ | ⟨failed, beyond⟩
    · exact .inl ⟨c, .done, by simp [exec, ok], same'.valid, by rw [same'.content, same]; rfl, rfl⟩
    · exact .inr ⟨by simp [exec, failed], beyond⟩
  | retrieve len =>
    refine .inl ⟨_, .done, rfl, retrieveValid valid len, ?_, rfl⟩
    rw [retrieveReadable valid, same]
    exact (dropMin _ _).symm
  | retrieveUntil offset =>
    obtain ⟨kept, content⟩ := retrieveUntilReadable valid (n := offset) (by rw [← total]; exact allowed)
    refine .inl ⟨_, .done, rfl, kept, ?_, rfl⟩
    rw [content, same]
    exact (dropMin _ _).symm
  | retrieveAll =>
    refine .inl ⟨_, .done, rfl, retrieveAllValid valid, ?_, rfl⟩
    simp [Queue.step, Queue.dequeue]
  | retrieveAsString len =>
    have inside : len ≤ b.readable.length := by rw [← total]; exact allowed
    have string := retrieveAsStringEq valid inside
    refine .inl ⟨b.retrieve len, .text (b.readable.take len), by simp [exec, string],
      retrieveValid valid len, ?_, by rw [same]; rfl⟩
    rw [retrieveReadable valid, same]
    exact (dropMin _ _).symm
  | retrieveAllAsString =>
    have string := retrieveAsStringEq valid (Nat.le_of_eq total)
    rw [total, List.take_length] at string
    refine .inl ⟨b.retrieve b.readable.length, .text b.readable, ?_, retrieveValid valid _, ?_,
      by rw [same]; rfl⟩
    · simp [exec, retrieveAllAsString, total, string]
    · rw [retrieveReadable valid, same]
      exact (dropMin _ _).symm
  | readFd outcome =>
    cases outcome with
    | failed errno =>
      refine .inl ⟨b, .count (-1), rfl, valid, ?_, rfl⟩
      rw [same]
      simp [Queue.step, Queue.enqueue]
    | got data =>
      rcases readFdSpec valid allowed with ⟨c, ok, added⟩ | ⟨failed, beyond⟩
      · exact .inl ⟨c, .count data.length, by simp [exec, ok], added.valid,
          by rw [added.content, same]; rfl, rfl⟩
      · exact .inr ⟨by simp [exec, failed], beyond⟩

theorem stepRefines {s t : Served} {q : Queue} {op : Op} (related : Refines s q)
    (allowed : Allowed s.buffer op) (ok : step s op = some t) : Refines t (q.step op) := by
  rcases execSpec related.valid related.content allowed with
    ⟨c, reply, done, kept, content, answer⟩ | ⟨failed, _⟩
  · simp only [step, done, bind, Option.bind] at ok
    cases Option.some.inj ok
    exact ⟨kept, content, by simp only [related.replies, answer]⟩
  · simp [step, failed] at ok

def served (b : Buffer) : Served := ⟨b, []⟩

def RefinesQueue (initialSize : Nat) : Prop :=
  ∀ b, Buffer.make initialSize = some b →
    ∀ ops s, Along step (fun s op => Allowed s.buffer op) (served b) ops →
      run step (served b) ops = some s →
        Refines s (ops.foldl Queue.step ⟨[], []⟩) ∧
        ∀ op, Allowed s.buffer op → exec s.buffer op = none →
          maxSize < s.buffer.writerIndex + op.room

theorem madeSize {initialSize : Nat} {b : Buffer} (ok : Buffer.make initialSize = some b) :
    b.readerIndex = kCheapPrepend ∧ b.writerIndex = kCheapPrepend ∧
      b.buffer.size = sizeAdd kCheapPrepend initialSize := by
  simp only [Buffer.make, CharVector.ofSize, bind, Option.bind_eq_some_iff] at ok
  obtain ⟨v, made, last⟩ := ok
  cases Option.some.inj last
  split at made
  · cases Option.some.inj made
    exact ⟨rfl, rfl, by simp [CharVector.size]⟩
  · contradiction

theorem madeRefines {initialSize : Nat} (fits : initialSize < sizeLimit - kCheapPrepend) {b : Buffer}
    (ok : Buffer.make initialSize = some b) : Refines (served b) ⟨[], []⟩ := by
  obtain ⟨reader, writer, size⟩ := madeSize ok
  have whole : sizeAdd kCheapPrepend initialSize = kCheapPrepend + initialSize :=
    sizeAddExact (by omega)
  refine ⟨⟨?_, ?_, ?_⟩, ?_, rfl⟩
  · exact Nat.le_of_eq reader.symm
  · exact Nat.le_of_eq (reader.trans writer.symm)
  · simp only [served, writer, size, whole]; omega
  · simp [served, readable, reader, writer]

/- The sum kCheapPrepend + initialSize is unsigned: near the top of the range it
wraps, and the vector is then shorter than the prepend area. -/
theorem wrappedNotRefines {initialSize : Nat} (word : initialSize < sizeLimit)
    (top : sizeLimit - kCheapPrepend ≤ initialSize) : ¬ RefinesQueue initialSize := by
  have short : sizeAdd kCheapPrepend initialSize < kCheapPrepend := by
    unfold sizeAdd sizeLimit kCheapPrepend at *
    omega
  have small : sizeAdd kCheapPrepend initialSize ≤ maxSize := by
    unfold maxSize kCheapPrepend at *
    omega
  intro refines
  have made : Buffer.make initialSize = some
      ⟨⟨List.replicate (sizeAdd kCheapPrepend initialSize) 0, by simpa using small⟩,
        kCheapPrepend, kCheapPrepend⟩ := by
    simp only [Buffer.make, CharVector.ofSize, dif_pos small, bind, Option.bind]
  have inside := (refines _ made [] _ trivial rfl).1.valid.inside
  simp only [served, CharVector.size, List.length_replicate] at inside
  omega

theorem bufferRefinesQueue (initialSize : UInt64) :
    RefinesQueue initialSize.toNat ↔ initialSize.toNat < 2 ^ 64 - 8 := by
  have word : initialSize.toNat < sizeLimit := initialSize.toNat_lt
  change _ ↔ initialSize.toNat < sizeLimit - kCheapPrepend
  constructor
  · intro refines
    by_contra top
    exact wrappedNotRefines word (by omega) refines
  · intro fits b made ops s along ok
    have last := runSimulation stepRefines (madeRefines fits made) along ok
    refine ⟨last, ?_⟩
    intro op allowed failed
    rcases execSpec last.valid last.content allowed with ⟨c, reply, done, _⟩ | ⟨_, beyond⟩
    · rw [done] at failed; contradiction
    · exact beyond

theorem topSizeBreaksQueue : ¬ RefinesQueue (2 ^ 64 - 1) :=
  wrappedNotRefines (by decide) (by decide)

end TinyNetwork.BufferQueue
