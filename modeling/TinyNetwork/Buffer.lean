import TinyNetwork.Basic
import TinyNetwork.Windows

/-! The growable byte buffer of the connections: a vector of chars with a reader
and a writer index. An operation returns `none` where the code has no successful
outcome: the vector refuses a size over its maximum (std::length_error), or a
copy would leave the vector, which the language leaves undefined. Pointers into
the vector are positions in it. -/
namespace TinyNetwork
open Windows Words

abbrev Bytes := List UInt8

def ascii (text : String) : Bytes := text.toList.map (fun c => UInt8.ofNat c.toNat)

/- The size limit of std::vector<char>. Every vector that exists respects it. -/
def maxSize : Nat := 2 ^ 63 - 1

structure CharVector where
  cells : Bytes
  bounded : cells.length ≤ maxSize
  deriving DecidableEq, Repr

namespace CharVector

def size (v : CharVector) : Nat := v.cells.length

def ofSize (n : Nat) : Option CharVector :=
  if h : n ≤ maxSize then some ⟨List.replicate n 0, by simpa using h⟩ else none

def resize (v : CharVector) (n : Nat) : Option CharVector :=
  if h : n ≤ maxSize then
    some ⟨v.cells.take n ++ List.replicate (n - v.size) 0, by
      simp only [List.length_append, List.length_take, List.length_replicate, size]; omega⟩
  else none

def write (v : CharVector) (pos : Nat) (data : Bytes) : Option CharVector :=
  if h : pos + data.length ≤ v.size then
    some ⟨splice v.cells pos data, by rw [spliceLength h]; exact v.bounded⟩
  else none

theorem copyForwardLength (n src dst : Nat) (xs : Bytes) :
    (copyForward n src dst xs).length = xs.length := by
  induction n generalizing src dst xs with
  | zero => rfl
  | succ n ih => unfold copyForward; split <;> simp [ih]

def copyWithin (v : CharVector) (n src dst : Nat) : Option CharVector :=
  if src + n ≤ v.size ∧ dst + n ≤ v.size then
    some ⟨copyForward n src dst v.cells, by rw [copyForwardLength]; exact v.bounded⟩
  else none

theorem resizeGrown {v : CharVector} {n : Nat} (longer : v.size ≤ n) (fits : n ≤ maxSize) :
    ∃ w, v.resize n = some w ∧ w.cells = v.cells ++ List.replicate (n - v.size) 0 :=
  ⟨_, dif_pos fits, by simp only [List.take_of_length_le (show v.cells.length ≤ n from longer)]⟩

theorem resizeRefused {v : CharVector} {n : Nat} (beyond : maxSize < n) : v.resize n = none :=
  dif_neg (by omega)

theorem resizeSize {v w : CharVector} {n : Nat} (ok : v.resize n = some w) : w.size = n := by
  unfold resize at ok
  split at ok <;> try contradiction
  cases Option.some.inj ok
  simp only [size, List.length_append, List.length_take, List.length_replicate]
  omega

theorem writeInside {v : CharVector} {pos : Nat} {data : Bytes} (fits : pos + data.length ≤ v.size) :
    ∃ w, v.write pos data = some w ∧ w.cells = splice v.cells pos data :=
  ⟨_, dif_pos fits, rfl⟩

theorem writeOutside {v : CharVector} {pos : Nat} {data : Bytes} (beyond : v.size < pos + data.length) :
    v.write pos data = none :=
  dif_neg (by omega)

theorem writeSize {v w : CharVector} {pos : Nat} {data : Bytes} (ok : v.write pos data = some w) :
    w.size = v.size := by
  unfold write at ok
  split at ok <;> try contradiction
  rename_i fits
  cases Option.some.inj ok
  exact spliceLength fits

theorem copyWithinSize {v w : CharVector} {n src dst : Nat} (ok : v.copyWithin n src dst = some w) :
    w.size = v.size := by
  unfold copyWithin at ok
  split at ok <;> try contradiction
  cases Option.some.inj ok
  exact copyForwardLength ..

theorem copyWithinDown {v : CharVector} {n src dst : Nat} (order : dst ≤ src)
    (inside : src + n ≤ v.size) :
    ∃ w, v.copyWithin n src dst = some w ∧
      w.cells = splice v.cells dst (window v.cells src (src + n)) :=
  ⟨_, if_pos ⟨inside, by omega⟩, copyForwardSplice order inside⟩

end CharVector

structure Buffer where
  buffer : CharVector
  readerIndex : Nat
  writerIndex : Nat
  deriving DecidableEq, Repr

inductive Readv where
  | failed (errno : Nat)
  | got (data : Bytes)
  deriving DecidableEq, Repr

namespace Buffer

def kCheapPrepend : Nat := 8
def kInitialSize : Nat := 1024
def extrabufSize : Nat := 65536
def kCRLF : Bytes := [13, 10]

def make (initialSize : Nat) : Option Buffer := do
  let v ← CharVector.ofSize (sizeAdd kCheapPrepend initialSize)
  some ⟨v, kCheapPrepend, kCheapPrepend⟩

@[irreducible] def fresh : Buffer :=
  ⟨⟨List.replicate (kCheapPrepend + kInitialSize) 0,
    by rw [List.length_replicate]; decide⟩, kCheapPrepend, kCheapPrepend⟩

theorem makeDefault : make kInitialSize = some fresh := by rw [fresh]; rfl

def readableBytes (b : Buffer) : Nat := sizeSub b.writerIndex b.readerIndex
def writableBytes (b : Buffer) : Nat := sizeSub b.buffer.size b.writerIndex
def prependableBytes (b : Buffer) : Nat := b.readerIndex
def peek (b : Buffer) : Nat := b.readerIndex
def beginWrite (b : Buffer) : Nat := b.writerIndex

def readable (b : Buffer) : Bytes := window b.buffer.cells b.readerIndex b.writerIndex

def retrieveAll (b : Buffer) : Buffer :=
  { b with readerIndex := kCheapPrepend, writerIndex := kCheapPrepend }

def retrieve (b : Buffer) (len : Nat) : Buffer :=
  if len < b.readableBytes then { b with readerIndex := sizeAdd b.readerIndex len }
  else b.retrieveAll

def retrieveUntil (b : Buffer) (last : Nat) : Buffer := b.retrieve (sizeSub last b.peek)

def retrieveAsString (b : Buffer) (len : Nat) : Option (Bytes × Buffer) :=
  if b.peek + len ≤ b.buffer.size then
    some (window b.buffer.cells b.peek (b.peek + len), b.retrieve len)
  else none

def retrieveAllAsString (b : Buffer) : Option (Bytes × Buffer) := b.retrieveAsString b.readableBytes

/- The parameter is an int, and both sums convert it back to an unsigned size. -/
def makeSpace (b : Buffer) (len : Int) : Option Buffer :=
  if sizeAdd b.writableBytes b.prependableBytes < sizeAdd (widen len) kCheapPrepend then do
    let v ← b.buffer.resize (sizeAdd b.writerIndex (widen len))
    some { b with buffer := v }
  else do
    let readable := b.readableBytes
    let v ← b.buffer.copyWithin (b.writerIndex - b.readerIndex) b.readerIndex kCheapPrepend
    some ⟨v, kCheapPrepend, sizeAdd kCheapPrepend readable⟩

def ensureWritableBytes (b : Buffer) (len : Nat) : Option Buffer :=
  if b.writableBytes < len then b.makeSpace (narrow len) else some b

def append (b : Buffer) (data : Bytes) : Option Buffer := do
  let b ← b.ensureWritableBytes data.length
  let v ← b.buffer.write b.beginWrite data
  some { b with buffer := v, writerIndex := sizeAdd b.writerIndex data.length }

/- readv fills the tail of the vector first and, when that tail is shorter than
extrabuf, extrabuf after it; it never returns more than it was offered. -/
def iovecTotal (b : Buffer) : Nat :=
  if b.writableBytes < extrabufSize then b.writableBytes + extrabufSize else b.writableBytes

def readFd (b : Buffer) : Readv → Option (Buffer × Int)
  | .failed _ => some (b, -1)
  | .got data =>
      if data.length ≤ b.iovecTotal then do
        let writable := b.writableBytes
        let v ← b.buffer.write b.beginWrite (data.take writable)
        let filled := { b with buffer := v }
        if data.length ≤ writable then
          some ({ filled with writerIndex := sizeAdd b.writerIndex data.length }, data.length)
        else do
          let b ← append { filled with writerIndex := v.size } (data.drop writable)
          some (b, data.length)
      else none

/- The comment over the class: 0 <= readerIndex <= writerIndex <= size, where the
reader never goes below the prepend area. -/
structure Valid (b : Buffer) : Prop where
  cheap : kCheapPrepend ≤ b.readerIndex
  order : b.readerIndex ≤ b.writerIndex
  inside : b.writerIndex ≤ b.buffer.size

theorem sizeBound (b : Buffer) : b.buffer.size < 2 ^ 63 := by
  have h := b.buffer.bounded
  unfold maxSize at h
  unfold CharVector.size
  omega

theorem readableBytesEq {b : Buffer} (valid : Valid b) :
    b.readableBytes = b.writerIndex - b.readerIndex := by
  have bound := b.sizeBound
  exact sizeSubExact valid.order (by unfold sizeLimit; have := valid.inside; omega)

theorem writableBytesEq {b : Buffer} (valid : Valid b) :
    b.writableBytes = b.buffer.size - b.writerIndex := by
  have bound := b.sizeBound
  exact sizeSubExact valid.inside (by unfold sizeLimit; omega)

theorem readableLength {b : Buffer} (valid : Valid b) :
    b.readable.length = b.writerIndex - b.readerIndex :=
  windowLength valid.inside

theorem readableBytesLength {b : Buffer} (valid : Valid b) :
    b.readableBytes = b.readable.length := by
  rw [readableBytesEq valid, readableLength valid]

theorem freshSize : fresh.buffer.size = kCheapPrepend + kInitialSize := by
  rw [fresh]
  exact List.length_replicate

theorem freshFront : fresh.readerIndex = kCheapPrepend ∧ fresh.writerIndex = kCheapPrepend := by
  rw [fresh]
  exact ⟨rfl, rfl⟩

theorem freshValid : Valid fresh := by
  obtain ⟨reader, writer⟩ := freshFront
  exact ⟨Nat.le_of_eq reader.symm, Nat.le_of_eq (reader.trans writer.symm),
    by rw [writer, freshSize]; exact Nat.le_add_right _ _⟩

@[simp] theorem freshReadable : fresh.readable = [] := by
  rw [fresh]
  exact windowEmpty _ _

theorem retrieveAllValid {b : Buffer} (valid : Valid b) : Valid b.retrieveAll := by
  obtain ⟨cheap, order, inside⟩ := valid
  exact ⟨Nat.le_refl _, Nat.le_refl _, by change kCheapPrepend ≤ b.buffer.size; omega⟩

@[simp] theorem retrieveAllReadable (b : Buffer) : b.retrieveAll.readable = [] := windowEmpty _ _

theorem retrieveValid {b : Buffer} (valid : Valid b) (len : Nat) : Valid (b.retrieve len) := by
  unfold retrieve
  split
  · rename_i less
    rw [readableBytesEq valid] at less
    obtain ⟨cheap, order, inside⟩ := valid
    have bound := b.sizeBound
    have exact_ : sizeAdd b.readerIndex len = b.readerIndex + len :=
      sizeAddExact (by unfold sizeLimit; omega)
    exact ⟨by simp only [exact_]; omega, by simp only [exact_]; omega, inside⟩
  · exact retrieveAllValid valid

theorem retrieveReadable {b : Buffer} (valid : Valid b) (len : Nat) :
    (b.retrieve len).readable = b.readable.drop len := by
  have total := readableLength valid
  unfold retrieve
  split
  · rename_i less
    rw [readableBytesEq valid] at less
    have bound := b.sizeBound
    have inside := valid.inside
    have moved : sizeAdd b.readerIndex len = b.readerIndex + len :=
      sizeAddExact (by unfold sizeLimit; omega)
    simp only [readable, moved, windowDrop]
  · rename_i all
    rw [readableBytesEq valid] at all
    rw [retrieveAllReadable, List.drop_eq_nil_of_le (by omega)]

theorem retrieveWriter {b : Buffer} (valid : Valid b) (len : Nat) :
    (b.retrieve len).writerIndex ≤ b.writerIndex ∧ (b.retrieve len).buffer = b.buffer := by
  unfold retrieve
  split
  · exact ⟨Nat.le_refl _, rfl⟩
  · exact ⟨Nat.le_trans valid.cheap valid.order, rfl⟩

theorem retrieveUntilReadable {b : Buffer} (valid : Valid b) {n : Nat}
    (inside : n ≤ b.readable.length) :
    Valid (b.retrieveUntil (b.peek + n)) ∧
      (b.retrieveUntil (b.peek + n)).readable = b.readable.drop n := by
  have bound := b.sizeBound
  have last := valid.inside
  have order := valid.order
  rw [readableLength valid] at inside
  have back : sizeSub (b.peek + n) b.peek = n := by
    rw [sizeSubExact (Nat.le_add_right _ _) (by unfold sizeLimit peek; omega)]
    omega
  rw [retrieveUntil, back]
  exact ⟨retrieveValid valid n, retrieveReadable valid n⟩

theorem retrieveAsStringEq {b : Buffer} (valid : Valid b) {len : Nat}
    (inside : len ≤ b.readable.length) :
    b.retrieveAsString len = some (b.readable.take len, b.retrieve len) := by
  have last := valid.inside
  have order := valid.order
  rw [readableLength valid] at inside
  have fits : b.peek + len ≤ b.buffer.size := by unfold peek; omega
  rw [retrieveAsString, if_pos fits, readable, windowTake (by omega), peek]

structure Extends (b c : Buffer) (data : Bytes) : Prop where
  valid : Valid c
  content : c.readable = b.readable ++ data
  writer : c.writerIndex ≤ b.writerIndex + data.length
  size : b.buffer.size ≤ c.buffer.size

theorem extendsSelf {b : Buffer} (valid : Valid b) : Extends b b [] :=
  ⟨valid, (List.append_nil _).symm, Nat.le_refl _, Nat.le_refl _⟩

theorem extendsTrans {a b c : Buffer} {xs ys : Bytes} (first : Extends a b xs)
    (second : Extends b c ys) : Extends a c (xs ++ ys) := by
  refine ⟨second.valid, ?_, ?_, Nat.le_trans first.size second.size⟩
  · rw [second.content, first.content, List.append_assoc]
  · have h := first.writer
    have g := second.writer
    rw [List.length_append]
    omega

theorem growSpec {b : Buffer} (valid : Valid b) {len : Nat}
    (needed : b.buffer.size ≤ b.writerIndex + len) (fits : b.writerIndex + len ≤ maxSize) :
    ∃ v, b.buffer.resize (b.writerIndex + len) = some v ∧ Extends b { b with buffer := v } [] ∧
      v.size = b.writerIndex + len := by
  obtain ⟨v, ok, cells⟩ := CharVector.resizeGrown needed fits
  have total : v.size = b.writerIndex + len := by
    simp only [CharVector.size, cells, List.length_append, List.length_replicate] at needed ⊢
    omega
  refine ⟨v, ok, ⟨⟨valid.cheap, valid.order, ?_⟩, ?_, Nat.le_refl _, ?_⟩, total⟩
  · simp only [total]; omega
  · simp only [readable, cells, List.append_nil]
    exact windowGrown _ valid.inside
  · simp only [total]; exact needed

theorem slideSpec {b : Buffer} (valid : Valid b) :
    ∃ v, b.buffer.copyWithin (b.writerIndex - b.readerIndex) b.readerIndex kCheapPrepend = some v ∧
      v.size = b.buffer.size ∧
      Extends b ⟨v, kCheapPrepend, kCheapPrepend + (b.writerIndex - b.readerIndex)⟩ [] := by
  obtain ⟨cheap, order, inside⟩ := valid
  have span : b.readerIndex + (b.writerIndex - b.readerIndex) = b.writerIndex := by omega
  obtain ⟨v, ok, cells⟩ := CharVector.copyWithinDown (v := b.buffer) cheap
    (show b.readerIndex + (b.writerIndex - b.readerIndex) ≤ b.buffer.size by omega)
  rw [span] at cells
  have count : (window b.buffer.cells b.readerIndex b.writerIndex).length =
      b.writerIndex - b.readerIndex := windowLength inside
  have fits : kCheapPrepend + (window b.buffer.cells b.readerIndex b.writerIndex).length ≤
      b.buffer.cells.length := by
    rw [count]
    change _ ≤ b.buffer.size
    omega
  have total : v.size = b.buffer.size := by
    rw [CharVector.size, cells, spliceLength fits, CharVector.size]
  refine ⟨v, ok, total, ⟨⟨Nat.le_refl _, Nat.le_add_right _ _, ?_⟩, ?_, ?_, Nat.le_of_eq total.symm⟩⟩
  · simp only [total]; omega
  · have h := windowSplice (Nat.le_refl kCheapPrepend) fits
    rw [count] at h
    rw [readable, cells, h, windowEmpty, List.nil_append, List.append_nil, readable]
  · simp only [List.length_nil]; omega

theorem roomEq {b : Buffer} (valid : Valid b) :
    sizeAdd b.writableBytes b.prependableBytes = b.buffer.size - b.writerIndex + b.readerIndex := by
  have bound := b.sizeBound
  have inside := valid.inside
  have order := valid.order
  rw [writableBytesEq valid, prependableBytes]
  exact sizeAddExact (by unfold sizeLimit; omega)

theorem makeSpaceSlides {b : Buffer} (valid : Valid b) (len : Int)
    (enough : ¬ b.buffer.size - b.writerIndex + b.readerIndex < sizeAdd (widen len) kCheapPrepend) :
    ∃ c, b.makeSpace len = some c ∧ Extends b c [] ∧ c.readerIndex = kCheapPrepend ∧
      c.buffer.size - c.writerIndex = b.buffer.size - b.writerIndex + b.readerIndex - kCheapPrepend := by
  have bound := b.sizeBound
  have cheap := valid.cheap
  have order := valid.order
  have inside := valid.inside
  obtain ⟨v, ok, total, slides⟩ := slideSpec valid
  have moved : sizeAdd kCheapPrepend b.readableBytes = kCheapPrepend + (b.writerIndex - b.readerIndex) := by
    rw [readableBytesEq valid]
    exact sizeAddExact (by unfold sizeLimit kCheapPrepend; omega)
  refine ⟨_, ?_, slides, rfl, by simp only [total]; omega⟩
  rw [makeSpace, roomEq valid, if_neg enough]
  simp only [ok, moved, bind, Option.bind]

theorem makeSpaceSpec {b : Buffer} (valid : Valid b) {len : Nat} (small : len < intLimit)
    (needed : b.writableBytes < len) :
    (∃ c, b.makeSpace (narrow len) = some c ∧ Extends b c [] ∧
      len ≤ c.buffer.size - c.writerIndex) ∨
    (b.makeSpace (narrow len) = none ∧ maxSize < b.writerIndex + len) := by
  have bound := b.sizeBound
  have inside := valid.inside
  rw [writableBytesEq valid] at needed
  have carried := widenNarrow small
  unfold intLimit at small
  have want : sizeAdd (widen (narrow len)) kCheapPrepend = len + kCheapPrepend := by
    rw [carried]
    exact sizeAddExact (by unfold sizeLimit kCheapPrepend; omega)
  by_cases short : b.buffer.size - b.writerIndex + b.readerIndex < len + kCheapPrepend
  · have grown : sizeAdd b.writerIndex (widen (narrow len)) = b.writerIndex + len := by
      rw [carried]
      exact sizeAddExact (by unfold sizeLimit; omega)
    rw [makeSpace, roomEq valid, want, if_pos short, grown]
    by_cases fits : b.writerIndex + len ≤ maxSize
    · obtain ⟨v, ok, grows, total⟩ := growSpec valid (by omega) fits
      rw [ok]
      exact .inl ⟨_, rfl, grows, by simp only [total]; omega⟩
    · have refused : b.buffer.resize (b.writerIndex + len) = none :=
        CharVector.resizeRefused (by omega)
      rw [refused]
      exact .inr ⟨rfl, by omega⟩
  · obtain ⟨c, ok, slides, _, room⟩ := makeSpaceSlides valid (narrow len) (by rwa [want])
    exact .inl ⟨c, ok, slides, by omega⟩

theorem ensureWritableBytesSpec {b : Buffer} (valid : Valid b) {len : Nat}
    (small : len < intLimit) :
    (∃ c, b.ensureWritableBytes len = some c ∧ Extends b c [] ∧
      len ≤ c.buffer.size - c.writerIndex) ∨
    (b.ensureWritableBytes len = none ∧ maxSize < b.writerIndex + len) := by
  unfold ensureWritableBytes
  split
  · exact makeSpaceSpec valid small (by assumption)
  · rename_i enough
    rw [writableBytesEq valid] at enough
    exact .inl ⟨b, rfl, extendsSelf valid, by omega⟩

theorem writeSpec {b : Buffer} (valid : Valid b) {data : Bytes}
    (fits : data.length ≤ b.buffer.size - b.writerIndex) :
    ∃ v, b.buffer.write b.beginWrite data = some v ∧ v.size = b.buffer.size ∧
      sizeAdd b.writerIndex data.length = b.writerIndex + data.length ∧
      Extends b { b with buffer := v, writerIndex := b.writerIndex + data.length } data := by
  obtain ⟨cheap, order, inside⟩ := valid
  have bound := b.sizeBound
  have room : b.writerIndex + data.length ≤ b.buffer.size := by omega
  obtain ⟨v, ok, cells⟩ := CharVector.writeInside room
  have total : v.size = b.buffer.size := by
    rw [CharVector.size, cells, spliceLength room, CharVector.size]
  refine ⟨v, ok, total, sizeAddExact (by unfold sizeLimit; omega), ⟨cheap, ?_, ?_⟩, ?_,
    Nat.le_refl _, Nat.le_of_eq total.symm⟩
  · exact Nat.le_add_right_of_le order
  · simpa only [total] using room
  · simp only [readable, cells]
    exact windowSplice order room

theorem appendAfter {b c : Buffer} {data : Bytes} (ok : b.ensureWritableBytes data.length = some c)
    (ready : Extends b c []) (room : data.length ≤ c.buffer.size - c.writerIndex) :
    ∃ d, b.append data = some d ∧ Extends b d data := by
  obtain ⟨v, wrote, _, moved, written⟩ := writeSpec ready.valid room
  refine ⟨_, ?_, extendsTrans ready written⟩
  simp only [append, ok, bind, Option.bind, wrote, moved]

theorem appendSpec {b : Buffer} (valid : Valid b) {data : Bytes} (small : data.length < intLimit) :
    (∃ c, b.append data = some c ∧ Extends b c data) ∨
    (b.append data = none ∧ maxSize < b.writerIndex + data.length) := by
  rcases ensureWritableBytesSpec valid small with ⟨c, ok, ready, room⟩ | ⟨failed, beyond⟩
  · exact .inl (appendAfter ok ready room)
  · exact .inr ⟨by simp [append, failed], beyond⟩

theorem appended {b c : Buffer} (valid : Valid b) {data : Bytes} (small : data.length < intLimit)
    (ok : b.append data = some c) : Extends b c data := by
  rcases appendSpec valid small with ⟨d, done, added⟩ | ⟨failed, _⟩
  · rw [done] at ok
    cases Option.some.inj ok
    exact added
  · rw [failed] at ok; contradiction

theorem appendInPlace {b : Buffer} (valid : Valid b) {data : Bytes}
    (room : data.length ≤ b.buffer.size - b.writerIndex) :
    ∃ c, b.append data = some c ∧ Extends b c data := by
  refine appendAfter ?_ (extendsSelf valid) room
  rw [ensureWritableBytes, if_neg]
  rw [writableBytesEq valid]
  omega

theorem lengthLost {b : Buffer} (valid : Valid b) {len : Nat} (big : intLimit ≤ len) :
    sizeAdd b.writerIndex (widen (narrow len)) < b.writerIndex + len ∨
      maxSize < sizeAdd b.writerIndex (widen (narrow len)) := by
  have bound := b.sizeBound
  have inside := valid.inside
  unfold sizeAdd widen narrow intLimit sizeLimit maxSize at *
  simp only [Int.ofNat_eq_natCast]
  split <;> omega

theorem makeSpaceBig {b c : Buffer} (valid : Valid b) {len : Nat} (big : intLimit ≤ len)
    (made : b.makeSpace (narrow len) = some c) :
    c.buffer.size < c.writerIndex + len ∨
      (¬ b.buffer.size - b.writerIndex + b.readerIndex < sizeAdd (widen (narrow len)) kCheapPrepend ∧
        Extends b c [] ∧ c.readerIndex = kCheapPrepend ∧
        c.buffer.size - c.writerIndex = b.buffer.size - b.writerIndex + b.readerIndex - kCheapPrepend) := by
  by_cases short : b.buffer.size - b.writerIndex + b.readerIndex < sizeAdd (widen (narrow len)) kCheapPrepend
  · rw [makeSpace, roomEq valid, if_pos short] at made
    obtain ⟨v, grown, last⟩ := Option.bind_eq_some_iff.mp made
    rw [← Option.some.inj last]
    rcases lengthLost valid big with less | beyond
    · rw [← CharVector.resizeSize grown] at less
      exact .inl less
    · rw [CharVector.resizeRefused beyond] at grown
      contradiction
  · obtain ⟨d, ok, slides, front, room⟩ := makeSpaceSlides valid _ short
    cases Option.some.inj (ok.symm.trans made)
    exact .inr ⟨short, slides, front, room⟩

theorem appendOver {b : Buffer} (valid : Valid b) {data : Bytes} (big : intLimit ≤ data.length)
    (short : b.buffer.size - b.writerIndex + b.readerIndex < data.length + kCheapPrepend) :
    b.append data = none := by
  have cheap := valid.cheap
  have needed : b.writableBytes < data.length := by rw [writableBytesEq valid]; omega
  simp only [append, ensureWritableBytes, if_pos needed]
  cases made : b.makeSpace (narrow data.length) with
  | none => rfl
  | some c =>
    have outside : c.buffer.write c.beginWrite data = none := by
      refine CharVector.writeOutside ?_
      rcases makeSpaceBig valid big made with less | ⟨_, slides, _, room⟩
      · exact less
      · have inside := slides.valid.inside
        simp only [beginWrite]
        omega
    simp only [bind, Option.bind, outside]

theorem appendedAny {b c : Buffer} (valid : Valid b) {data : Bytes} (ok : b.append data = some c) :
    Extends b c data := by
  by_cases small : data.length < intLimit
  · exact appended valid small ok
  · have ok' := ok
    simp only [append, bind, Option.bind_eq_some_iff] at ok'
    obtain ⟨ready, made, v, wrote, _⟩ := ok'
    have extended : Extends b ready [] := by
      unfold ensureWritableBytes at made
      split at made
      · rcases makeSpaceBig valid (by omega) made with less | ⟨_, slides, _⟩
        · rw [beginWrite, CharVector.writeOutside less] at wrote
          contradiction
        · exact slides
      · rw [← Option.some.inj made]
        exact extendsSelf valid
    have room : data.length ≤ ready.buffer.size - ready.writerIndex := by
      by_contra beyond
      have inside := extended.valid.inside
      rw [CharVector.writeOutside (by simp only [beginWrite]; omega)] at wrote
      contradiction
    obtain ⟨d, done, added⟩ := appendAfter made extended room
    cases Option.some.inj (done.symm.trans ok)
    exact added

theorem appendedFront {b c : Buffer} (valid : Valid b) (front : b.readerIndex = kCheapPrepend)
    {data : Bytes} (ok : b.append data = some c) :
    Extends b c data ∧ c.readerIndex = kCheapPrepend := by
  refine ⟨appendedAny valid ok, ?_⟩
  simp only [append, ensureWritableBytes, makeSpace, bind, Option.bind_eq_some_iff] at ok
  obtain ⟨d, ready, v, _, last⟩ := ok
  cases Option.some.inj last
  split at ready
  · split at ready
    · obtain ⟨w, _, grown⟩ := Option.bind_eq_some_iff.mp ready
      cases Option.some.inj grown
      exact front
    · obtain ⟨w, _, slid⟩ := Option.bind_eq_some_iff.mp ready
      cases Option.some.inj slid
      rfl
  · cases Option.some.inj ready
    exact front

theorem readFdSpec {b : Buffer} (valid : Valid b) {data : Bytes}
    (offered : data.length ≤ b.iovecTotal) :
    (∃ c, b.readFd (.got data) = some (c, (data.length : Int)) ∧ Extends b c data) ∨
    (b.readFd (.got data) = none ∧ maxSize < b.writerIndex + data.length) := by
  have bound := b.sizeBound
  have inside := valid.inside
  have tail := writableBytesEq valid
  have short : (data.take b.writableBytes).length ≤ b.buffer.size - b.writerIndex := by
    simp only [List.length_take, tail]; omega
  obtain ⟨v, wrote, total, _, written⟩ := writeSpec valid short
  simp only [readFd, if_pos offered, wrote, bind, Option.bind]
  by_cases fits : data.length ≤ b.writableBytes
  · -- everything landed in the vector
    rw [List.take_of_length_le fits] at written
    have moved : sizeAdd b.writerIndex data.length = b.writerIndex + data.length :=
      sizeAddExact (by unfold sizeLimit; omega)
    simp only [if_pos fits, moved]
    exact .inl ⟨_, rfl, written⟩
  · -- the tail is full and the rest is appended from extrabuf
    have all : (data.take b.writableBytes).length = b.writableBytes := by
      rw [List.length_take]; omega
    have full : b.writerIndex + b.writableBytes = v.size := by omega
    rw [all, full] at written
    have rest : (data.drop b.writableBytes).length < intLimit := by
      unfold iovecTotal extrabufSize at offered
      rw [List.length_drop]
      unfold intLimit
      split at offered <;> omega
    simp only [if_neg fits]
    rcases appendSpec written.valid rest with ⟨c, ok, added⟩ | ⟨failed, beyond⟩
    · refine .inl ⟨c, by rw [ok], ?_⟩
      have both := extendsTrans written added
      rwa [List.take_append_drop] at both
    · refine .inr ⟨by rw [failed], ?_⟩
      simp only [List.length_drop, total] at beyond
      omega

theorem retrieveAllContent {b : Buffer} (valid : Valid b) :
    b.retrieveAllAsString = some (b.readable, b.retrieveAll) := by
  have order := valid.order
  have inside := valid.inside
  have count := readableBytesEq valid
  have last : b.peek + b.readableBytes = b.writerIndex := by rw [count, peek]; omega
  rw [retrieveAllAsString, retrieveAsString, last, if_pos inside, retrieve, if_neg (Nat.lt_irrefl _)]
  rfl

theorem appendGrowth {b c : Buffer} (valid : Valid b) {data : Bytes} (small : data.length < intLimit)
    (ok : b.append data = some c) : c.buffer.size ≤ b.buffer.size + data.length := by
  simp only [append, bind, Option.bind_eq_some_iff] at ok
  obtain ⟨ready, made, v, wrote, last⟩ := ok
  cases Option.some.inj last
  rw [show v.size = ready.buffer.size from CharVector.writeSize wrote]
  simp only [ensureWritableBytes, makeSpace, bind, widenNarrow small] at made
  split at made
  · split at made
    · obtain ⟨w, grown, last⟩ := Option.bind_eq_some_iff.mp made
      cases Option.some.inj last
      have bound := b.sizeBound
      have inside := valid.inside
      rw [show w.size = _ from CharVector.resizeSize grown,
        sizeAddExact (by unfold sizeLimit; unfold intLimit at small; omega)]
      omega
    · obtain ⟨w, slid, last⟩ := Option.bind_eq_some_iff.mp made
      cases Option.some.inj last
      rw [show w.size = b.buffer.size from CharVector.copyWithinSize slid]
      omega
  · cases Option.some.inj made
    omega

theorem readFdExtends {b c : Buffer} (valid : Valid b) {data : Bytes} {n : Int}
    (ok : b.readFd (.got data) = some (c, n)) : n = data.length ∧ Extends b c data := by
  have offered : data.length ≤ b.iovecTotal := by
    by_contra beyond
    simp [readFd, beyond] at ok
  rcases readFdSpec valid offered with ⟨d, done, added⟩ | ⟨failed, _⟩
  · obtain ⟨rfl, rfl⟩ := Prod.mk.inj (Option.some.inj (done.symm.trans ok))
    exact ⟨rfl, added⟩
  · rw [failed] at ok; contradiction

theorem readFdGrowth {b c : Buffer} (valid : Valid b) {data : Bytes} {n : Int}
    (ok : b.readFd (.got data) = some (c, n)) :
    c.buffer.size = b.buffer.size ∨
      b.writableBytes < extrabufSize ∧ c.buffer.size ≤ b.buffer.size + extrabufSize := by
  simp only [readFd, bind] at ok
  split at ok <;> try contradiction
  rename_i offered
  obtain ⟨v, wrote, ok⟩ := Option.bind_eq_some_iff.mp ok
  have same := CharVector.writeSize wrote
  split at ok
  · cases Option.some.inj ok
    exact .inl same
  · rename_i beyond
    obtain ⟨d, appended_, last⟩ := Option.bind_eq_some_iff.mp ok
    cases Option.some.inj last
    have valid' : Valid { b with buffer := v, writerIndex := v.size } := by
      have inside := valid.inside
      exact ⟨valid.cheap, by simp only [same]; exact Nat.le_trans valid.order inside, Nat.le_refl _⟩
    unfold iovecTotal at offered
    split at offered
    · rename_i short
      have rest : (data.drop b.writableBytes).length ≤ extrabufSize := by rw [List.length_drop]; omega
      have growth := appendGrowth valid' (Nat.lt_of_le_of_lt rest (by decide)) appended_
      exact .inr ⟨short, by simp only [same] at growth; omega⟩
    · omega

end Buffer
end TinyNetwork
