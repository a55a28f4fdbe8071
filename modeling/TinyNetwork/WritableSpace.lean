import TinyNetwork.Buffer

/-! What ensureWritableBytes ensures. The length is a size, and makeSpace takes it as
an int: from 2^31 on it arrives as another length. Such a call makes room by chance,
when the slide that the other length leads to is enough, and otherwise leaves too
little, cuts the vector or is refused. -/
namespace TinyNetwork.WritableSpace
open Words Buffer

def Ensures (b : Buffer) (len : Nat) : Prop :=
  ∃ c, b.ensureWritableBytes len = some c ∧ c.readable = b.readable ∧ len ≤ c.writableBytes ∧
    c.writerIndex + len ≤ c.buffer.size

/- The length is an int, or there is no need to make space, or there is when the
readable bytes slide down and the length left in the int does not exceed it. -/
def Carried (b : Buffer) (len : Nat) : Prop :=
  len < intLimit ∨ len ≤ b.buffer.size - b.writerIndex ∨
    len + kCheapPrepend ≤ b.buffer.size - b.writerIndex + b.readerIndex ∧
      (len % 2 ^ 32 < intLimit ∨ 2 ^ 32 - kCheapPrepend ≤ len % 2 ^ 32)

section
variable {b c : Buffer} {len : Nat}

theorem ensuresOf (made : b.ensureWritableBytes len = some c) (extended : Extends b c [])
    (room : len ≤ c.buffer.size - c.writerIndex) : Ensures b len := by
  have inside := extended.valid.inside
  refine ⟨c, made, by simpa using extended.content, ?_, ?_⟩
  · rwa [writableBytesEq extended.valid]
  · by_cases zero : len = 0 <;> omega

theorem slideIff (valid : Valid b) (enough : len + kCheapPrepend ≤ b.buffer.size - b.writerIndex + b.readerIndex) :
    b.buffer.size - b.writerIndex + b.readerIndex < sizeAdd (widen (narrow len)) kCheapPrepend ↔
      ¬ (len % 2 ^ 32 < intLimit ∨ 2 ^ 32 - kCheapPrepend ≤ len % 2 ^ 32) := by
  have bound := b.sizeBound
  have inside := valid.inside
  have order := valid.order
  have cheap := valid.cheap
  unfold sizeAdd widen narrow intLimit sizeLimit kCheapPrepend at *
  simp only [Int.ofNat_eq_natCast]
  split <;> omega

theorem carriedEnsures (valid : Valid b) (room : b.writerIndex + len ≤ maxSize) (carried : Carried b len) :
    Ensures b len := by
  by_cases spare : len ≤ b.buffer.size - b.writerIndex
  · refine ensuresOf ?_ (extendsSelf valid) spare
    rw [ensureWritableBytes, writableBytesEq valid, if_neg (by omega)]
  · rcases carried with small | fits | ⟨enough, arrives⟩
    · rcases ensureWritableBytesSpec valid small with ⟨c, made, extended, left⟩ | ⟨_, beyond⟩
      · exact ensuresOf made extended left
      · omega
    · exact absurd fits spare
    · obtain ⟨c, made, extended, _, left⟩ := makeSpaceSlides valid (narrow len)
        fun short => (slideIff valid enough).mp short arrives
      refine ensuresOf ?_ extended (by omega)
      rwa [ensureWritableBytes, writableBytesEq valid, if_pos (by omega)]

theorem ensuresCarried (valid : Valid b) (ensures : Ensures b len) : Carried b len := by
  obtain ⟨c, made, _, _, inside⟩ := ensures
  by_cases small : len < intLimit
  · exact .inl small
  · by_cases spare : len ≤ b.buffer.size - b.writerIndex
    · exact .inr (.inl spare)
    · rw [ensureWritableBytes, writableBytesEq valid, if_pos (by omega)] at made
      rcases makeSpaceBig valid (by omega) made with less | ⟨slid, extended, _, left⟩
      · omega
      · have cheap := valid.cheap
        have order := extended.valid.inside
        have enough : len + kCheapPrepend ≤ b.buffer.size - b.writerIndex + b.readerIndex := by omega
        refine .inr (.inr ⟨enough, ?_⟩)
        by_contra lost
        exact slid ((slideIff valid enough).mpr lost)

theorem ensuresIff (valid : Valid b) (room : b.writerIndex + len ≤ maxSize) :
    Ensures b len ↔ Carried b len :=
  ⟨ensuresCarried valid, carriedEnsures valid room⟩

theorem ensuresIffSample : Ensures fresh 2000 :=
  (ensuresIff freshValid (by rw [freshFront.2]; decide)).mpr (.inl (by decide))

end

/- Four gigabytes arrive as nothing: the call returns with the 1024 bytes there were. -/
theorem fourGigabytes : Valid fresh ∧ fresh.writerIndex + 2 ^ 32 ≤ maxSize ∧
    (∃ c, fresh.ensureWritableBytes (2 ^ 32) = some c ∧ c.writableBytes = kInitialSize) ∧
    ¬ Ensures fresh (2 ^ 32) := by
  obtain ⟨reader, writer⟩ := freshFront
  have zero : narrow (2 ^ 32) = 0 := by decide
  obtain ⟨c, slid, extended, _, left⟩ := makeSpaceSlides freshValid 0
    (by rw [freshSize, reader, writer]; decide)
  have made : fresh.ensureWritableBytes (2 ^ 32) = some c := by
    rw [ensureWritableBytes, writableBytesEq freshValid, freshSize, writer, zero, if_pos (by decide), slid]
  have writable : c.writableBytes = kInitialSize := by
    rw [writableBytesEq extended.valid, left, freshSize, reader, writer]
    decide
  refine ⟨freshValid, by rw [writer]; decide, ⟨c, made, writable⟩, ?_⟩
  rintro ⟨d, again, _, enough, _⟩
  cases Option.some.inj (made.symm.trans again)
  rw [writable] at enough
  exact absurd enough (by decide)

end TinyNetwork.WritableSpace
