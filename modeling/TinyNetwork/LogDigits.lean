import TinyNetwork.LogStatement

/-! formatInteger as it runs: one char after the other is stored at cur, from the last
digit to the sign, then a NUL, and the chars are reversed where they stand. A store
outside the array or an index outside the table of digits is `none`. It is the same
as writing the numeral at once. -/
namespace TinyNetwork.LogDigits
open Windows Decimals LogStream LogStatement

def store (bytes : Bytes) (pos : Nat) (c : UInt8) : Option Bytes :=
  if pos < bytes.length then some (bytes.set pos c) else none

/- zero[remainder]; zero points at the 0 in the middle of digits. -/
def zero (remainder : Int) : Option UInt8 :=
  if 0 ≤ 9 + remainder then digits[(9 + remainder).toNat]? else none

def digitLoop (num : Int) (cur : Nat) (bytes : Bytes) : Option (Nat × Bytes) := do
  let c ← zero (num.tmod 10)
  let bytes ← store bytes cur c
  if num.tdiv 10 = 0 then some (cur + 1, bytes) else digitLoop (num.tdiv 10) (cur + 1) bytes
termination_by num.natAbs
decreasing_by exact tdivLess ‹_›

def storeSign (num : Int) (cur : Nat) (bytes : Bytes) : Option (Nat × Bytes) :=
  if num < 0 then do
    let bytes ← store bytes cur 45
    some (cur + 1, bytes)
  else some (cur, bytes)

def storeNumber (num : Int) (start : Nat) (bytes : Bytes) : Option (Nat × Bytes) := do
  let (cur, bytes) ← digitLoop num start bytes
  let (cur, bytes) ← storeSign num cur bytes
  let bytes ← store bytes cur 0
  some (cur, splice bytes start (window bytes start cur).reverse)

def formatInteger (s : LogStream) (num : Int) : Option LogStream :=
  if kMaxNumericSize ≤ s.buffer.avail then do
    let start := s.buffer.cur
    let (cur, bytes) ← storeNumber num start s.buffer.data.bytes
    if h : bytes.length = kSmallBuffer ∧ start + (cur - start) ≤ kSmallBuffer then
      some ⟨⟨⟨bytes, h.1⟩, start + (cur - start), h.2⟩⟩
    else none
  else some s

theorem storeSpec {bytes : Bytes} {pos : Nat} (inside : pos < bytes.length) (c : UInt8) :
    store bytes pos c = some (splice bytes pos [c]) := by
  rw [store, if_pos inside, spliceCons c [] inside]
  simp [splice]

theorem remainderInside (num : Int) : 0 ≤ 9 + num.tmod 10 ∧ (9 + num.tmod 10).toNat < digits.length := by
  have size : (num.tmod 10).natAbs = num.natAbs % 10 := Int.natAbs_tmod num 10
  have length : digits.length = 19 := by decide
  omega

theorem zeroSpec (num : Int) : zero (num.tmod 10) = some (digit (num.tmod 10)) := by
  obtain ⟨positive, inside⟩ := remainderInside num
  rw [zero, if_pos positive, digit, List.getD_eq_getElem?_getD, List.getElem?_eq_getElem inside]
  rfl

theorem digitLoopSpec (num : Int) (cur : Nat) (bytes : Bytes)
    (fits : cur + (reversedDigits num).length ≤ bytes.length) :
    digitLoop num cur bytes =
      some (cur + (reversedDigits num).length, splice bytes cur (reversedDigits num)) := by
  induction num using reversedDigits.induct generalizing cur bytes with
  | case1 num last =>
    rw [reversedDigits, if_pos last, List.length_singleton] at fits ⊢
    have inside : cur < bytes.length := fits
    have stored := storeSpec inside (digit (num.tmod 10))
    rw [digitLoop]
    simp only [zeroSpec, stored, bind, Option.bind, if_pos last]
  | case2 num more ih =>
    rw [reversedDigits, if_neg more, List.length_cons] at fits ⊢
    have inside : cur < bytes.length := by omega
    have stored := storeSpec inside (digit (num.tmod 10))
    have one : (splice bytes cur [digit (num.tmod 10)]).length = bytes.length := spliceLength inside
    have next := ih (cur + 1) (splice bytes cur [digit (num.tmod 10)]) (by rw [one]; omega)
    have joined : splice (splice bytes cur [digit (num.tmod 10)]) (cur + 1) (reversedDigits (num.tdiv 10)) =
        splice bytes cur (digit (num.tmod 10) :: reversedDigits (num.tdiv 10)) := spliceAppend inside
    rw [digitLoop]
    simp only [zeroSpec, stored, bind, Option.bind, if_neg more, next]
    rw [joined, Nat.add_assoc, Nat.add_comm 1]

theorem storeSignSpec (num : Int) {cur : Nat} {bytes : Bytes} (inside : cur < bytes.length) :
    storeSign num cur bytes =
      some (cur + (if num < 0 then [45] else [] : Bytes).length,
        splice bytes cur (if num < 0 then [45] else [])) := by
  unfold storeSign
  split
  · simp only [storeSpec inside, bind, Option.bind, List.length_singleton]
  · simp [splice]

theorem reversedInPlace {bytes raw : Bytes} {start : Nat} (fits : start + (raw ++ [0]).length ≤ bytes.length) :
    let stored := splice bytes start (raw ++ [0])
    splice stored start (window stored start (start + raw.length)).reverse =
      splice bytes start (raw.reverse ++ [0]) := by
  intro stored
  have all : window stored start (start + (raw ++ [0]).length) = raw ++ [0] := by
    rw [windowSplice (Nat.le_refl start) fits, windowEmpty, List.nil_append]
  have front : window stored start (start + raw.length) = raw := by
    have less : (window stored start (start + (raw ++ [0]).length)).take raw.length =
        window stored start (start + raw.length) := windowTake (by simp)
    rw [← less, all, List.take_left]
  rw [front]
  exact spliceOver fits (List.length_reverse ..)

theorem storeNumberSpec (num : Int) (start : Nat) (bytes : Bytes)
    (fits : start + (integerText num).length + 1 ≤ bytes.length) :
    storeNumber num start bytes =
      some (start + (integerText num).length, splice bytes start (integerText num ++ [0])) := by
  obtain ⟨raw, stored⟩ : ∃ raw, raw = reversedDigits num ++ if num < 0 then [45] else [] := ⟨_, rfl⟩
  have text : integerText num = raw.reverse := congrArg List.reverse stored.symm
  have length : raw.length = (reversedDigits num).length + (if num < 0 then [45] else [] : Bytes).length := by
    rw [stored, List.length_append]
  rw [text, List.length_reverse] at fits ⊢
  have looped := digitLoopSpec num start bytes (by omega)
  have one : (splice bytes start (reversedDigits num)).length = bytes.length := spliceLength (by omega)
  have behind : start + (reversedDigits num).length < (splice bytes start (reversedDigits num)).length := by omega
  have signed := storeSignSpec num behind
  rw [spliceAppend (by omega), Nat.add_assoc, ← length, ← stored] at signed
  have two : (splice bytes start raw).length = bytes.length := spliceLength (by omega)
  have behind' : start + raw.length < (splice bytes start raw).length := by omega
  have closed := storeSpec behind' 0
  rw [spliceAppend (by omega)] at closed
  have room : start + (raw ++ [0]).length ≤ bytes.length := by
    rw [List.length_append, List.length_singleton]
    omega
  have turned := reversedInPlace room
  simp only [storeNumber, looped, signed, closed, turned, bind, Option.bind]

theorem formatIntegerSame {s : LogStream} (v : Numeric) : formatInteger s v.value = s.formatInteger v.value := by
  unfold formatInteger LogStream.formatInteger
  split
  · rename_i enough
    have room := numericRoom v enough
    have size := s.buffer.data.sized
    have inside := room
    unfold FixedBuffer.avail at inside
    have number := storeNumberSpec v.value s.buffer.cur s.buffer.data.bytes (by omega)
    have fits : s.buffer.cur + (integerText v.value ++ [0]).length ≤ s.buffer.data.bytes.length := by
      rw [List.length_append, List.length_singleton]
      omega
    have moved : s.buffer.cur + (s.buffer.cur + (integerText v.value).length - s.buffer.cur) =
        s.buffer.cur + (integerText v.value).length := by omega
    simp only [number, FixedBuffer.put, dif_pos room, moved, bind, Option.bind]
    rw [dif_pos ⟨by rw [spliceLength fits, size], by omega⟩]
  · rfl

theorem formatIntegerContent {s : LogStream} (v : Numeric) (room : kMaxNumericSize ≤ s.buffer.avail) :
    ∃ t, formatInteger s v.value = some t ∧ t.buffer.content = s.buffer.content ++ integer v.value := by
  obtain ⟨c, ok, content⟩ := putContent (numericRoom v room)
  refine ⟨⟨c⟩, ?_, by rw [content, integerTextSpec]⟩
  rw [formatIntegerSame]
  simp only [LogStream.formatInteger, if_pos room, ok, bind, Option.bind]

theorem numeralExact (v : Numeric) {s : LogStream} (room : kMaxNumericSize ≤ s.buffer.avail) :
    (∃ t, formatInteger s v.value = some t ∧ t.buffer.content = s.buffer.content ++ integer v.value) ∧
      Canonical v.value (integer v.value) ∧ readInteger (integer v.value) = v.value ∧
      ∀ num : Int, 0 ≤ 9 + num.tmod 10 ∧ (9 + num.tmod 10).toNat < digits.length :=
  ⟨formatIntegerContent v room, integerCanonical _, readIntegerSpec _, remainderInside⟩

theorem numeralExactLowest :
    integer (-9223372036854775808) = ascii "-9223372036854775808" ∧
      ∃ t, formatInteger ⟨.make (.zero kSmallBuffer)⟩ (-9223372036854775808) = some t ∧
        t.buffer.content = integer (-9223372036854775808) := by
  obtain ⟨⟨t, ok, content⟩, _⟩ := numeralExact ⟨-9223372036854775808, by decide, by decide⟩
    (s := ⟨.make (.zero kSmallBuffer)⟩) (by decide)
  exact ⟨by decide, t, ok, content⟩

end TinyNetwork.LogDigits
