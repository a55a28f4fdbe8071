import TinyNetwork.Logging

/-! What a log statement puts out. Every insertion does what it should except that of
a Buffer; but length() of a FixedBuffer is the length of its array, so the destructor
passes the whole array on, and an inserted Buffer is a string that never fits. -/
namespace TinyNetwork.LogStatement
open Windows Decimals LogStream

def rendered : Piece → Bytes
  | .integer v => integer v.value
  | .char c => [c]
  | .cString (some str) => untilNul str
  | .cString none => ascii "(null)"
  | .string str => str
  | .general data => data
  | .buffer buf => buf.content

def printed : Piece → Bytes
  | .buffer _ => []
  | p => rendered p

def expected (l : Logger) (pieces : List Piece) : Bytes :=
  (Logger.tTime l.tm).take 17 ++ (Logger.microText l.now).take 7 ++ getLevelName l.level ++
    (match l.func with
      | none => []
      | some func => untilNul func ++ [32]) ++
    pieces.flatMap rendered ++ ascii " - " ++ sourceFile l.file ++ [58] ++ integer l.line.value ++ [10]

theorem expectedPieces (l : Logger) (pieces : List Piece) :
    expected l pieces = (l.opening ++ pieces ++ l.finish).flatMap rendered := by
  have dash : untilNul (ascii " - ") = ascii " - " := by decide
  cases func : l.func with
  | none => simp [expected, Logger.opening, Logger.formatTime, Logger.finish, rendered, func, dash]
  | some name => simp [expected, Logger.opening, Logger.formatTime, Logger.finish, rendered, func, dash]

theorem digitSpec (num : Int) : digit (num.tmod 10) = byteOf (num.natAbs % 10).digitChar := by
  have table : ∀ k : Fin 19, digits.getD k 0 = byteOf ((k : Int) - 9).natAbs.digitChar := by decide
  have size : (num.tmod 10).natAbs = num.natAbs % 10 := Int.natAbs_tmod num 10
  have entry := table ⟨(9 + num.tmod 10).toNat, by omega⟩
  rw [digit, entry]
  congr 3
  simp only
  omega

theorem reversedDigitsSpec (num : Int) : (reversedDigits num).reverse = natural num.natAbs := by
  have quotient (num : Int) : (num.tdiv 10).natAbs = num.natAbs / 10 := Int.natAbs_tdiv num 10
  induction num using reversedDigits.induct with
  | case1 num last =>
    have small : num.natAbs < 10 := by
      have zero := quotient num
      rw [last] at zero
      omega
    rw [reversedDigits, if_pos last, List.reverse_singleton, naturalSmall small, digitSpec,
      Nat.mod_eq_of_lt small]
  | case2 num more ih =>
    have big : 10 ≤ num.natAbs := by
      have nonzero := quotient num
      omega
    rw [reversedDigits, if_neg more, List.reverse_cons, ih, quotient, naturalStep big, digitSpec]

theorem integerTextSpec (num : Int) : integerText num = integer num := by
  rw [integerText, List.reverse_append, reversedDigitsSpec, integer]
  split <;> simp

theorem numericLength (v : Numeric) : (integer v.value).length ≤ 21 := by
  have low := v.low
  have high := v.high
  exact integerLength (by decide) (show v.value.natAbs < 10 ^ 20 by omega)

theorem numericRoom (v : Numeric) {room : Nat} (enough : kMaxNumericSize ≤ room) :
    (integerText v.value).length + 1 ≤ room := by
  have length := numericLength v
  rw [integerTextSpec]
  unfold kMaxNumericSize at enough
  omega

section
variable {size : Nat} {b c : FixedBuffer size}

theorem contentLength (b : FixedBuffer size) : b.content.length = b.cur := by
  rw [FixedBuffer.content, windowLength (by rw [b.data.sized]; exact b.inside), Nat.sub_zero]

theorem putContent {text : Bytes} (room : text.length + 1 ≤ b.avail) :
    ∃ c, b.put text = some c ∧ c.content = b.content ++ text := by
  refine ⟨_, by rw [FixedBuffer.put, dif_pos room], ?_⟩
  unfold FixedBuffer.avail at room
  have fits : b.cur + (text ++ [0]).length ≤ b.data.bytes.length := by
    rw [b.data.sized, List.length_append, List.length_singleton]
    omega
  let cells := splice b.data.bytes b.cur (text ++ [0])
  have whole : window cells 0 (b.cur + (text ++ [0]).length) = b.content ++ text ++ [0] := by
    rw [List.append_assoc]
    exact windowSplice (Nat.zero_le _) fits
  have front : (window cells 0 (b.cur + (text ++ [0]).length)).take (b.cur + text.length) =
      window cells 0 (0 + (b.cur + text.length)) := windowTake (by simp)
  have length : b.cur + text.length = (b.content ++ text).length := by
    rw [List.length_append, contentLength]
  rw [whole, length, List.take_left, ← length, Nat.zero_add] at front
  exact front.symm

end

/- A whole array never fits into an array of the same length. -/
theorem bufferLost (s : LogStream) (buf : FixedBuffer kSmallBuffer) : s.append buf.toString = s := by
  have length : buf.toString.length = kSmallBuffer := by
    rw [FixedBuffer.toString, FixedBuffer.length,
      windowLength (Nat.le_of_eq buf.data.sized.symm), Nat.sub_zero]
  have full : ¬ buf.toString.length < s.buffer.avail := by
    rw [length, FixedBuffer.avail]
    omega
  rw [LogStream.append, FixedBuffer.append, dif_neg full]

theorem appendSpec {s : LogStream} {data : Bytes} (room : s.buffer.cur + data.length < kSmallBuffer) :
    (s.append data).buffer.content = s.buffer.content ++ data :=
  FixedBuffer.appendContent (by unfold FixedBuffer.avail; omega)

theorem insertSpec {s : LogStream} {p : Piece}
    (room : s.buffer.cur + (rendered p).length + kMaxNumericSize ≤ kSmallBuffer) :
    ∃ t, s.insert p = some t ∧ t.buffer.content = s.buffer.content ++ printed p := by
  have short : s.buffer.cur + (rendered p).length < kSmallBuffer := by
    unfold kMaxNumericSize at room
    omega
  cases p with
  | integer v =>
    have enough : kMaxNumericSize ≤ s.buffer.avail := by
      unfold FixedBuffer.avail
      omega
    obtain ⟨c, ok, content⟩ := putContent (numericRoom v enough)
    refine ⟨⟨c⟩, ?_, ?_⟩
    · simp only [LogStream.insert, formatInteger, if_pos enough, ok, bind, Option.bind]
    · rw [content, integerTextSpec]
      rfl
  | char c => exact ⟨_, rfl, appendSpec short⟩
  | cString str =>
    cases str with
    | none => exact ⟨_, rfl, appendSpec short⟩
    | some str => exact ⟨_, rfl, appendSpec short⟩
  | string str => exact ⟨_, rfl, appendSpec short⟩
  | general data => exact ⟨_, rfl, appendSpec short⟩
  | buffer buf => exact ⟨s, congrArg some (bufferLost s buf), (List.append_nil _).symm⟩

theorem printedLength (p : Piece) : (printed p).length ≤ (rendered p).length := by
  cases p <;> simp [printed]

theorem insertAllSpec {s : LogStream} {pieces : List Piece}
    (room : s.buffer.cur + (pieces.flatMap rendered).length + kMaxNumericSize ≤ kSmallBuffer) :
    ∃ t, s.insertAll pieces = some t ∧ t.buffer.content = s.buffer.content ++ pieces.flatMap printed := by
  induction pieces generalizing s with
  | nil => exact ⟨s, rfl, (List.append_nil _).symm⟩
  | cons p rest ih =>
    rw [List.flatMap_cons, List.length_append] at room
    obtain ⟨t, ok, content⟩ := insertSpec (s := s) (p := p) (by omega)
    have moved : t.buffer.cur = s.buffer.cur + (printed p).length := by
      rw [← contentLength, content, List.length_append, contentLength]
    have less := printedLength p
    obtain ⟨u, ok', content'⟩ := ih (s := t) (by omega)
    refine ⟨u, ?_, ?_⟩
    · simp only [insertAll, ok, bind, Option.bind, ok']
    · rw [content', content, List.flatMap_cons, List.append_assoc]

theorem outputSpec {l : Logger} {pieces : List Piece} (garbage : Storage kSmallBuffer)
    (room : (expected l pieces).length + kMaxNumericSize ≤ kSmallBuffer) :
    ∃ out, l.output garbage pieces = some out ∧ out.length = kSmallBuffer ∧
      (l.opening ++ pieces ++ l.finish).flatMap printed <+: out := by
  rw [expectedPieces] at room
  have room' : (FixedBuffer.make garbage).cur + ((l.opening ++ pieces ++ l.finish).flatMap rendered).length +
      kMaxNumericSize ≤ kSmallBuffer := by
    rw [FixedBuffer.make, Nat.zero_add]
    exact room
  obtain ⟨t, ok, content⟩ := insertAllSpec (s := ⟨FixedBuffer.make garbage⟩) room'
  refine ⟨window t.buffer.data.bytes 0 t.buffer.length, ?_, ?_, ?_⟩
  · simp only [Logger.output, ok, bind, Option.bind]
  · rw [FixedBuffer.length, windowLength (Nat.le_of_eq t.buffer.data.sized.symm), Nat.sub_zero]
  · rw [FixedBuffer.makeContent, List.nil_append] at content
    have front : (window t.buffer.data.bytes 0 t.buffer.length).take t.buffer.cur =
        window t.buffer.data.bytes 0 (0 + t.buffer.cur) :=
      windowTake (by rw [Nat.zero_add]; exact t.buffer.inside)
    rw [Nat.zero_add] at front
    rw [← content, FixedBuffer.content, ← front]
    exact List.take_prefix _ _

theorem printedPlain {p : Piece} (plain : ∀ buf, p ≠ .buffer buf) : printed p = rendered p := by
  cases p with
  | buffer buf => exact absurd rfl (plain buf)
  | integer | char | cString | string | general => rfl

theorem statementInFront {l : Logger} {pieces : List Piece} (garbage : Storage kSmallBuffer)
    (room : (expected l pieces).length + kMaxNumericSize ≤ kSmallBuffer)
    (plain : ∀ p ∈ pieces, ∀ buf, p ≠ .buffer buf) :
    ∃ out, l.output garbage pieces = some out ∧ expected l pieces <+: out := by
  obtain ⟨out, ok, _, front⟩ := outputSpec garbage room
  refine ⟨out, ok, ?_⟩
  have ours : ∀ p ∈ l.opening ++ l.finish, ∀ buf, p ≠ .buffer buf := by
    intro p member buf same
    rw [same] at member
    cases func : l.func <;> simp [Logger.opening, Logger.formatTime, Logger.finish, func] at member
  have same : (l.opening ++ pieces ++ l.finish).map printed = (l.opening ++ pieces ++ l.finish).map rendered := by
    refine List.map_congr_left fun p member => printedPlain ?_
    rcases List.mem_append.mp member with front | last
    · rcases List.mem_append.mp front with first | middle
      · exact ours p (List.mem_append_left _ first)
      · exact plain p middle
    · exact ours p (List.mem_append_right _ last)
  rw [expectedPieces, List.flatMap_def, ← same, ← List.flatMap_def]
  exact front

theorem statementNeverExact (l : Logger) (garbage : Storage kSmallBuffer) {pieces : List Piece}
    (room : (expected l pieces).length + kMaxNumericSize ≤ kSmallBuffer) :
    ∃ out, l.output garbage pieces = some out ∧ out ≠ expected l pieces := by
  obtain ⟨out, ok, length, _⟩ := outputSpec garbage room
  refine ⟨out, ok, fun same => ?_⟩
  rw [same] at length
  unfold kMaxNumericSize at room
  omega

def infoSample : Logger where
  now := ⟨1669827107123456⟩
  tm := ⟨122, 11, 1, 1, 51, 47⟩
  level := .info
  file := ascii "test/AsyncLoggingTest.cc"
  line := ⟨19, by decide, by decide⟩
  func := none

theorem statementNeverExactSample :
    (expected infoSample [.cString (some (ascii "info"))]).length + kMaxNumericSize ≤ kSmallBuffer ∧
      ∃ out, infoSample.output (.zero kSmallBuffer) [.cString (some (ascii "info"))] = some out ∧
        out ≠ expected infoSample [.cString (some (ascii "info"))] := by
  have room : (expected infoSample [.cString (some (ascii "info"))]).length + kMaxNumericSize ≤ kSmallBuffer := by
    decide
  exact ⟨room, statementNeverExact infoSample (.zero kSmallBuffer) room⟩

theorem infoTooLong :
    expected infoSample [.cString (some (ascii "info"))] =
        ascii "2022/12/01 01:51:123456 INFO  info - AsyncLoggingTest.cc:19\n" ∧
      ∃ out, infoSample.output (.zero kSmallBuffer) [.cString (some (ascii "info"))] = some out ∧
        out.length = 4000 ∧ out ≠ expected infoSample [.cString (some (ascii "info"))] := by
  have text : expected infoSample [.cString (some (ascii "info"))] =
      ascii "2022/12/01 01:51:123456 INFO  info - AsyncLoggingTest.cc:19\n" := by decide
  have room : (expected infoSample [.cString (some (ascii "info"))]).length + kMaxNumericSize ≤ kSmallBuffer := by
    rw [text]
    decide
  obtain ⟨out, ok, length, _⟩ := outputSpec (.zero kSmallBuffer) room
  refine ⟨text, out, ok, length, fun same => ?_⟩
  rw [same, text] at length
  exact absurd length (by decide)

end TinyNetwork.LogStatement
