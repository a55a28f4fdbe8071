import TinyNetwork.Decimals
import TinyNetwork.HttpServer
import TinyNetwork.Separated

/-! The bytes of a response and what a client can read back from them. The header
section is a list of lines, none of them empty and none with a line end inside, so the
first blank line is the one that appendToBuffer writes behind the last of them. -/
namespace TinyNetwork.ResponseFraming
open FirstMatch Separated Buffer HttpResponse

def connection (r : HttpResponse) : List Bytes :=
  if r.closeConnection then [ascii "Connection: close"]
  else [ascii "Content-Length: " ++ Decimals.natural r.body.length, ascii "Connection: Keep-Alive"]

def lines (r : HttpResponse) : List Bytes :=
  (ascii "HTTP/1.1 " ++ Decimals.natural r.statusCode.value ++ [32] ++ r.statusMessage) ::
    (connection r ++ r.headers.map fun header => header.1 ++ ascii ": " ++ header.2)

structure Plain (text : Bytes) : Prop where
  free : ¬ kCRLF <:+: text
  short : text.length < 2 ^ 31

structure Clean (r : HttpResponse) : Prop where
  message : Plain r.statusMessage
  headers : ∀ header ∈ r.headers, Plain header.1 ∧ Plain header.2
  body : r.body.length < 2 ^ 31

structure Framed (r : HttpResponse) (block : Bytes) : Prop where
  found : search (kCRLF ++ kCRLF) block < block.length
  section_ : splitPair 13 10 (block.take (search (kCRLF ++ kCRLF) block)) = lines r
  body : block.drop (search (kCRLF ++ kCRLF) block + 4) = r.body

theorem asciiAppend (s t : String) : ascii (s ++ t) = ascii s ++ ascii t := by
  simp only [ascii, String.toList_append, List.map_append]

theorem asciiNumber (n : Nat) : ascii (toString n) = Decimals.natural n := by
  change ascii n.repr = _
  rw [ascii, Nat.toList_repr, Decimals.natural]
  rfl

/- Ten digits at most, so that the line and its end fit into buf. -/
theorem contentLength {n : Nat} (small : n < 2 ^ 31) :
    formatted ("Content-Length: " ++ toString n ++ "\r\n") =
      ascii "Content-Length: " ++ Decimals.natural n ++ kCRLF := by
  have digits : (Decimals.natural n).length ≤ 10 := Decimals.naturalLength (by decide) (by omega)
  have name : (ascii "Content-Length: ").length = 16 := by decide
  rw [formatted, asciiAppend, asciiAppend, asciiNumber, List.take_of_length_le]
  · rfl
  · simp only [List.length_append, name, show (ascii "\r\n").length = 2 from rfl]
    omega

theorem statusLine (code : HttpStatusCode) :
    formatted ("HTTP/1.1 " ++ toString code.value ++ " ") =
      ascii "HTTP/1.1 " ++ Decimals.natural code.value ++ [32] := by
  have short : (Decimals.natural code.value).length ≤ 3 :=
    Decimals.naturalLength (by decide) (by cases code <;> decide)
  rw [formatted, asciiAppend, asciiAppend, asciiNumber, List.take_of_length_le]
  · rfl
  · simp only [List.length_append, show (ascii "HTTP/1.1 ").length = 9 from rfl,
      show (ascii " ").length = 1 from rfl]
    omega

theorem connectionText {r : HttpResponse} (short : r.body.length < 2 ^ 31) :
    r.connectionLines.flatten = (connection r).flatMap (· ++ kCRLF) := by
  unfold connectionLines connection
  split
  · rfl
  · rw [contentLength short]
    rfl

theorem piecesText {r : HttpResponse} (short : r.body.length < 2 ^ 31) :
    r.pieces.flatten = (lines r).flatMap (· ++ kCRLF) ++ (kCRLF ++ r.body) := by
  have headers : (r.headers.flatMap fun header => [header.1, ascii ": ", header.2, kCRLF]).flatten =
      (r.headers.map fun header => header.1 ++ ascii ": " ++ header.2).flatMap (· ++ kCRLF) := by
    induction r.headers with
    | nil => rfl
    | cons header headers ih => simp [ih]
  simp only [pieces, lines, List.flatten_append, List.flatten_cons, List.flatten_nil, List.flatMap_cons,
    List.flatMap_append, statusLine, connectionText short, headers, List.append_assoc, List.append_nil]

theorem digitsFree (n : Nat) : 13 ∉ Decimals.natural n := by
  intro member
  obtain ⟨c, inside, same⟩ := List.mem_map.mp member
  have digit := Nat.isDigit_of_mem_toDigits (by decide) (by decide) inside
  have byte := Decimals.digitByte digit
  simp only [Char.isDigit, Bool.and_eq_true, decide_eq_true_eq] at digit
  rw [same] at byte
  have low : 48 ≤ c.toNat := digit.1
  have thirteen : (13 : UInt8).toNat = 13 := rfl
  omega

theorem linesFree {r : HttpResponse} (clean : Clean r) :
    ∀ line ∈ lines r, line ≠ [] ∧ ¬ [13, 10] <:+: line := by
  unfold lines
  rw [List.forall_mem_cons, List.forall_mem_append]
  refine ⟨⟨?_, ?_⟩, ?_, ?_⟩
  · simp [ascii]
  · -- the blank behind the code keeps a message that starts with a line feed apart
    have front : ¬ [13, 10] <:+: ascii "HTTP/1.1 " ++ Decimals.natural r.statusCode.value := by
      refine pairAbsent ?_ _
      rw [List.mem_append, not_or]
      exact ⟨by decide, digitsFree _⟩
    rw [List.append_assoc]
    exact pairAppend front (pairCons (by decide) clean.message.free) (by simp)
  · unfold connection
    split
    · simp only [List.forall_mem_singleton]
      decide
    · simp only [List.forall_mem_cons, List.not_mem_nil, false_imp_iff, implies_true, and_true]
      refine ⟨⟨by simp [ascii], pairAbsent ?_ _⟩, by decide⟩
      rw [List.mem_append, not_or]
      exact ⟨by decide, digitsFree _⟩
  · rw [List.forall_mem_map]
    intro header member
    obtain ⟨key, value⟩ := clean.headers header member
    refine ⟨by simp [ascii], ?_⟩
    rw [List.append_assoc]
    refine pairAppend key.free ?_ (by simp [ascii])
    exact pairCons (by decide) (pairCons (by decide) value.free)

theorem framedPieces {r : HttpResponse} (clean : Clean r) : Framed r r.pieces.flatten := by
  have some_ : lines r ≠ [] := List.cons_ne_nil _ _
  have free := linesFree clean
  have place : search (kCRLF ++ kCRLF) r.pieces.flatten = (kCRLF.intercalate (lines r)).length := by
    rw [piecesText clean.body]
    exact searchBlank (by decide) some_ free r.body
  have text : r.pieces.flatten = kCRLF.intercalate (lines r) ++ ((kCRLF ++ kCRLF) ++ r.body) := by
    rw [piecesText clean.body, endedLines kCRLF some_, List.append_assoc, List.append_assoc]
  refine ⟨?_, ?_, ?_⟩
  · rw [place, text]
    simp [kCRLF]
  · rw [place, text, List.take_left]
    exact splitPairJoin (by decide) some_ fun line member => (free line member).2
  · rw [place, text, ← List.drop_drop, List.drop_left]
    rfl

theorem appendPieces {pieces : List Bytes} (short : ∀ piece ∈ pieces, piece.length < 2 ^ 31) {b : Buffer}
    (valid : Valid b) :
    (∃ c, pieces.foldlM Buffer.append b = some c ∧ Extends b c pieces.flatten) ∨
    (pieces.foldlM Buffer.append b = none ∧ maxSize < b.writerIndex + pieces.flatten.length) := by
  induction pieces generalizing b with
  | nil => exact .inl ⟨b, rfl, extendsSelf valid⟩
  | cons piece pieces ih =>
    obtain ⟨first, others⟩ := List.forall_mem_cons.mp short
    simp only [List.foldlM_cons, bind, List.flatten_cons, List.length_append]
    rcases appendSpec valid first with ⟨c, ok, added⟩ | ⟨failed, beyond⟩
    · rw [ok, Option.bind_some]
      rcases ih others added.valid with ⟨d, done, more⟩ | ⟨failed, beyond⟩
      · exact .inl ⟨d, done, extendsTrans added more⟩
      · have moved := added.writer
        exact .inr ⟨failed, by omega⟩
    · rw [failed, Option.bind_none]
      exact .inr ⟨rfl, by omega⟩

theorem piecesShort {r : HttpResponse} (clean : Clean r) : ∀ piece ∈ r.pieces, piece.length < 2 ^ 31 := by
  have kept (text : String) : (formatted text).length < 2 ^ 31 := by
    rw [formatted, List.length_take]
    omega
  have connection : ∀ piece ∈ r.connectionLines, piece.length < 2 ^ 31 := by
    unfold connectionLines
    split
    · simp only [List.forall_mem_singleton]
      decide
    · simp only [List.forall_mem_cons, List.not_mem_nil, false_imp_iff, implies_true, and_true]
      exact ⟨kept _, by decide⟩
  have headers : ∀ piece ∈ r.headers.flatMap fun header => [header.1, ascii ": ", header.2, kCRLF],
      piece.length < 2 ^ 31 := by
    rw [List.forall_mem_flatMap]
    intro header member
    obtain ⟨key, value⟩ := clean.headers header member
    simp only [List.forall_mem_cons, List.not_mem_nil, false_imp_iff, implies_true, and_true]
    exact ⟨key.short, by decide, value.short, by decide⟩
  unfold pieces
  simp only [List.forall_mem_append, List.forall_mem_cons, List.not_mem_nil, false_imp_iff, implies_true, and_true]
  exact ⟨⟨⟨⟨kept _, clean.message.short, by decide⟩, connection⟩, headers⟩, by decide, clean.body⟩

theorem responseFraming {r : HttpResponse} (clean : Clean r) {b : Buffer} (valid : Valid b) :
    (∃ b' block, r.appendToBuffer b = some b' ∧ b'.readable = b.readable ++ block ∧ Framed r block) ∨
    (r.appendToBuffer b = none ∧ maxSize < b.writerIndex + r.pieces.flatten.length) := by
  rcases appendPieces (piecesShort clean) valid with ⟨b', done, added⟩ | failed
  · exact .inl ⟨b', r.pieces.flatten, done, added.content, framedPieces clean⟩
  · exact .inr failed

def sampleResponse : HttpResponse where
  statusCode := .k200Ok
  statusMessage := ascii "\nOK\r"
  closeConnection := false
  headers := [(ascii "Server", ascii "tiny\r")]
  body := ascii "\r\n\r\nbody"

theorem responseFramingSample :
    ∃ b' block, sampleResponse.appendToBuffer fresh = some b' ∧ b'.readable = fresh.readable ++ block ∧
      Framed sampleResponse block := by
  have clean : Clean sampleResponse := by
    refine ⟨⟨by decide, by decide⟩, ?_, by decide⟩
    simp only [sampleResponse, List.forall_mem_singleton]
    exact ⟨⟨by decide, by decide⟩, ⟨by decide, by decide⟩⟩
  rcases responseFraming clean freshValid with framed | ⟨_, beyond⟩
  · exact framed
  · rw [freshFront.2] at beyond
    exact absurd beyond (by decide)

end TinyNetwork.ResponseFraming
