import TinyNetwork.HttpContext

/-! The parse as a derivation over bytes. `Parses` says which lines the loop of
parseRequest takes from the front of the readable bytes and what each of them does
to the context; it knows nothing of indices, of the two retrieve branches or of
fuel. A derivation and a call of parseRequest on a valid buffer are the same thing. -/
namespace TinyNetwork.HttpTrace
open FirstMatch Buffer HttpContext

structure FirstLine (bytes line rest : Bytes) : Prop where
  cut : bytes = line ++ kCRLF ++ rest
  free : ¬ kCRLF <:+: line

def HasColon (line : Bytes) : Prop := line.idxOf 58 ≠ line.length
instance (line) : Decidable (HasColon line) := by unfold HasColon; infer_instance

def Expecting (c : HttpContext) : Prop :=
  c.state = .kExpectRequestLine ∨ c.state = .kExpectHeaders

def accepted (c : HttpContext) (receiveTime : Timestamp) (line : Bytes) : HttpContext :=
  ⟨.kExpectHeaders, { (c.request.processRequestLine line).2 with receiveTime }⟩

def refused (c : HttpContext) (line : Bytes) : HttpContext :=
  { c with request := (c.request.processRequestLine line).2 }

def headed (c : HttpContext) (line : Bytes) : HttpContext :=
  { c with request := c.request.addHeader line (line.idxOf 58) }

def finished (c : HttpContext) : HttpContext := { c with state := .kGotAll }

inductive Parses (t : Timestamp) :
    HttpContext → Bool → Bytes → HttpContext → Bool → Bytes → Prop where
  | starved {c ok bytes} (state : Expecting c) (none : ¬ kCRLF <:+: bytes) :
      Parses t c ok bytes c ok bytes
  | refuse {c ok bytes line rest} (state : c.state = .kExpectRequestLine)
      (first : FirstLine bytes line rest) (bad : (c.request.processRequestLine line).1 = false) :
      Parses t c ok bytes (refused c line) false bytes
  | accept {c ok bytes line rest d ok' last} (state : c.state = .kExpectRequestLine)
      (first : FirstLine bytes line rest) (good : (c.request.processRequestLine line).1 = true)
      (more : Parses t (accepted c t line) true rest d ok' last) :
      Parses t c ok bytes d ok' last
  | header {c ok bytes line rest d ok' last} (state : c.state = .kExpectHeaders)
      (first : FirstLine bytes line rest) (colon : HasColon line)
      (more : Parses t (headed c line) ok rest d ok' last) :
      Parses t c ok bytes d ok' last
  | finish {c ok bytes line rest} (state : c.state = .kExpectHeaders)
      (first : FirstLine bytes line rest) (plain : ¬ HasColon line) :
      Parses t c ok bytes (finished c) ok rest

theorem firstLineOf {bytes : Bytes} (present : kCRLF <:+: bytes) :
    ∃ line rest, FirstLine bytes line rest := by
  have nonempty : kCRLF ≠ [] := by decide
  have found := searchPresent nonempty present
  exact ⟨_, _, searchFound found, searchFree nonempty bytes⟩

theorem firstLineSearch {bytes line rest : Bytes} (first : FirstLine bytes line rest) :
    search kCRLF bytes = line.length := by
  rw [first.cut]
  exact searchPair (by decide) first.free rest

theorem firstLineLength {bytes line rest : Bytes} (first : FirstLine bytes line rest) :
    bytes.length = line.length + 2 + rest.length := by
  simp only [first.cut, kCRLF, List.length_append, List.length_cons, List.length_nil]

theorem firstLineUnique {bytes line rest line' rest' : Bytes} (a : FirstLine bytes line rest)
    (b : FirstLine bytes line' rest') : line = line' ∧ rest = rest' := by
  have same : line.length = line'.length := (firstLineSearch a).symm.trans (firstLineSearch b)
  have eq := a.cut.symm.trans b.cut
  rw [List.append_assoc, List.append_assoc] at eq
  obtain ⟨hl, hr⟩ := List.append_inj eq same
  exact ⟨hl, List.append_cancel_left hr⟩

theorem firstLineGrown {bytes line rest : Bytes} (first : FirstLine bytes line rest) (more : Bytes) :
    FirstLine (bytes ++ more) line (rest ++ more) :=
  ⟨by rw [first.cut, List.append_assoc], first.free⟩

theorem parsesTotal (t : Timestamp) {c : HttpContext} (state : Expecting c) (ok : Bool)
    (bytes : Bytes) : ∃ d ok' last, Parses t c ok bytes d ok' last := by
  induction h : bytes.length using Nat.strong_induction_on generalizing c ok bytes with
  | _ n ih =>
    by_cases present : kCRLF <:+: bytes
    · obtain ⟨line, rest, first⟩ := firstLineOf present
      have shorter : rest.length < n := by have := firstLineLength first; omega
      rcases state with state | state
      · cases good : (c.request.processRequestLine line).1 with
        | false => exact ⟨_, _, _, .refuse state first good⟩
        | true =>
          obtain ⟨d, ok', last, more⟩ :=
            ih rest.length shorter (c := accepted c t line) (.inr rfl) true rest rfl
          exact ⟨d, ok', last, .accept state first good more⟩
      · by_cases colon : HasColon line
        · obtain ⟨d, ok', last, more⟩ :=
            ih rest.length shorter (c := headed c line) (.inr state) ok rest rfl
          exact ⟨d, ok', last, .header state first colon more⟩
        · exact ⟨_, _, _, .finish state first colon⟩
    · exact ⟨_, _, _, .starved state present⟩

theorem findFirstLine {b : Buffer} (valid : Valid b) {line rest : Bytes}
    (first : FirstLine b.readable line rest) :
    b.findCRLF = some (b.peek + line.length) ∧ b.upTo (b.peek + line.length) = line ∧
      Valid (b.retrieveUntil (b.peek + line.length + 2)) ∧
      (b.retrieveUntil (b.peek + line.length + 2)).readable = rest := by
  have total := readableLength valid
  have length := firstLineLength first
  have order := valid.order
  have inside : line.length + 2 ≤ b.readable.length := by omega
  obtain ⟨kept, content⟩ := retrieveUntilReadable valid inside
  rw [← Nat.add_assoc] at kept content
  refine ⟨?_, ?_, kept, ?_⟩
  · simp only [findCRLF, firstLineSearch first, beginWrite, peek]
    rw [if_neg (by omega)]
  · rw [upTo, Nat.add_sub_cancel_left]
    conv_lhs => rw [first.cut]
    simp
  · rw [content]
    conv_lhs => rw [first.cut]
    simp [kCRLF]

theorem findNone {b : Buffer} (valid : Valid b) (absent : ¬ kCRLF <:+: b.readable) :
    b.findCRLF = none := by
  have total := readableLength valid
  have order := valid.order
  have all : search kCRLF b.readable = b.readable.length := by
    rcases Nat.lt_or_eq_of_le (searchLe kCRLF b.readable) with found | all
    · exact absurd ⟨_, _, (searchFound found).symm⟩ absent
    · exact all
  simp only [findCRLF, all, beginWrite, peek]
  rw [if_pos (by omega)]

structure Consumed (b b' : Buffer) (last : Bytes) : Prop where
  valid : Valid b'
  content : b'.readable = last
  writer : b'.writerIndex ≤ b.writerIndex
  store : b'.buffer = b.buffer

theorem consumedLine {b : Buffer} (valid : Valid b) {line rest : Bytes}
    (first : FirstLine b.readable line rest) :
    Consumed b (b.retrieveUntil (b.peek + line.length + 2)) rest := by
  obtain ⟨_, _, kept, content⟩ := findFirstLine valid first
  obtain ⟨writer, store⟩ := retrieveWriter valid (Words.sizeSub (b.peek + line.length + 2) b.peek)
  exact ⟨kept, content, writer, store⟩

theorem consumedTrans {a b c : Buffer} {rest last : Bytes} (first : Consumed a b rest)
    (second : Consumed b c last) : Consumed a c last :=
  ⟨second.valid, second.content, Nat.le_trans second.writer first.writer,
    second.store.trans first.store⟩

theorem loopTurn (t : Timestamp) (fuel : Nat) (c : HttpContext) (b : Buffer) (ok : Bool) :
    parseLoop t (fuel + 1) ⟨c, b, ok, true⟩ = parseLoop t fuel (parseStep t ⟨c, b, ok, true⟩) := rfl

theorem loopDone (t : Timestamp) (fuel : Nat) (c : HttpContext) (b : Buffer) (ok : Bool) :
    parseLoop t fuel ⟨c, b, ok, false⟩ = some ⟨c, b, ok, false⟩ := by
  unfold parseLoop; rfl

theorem parsesLoop {t : Timestamp} {c d : HttpContext} {ok ok' : Bool} {bytes last : Bytes}
    (parses : Parses t c ok bytes d ok' last) {b : Buffer} (valid : Valid b)
    (content : b.readable = bytes) {fuel : Nat} (enough : bytes.length < fuel) :
    ∃ b', parseLoop t fuel ⟨c, b, ok, true⟩ = some ⟨d, b', ok', false⟩ ∧ Consumed b b' last := by
  induction parses generalizing b fuel with
  | starved state absent =>
    cases fuel with
    | zero => omega
    | succ fuel =>
      have nothing := findNone valid (content ▸ absent)
      refine ⟨b, ?_, ⟨valid, content, Nat.le_refl _, rfl⟩⟩
      rcases state with state | state <;>
        simp only [loopTurn, parseStep, state, nothing, loopDone]
  | refuse state first bad =>
    cases fuel with
    | zero => omega
    | succ fuel =>
      obtain ⟨found, before, _, _⟩ := findFirstLine valid (content ▸ first)
      refine ⟨b, ?_, ⟨valid, content, Nat.le_refl _, rfl⟩⟩
      simp only [loopTurn, parseStep, state, found, before, bad, refused]
      exact loopDone ..
  | @accept c ok bytes line rest d ok' last state first good more ih =>
    cases fuel with
    | zero => omega
    | succ fuel =>
      obtain ⟨found, before, _, _⟩ := findFirstLine valid (content ▸ first)
      have line_ := consumedLine valid (content ▸ first)
      have shorter := firstLineLength first
      obtain ⟨b', run, consumed⟩ := ih line_.valid line_.content (by omega : rest.length < fuel)
      refine ⟨b', ?_, consumedTrans line_ consumed⟩
      simp only [loopTurn, parseStep, state, found, before, good, if_true]
      exact run
  | @header c ok bytes line rest d ok' last state first colon more ih =>
    cases fuel with
    | zero => omega
    | succ fuel =>
      obtain ⟨found, before, _, _⟩ := findFirstLine valid (content ▸ first)
      have line_ := consumedLine valid (content ▸ first)
      have shorter := firstLineLength first
      obtain ⟨b', run, consumed⟩ := ih line_.valid line_.content (by omega : rest.length < fuel)
      refine ⟨b', ?_, consumedTrans line_ consumed⟩
      simp only [loopTurn, parseStep, state, found, before]
      rw [if_pos (show line.idxOf 58 ≠ line.length from colon)]
      simpa only [headed, state] using run
  | @finish c ok bytes line rest state first plain =>
    cases fuel with
    | zero => omega
    | succ fuel =>
      obtain ⟨found, before, _, _⟩ := findFirstLine valid (content ▸ first)
      refine ⟨_, ?_, consumedLine valid (content ▸ first)⟩
      simp only [loopTurn, parseStep, state, found, before]
      rw [if_neg (show ¬ line.idxOf 58 ≠ line.length from plain)]
      exact loopDone ..

theorem parseRequestOf {t : Timestamp} {c d : HttpContext} {ok : Bool} {bytes last : Bytes}
    (parses : Parses t c false bytes d ok last) {b : Buffer} (valid : Valid b)
    (content : b.readable = bytes) :
    ∃ b', parseRequest c b t = some (ok, d, b') ∧ Consumed b b' last := by
  have enough : bytes.length < b.readableBytes + 1 := by
    rw [readableBytesLength valid, content]; omega
  obtain ⟨b', run, consumed⟩ := parsesLoop parses valid content enough
  exact ⟨b', by simp only [parseRequest, run, bind, Option.bind], consumed⟩

end TinyNetwork.HttpTrace
