import TinyNetwork.HttpGrammar
import TinyNetwork.HttpTrace

/-! What parseRequest says and when it comes back. The result starts as false and is
set by a request line only, the headers end at the first line without a colon, and the
loop has no branch for a context that is done. -/
namespace TinyNetwork.HttpVerdict
open FirstMatch Buffer HttpContext HttpGrammar HttpTrace

inductive Reached : HttpContext → Prop where
  | construct : Reached {}
  | parse {c d : HttpContext} {b b' : Buffer} {t : Timestamp} {ok : Bool} (reached : Reached c) (valid : Valid b)
      (done : parseRequest c b t = some (ok, d, b')) : Reached d
  | reset {c : HttpContext} (reached : Reached c) : Reached c.reset

def Terminates (c : HttpContext) (b : Buffer) (t : Timestamp) : Prop :=
  ∃ turns l, parseLoop t turns ⟨c, b, false, true⟩ = some l

theorem gotAllSpins {c : HttpContext} (done : c.gotAll = true) (t : Timestamp) (b : Buffer) (ok : Bool) (turns : Nat) :
    parseLoop t turns ⟨c, b, ok, true⟩ = none := by
  have state : c.state = .kGotAll := by simpa [gotAll] using done
  induction turns with
  | zero => rfl
  | succ turns ih =>
    rw [loopTurn, parseStep]
    simp only [state]
    exact ih

theorem parsesState {t : Timestamp} {c d : HttpContext} {ok ok' : Bool} {bytes last : Bytes}
    (parses : Parses t c ok bytes d ok' last) : Expecting d ∨ d.gotAll = true := by
  induction parses with
  | starved state => exact .inl state
  | refuse state => exact .inl (.inl state)
  | accept _ _ _ _ ih => exact ih
  | header _ _ _ _ ih => exact ih
  | finish => exact .inr rfl

theorem reachedState {c : HttpContext} (reached : Reached c) : Expecting c ∨ c.gotAll = true := by
  induction reached with
  | construct => exact .inl (.inl rfl)
  | @parse c d b b' t ok _ valid done ih =>
    rcases ih with expecting | spinning
    · obtain ⟨e, ok', last, parses⟩ := parsesTotal t expecting false b.readable
      obtain ⟨b'', run, _⟩ := parseRequestOf parses valid rfl
      rw [done] at run
      cases run
      exact parsesState parses
    · simp [parseRequest, gotAllSpins spinning] at done
  | reset => exact .inl (.inl rfl)

theorem expectingOpen {c : HttpContext} (expecting : Expecting c) : c.gotAll = false := by
  rcases expecting with state | state <;> simp [gotAll, state]

def sampleBytes : Bytes := ascii "GET / HTTP/1.1\r\n\r\n"

def sampleDone : HttpContext :=
  ⟨.kGotAll, { method := .kGet, path := ascii "/", version := .kHttp11, receiveTime := ⟨7⟩ }⟩

theorem sampleParses : Parses ⟨7⟩ {} false sampleBytes sampleDone true [] := by
  have first : FirstLine sampleBytes (ascii "GET / HTTP/1.1") kCRLF := ⟨by decide, by decide⟩
  have blank : FirstLine kCRLF [] [] := ⟨by decide, by decide⟩
  exact .accept rfl first (by decide) (.finish rfl blank (by decide))

theorem bufferWith (data : Bytes) (room : data.length ≤ 1024) :
    ∃ b, fresh.append data = some b ∧ Valid b ∧ b.readable = data := by
  have fits : data.length ≤ fresh.buffer.size - fresh.writerIndex := by
    rw [freshSize, freshFront.2]
    exact room
  obtain ⟨b, ok, added⟩ := appendInPlace freshValid fits
  exact ⟨b, ok, added.valid, by rw [added.content, freshReadable, List.nil_append]⟩

theorem parseEndsIff {c : HttpContext} (reached : Reached c) {b : Buffer} (valid : Valid b) (t : Timestamp) :
    Terminates c b t ↔ c.gotAll = false := by
  constructor
  · rintro ⟨turns, l, done⟩
    by_contra spinning
    rw [gotAllSpins (by simpa using spinning)] at done
    contradiction
  · intro open_
    rcases reachedState reached with expecting | spinning
    · obtain ⟨d, ok, last, parses⟩ := parsesTotal t expecting false b.readable
      obtain ⟨b', done, _⟩ := parsesLoop parses valid rfl (Nat.lt_succ_self _)
      exact ⟨_, _, done⟩
    · simp [open_] at spinning

theorem parseEndsSample :
    ∃ b, fresh.append sampleBytes = some b ∧ b.readable = sampleBytes ∧ Reached sampleDone ∧
      Terminates {} b ⟨7⟩ ∧ ¬ Terminates sampleDone b ⟨8⟩ := by
  obtain ⟨b, ok, valid, content⟩ := bufferWith sampleBytes (by decide)
  obtain ⟨b', done, _⟩ := parseRequestOf sampleParses valid content
  have reached : Reached sampleDone := .parse .construct valid done
  refine ⟨b, ok, content, reached, (parseEndsIff .construct valid ⟨7⟩).mpr rfl, fun ends => ?_⟩
  have open_ := (parseEndsIff reached valid ⟨8⟩).mp ends
  contradiction

theorem parseSpins :
    ∃ b ok b', fresh.append sampleBytes = some b ∧ parseRequest {} b ⟨7⟩ = some (ok, sampleDone, b') ∧
      Reached sampleDone ∧ ¬ Terminates sampleDone fresh ⟨8⟩ := by
  obtain ⟨b, ok, valid, content⟩ := bufferWith sampleBytes (by decide)
  obtain ⟨b', done, _⟩ := parseRequestOf sampleParses valid content
  refine ⟨b, true, b', ok, done, .parse .construct valid done, ?_⟩
  rintro ⟨turns, l, ends⟩
  rw [gotAllSpins rfl] at ends
  contradiction

def MetBadLine (c : HttpContext) (bytes : Bytes) : Prop :=
  c.state = .kExpectRequestLine ∧ ∃ line rest, FirstLine bytes line rest ∧ ¬ Accepted line

def MeansError (c : HttpContext) (b : Buffer) (t : Timestamp) : Prop :=
  ∃ ok d b', parseRequest c b t = some (ok, d, b') ∧ (ok = false ↔ MetBadLine c b.readable)

theorem headersKeepOk {t : Timestamp} {c d : HttpContext} {ok ok' : Bool} {bytes last : Bytes}
    (parses : Parses t c ok bytes d ok' last) (state : c.state = .kExpectHeaders) : ok' = ok := by
  induction parses with
  | starved | finish => rfl
  | refuse line | accept line => simp [state] at line
  | header here _ _ _ ih => exact ih here

theorem parsesOk {t : Timestamp} {c d : HttpContext} {ok : Bool} {bytes last : Bytes}
    (parses : Parses t c false bytes d ok last) :
    ok = true ↔ c.state = .kExpectRequestLine ∧ ∃ line rest, FirstLine bytes line rest ∧ Accepted line := by
  cases parses with
  | starved _ absent =>
    simp only [Bool.false_eq_true, false_iff]
    rintro ⟨_, line, rest, first, _⟩
    exact absent ⟨line, rest, first.cut.symm⟩
  | refuse state first bad =>
    simp only [Bool.false_eq_true, false_iff]
    rintro ⟨_, line', rest', other, good⟩
    obtain ⟨rfl, rfl⟩ := firstLineUnique first other
    rw [(acceptedIff _ _).mpr good] at bad
    contradiction
  | accept state first good more =>
    rw [headersKeepOk more rfl]
    simp only [true_iff]
    exact ⟨state, _, _, first, (acceptedIff _ _).mp good⟩
  | header state _ _ more =>
    rw [headersKeepOk more state]
    simp [state]
  | finish state => simp [state]

theorem meansErrorIff {c : HttpContext} (reached : Reached c) (open_ : c.gotAll = false) {b : Buffer}
    (valid : Valid b) (t : Timestamp) :
    MeansError c b t ↔ c.state = .kExpectRequestLine ∧ kCRLF <:+: b.readable := by
  have expecting : Expecting c := (reachedState reached).resolve_right (by simp [open_])
  obtain ⟨d, ok, last, parses⟩ := parsesTotal t expecting false b.readable
  obtain ⟨b', done, _⟩ := parseRequestOf parses valid rfl
  have verdict := parsesOk parses
  constructor
  · rintro ⟨ok', d', b'', run, means⟩
    cases Option.some.inj (done.symm.trans run)
    -- a true result needs an accepted line, and a false one needs a bad line
    cases ok with
    | true =>
      obtain ⟨state, line, rest, first, _⟩ := verdict.mp rfl
      exact ⟨state, line, rest, first.cut.symm⟩
    | false =>
      obtain ⟨state, line, rest, first, _⟩ := means.mp rfl
      exact ⟨state, line, rest, first.cut.symm⟩
  · rintro ⟨state, present⟩
    refine ⟨ok, d, b', done, ?_⟩
    obtain ⟨line, rest, first⟩ := firstLineOf present
    constructor
    · rintro rfl
      refine ⟨state, line, rest, first, fun good => ?_⟩
      simpa using verdict.mpr ⟨state, line, rest, first, good⟩
    · rintro ⟨_, line', rest', other, bad⟩
      obtain ⟨rfl, rfl⟩ := firstLineUnique first other
      by_contra passed
      obtain ⟨_, line', rest', other, good⟩ := verdict.mp (by simpa using passed)
      obtain ⟨rfl, rfl⟩ := firstLineUnique first other
      exact bad good

theorem meansErrorLine :
    ∃ b, fresh.append sampleBytes = some b ∧ MeansError {} b ⟨0⟩ := by
  obtain ⟨b, ok, valid, content⟩ := bufferWith sampleBytes (by decide)
  refine ⟨b, ok, (meansErrorIff .construct rfl valid ⟨0⟩).mpr ⟨rfl, ?_⟩⟩
  rw [content]
  decide

theorem starvedSaysFalse :
    ∃ b, fresh.append (ascii "GET") = some b ∧ parseRequest {} b ⟨0⟩ = some (false, {}, b) ∧
      ¬ MetBadLine {} b.readable ∧ ¬ MeansError {} b ⟨0⟩ := by
  obtain ⟨b, ok, valid, content⟩ := bufferWith (ascii "GET") (by decide)
  have absent : ¬ kCRLF <:+: b.readable := by rw [content]; decide
  have met : ¬ MetBadLine {} b.readable := by
    rintro ⟨_, line, rest, first, _⟩
    exact absent ⟨line, rest, first.cut.symm⟩
  have done : parseRequest {} b ⟨0⟩ = some (false, {}, b) := by
    have nothing := findNone valid absent
    simp only [parseRequest, loopTurn, parseStep, nothing, loopDone, bind, Option.bind]
  refine ⟨b, ok, done, met, ?_⟩
  rintro ⟨ok', d, b', run, means⟩
  cases Option.some.inj (done.symm.trans run)
  exact met (means.mp rfl)

structure HeaderLines (bytes : Bytes) (fields : List Bytes) (last rest : Bytes) : Prop where
  cut : bytes = fields.flatMap (· ++ kCRLF) ++ (last ++ kCRLF ++ rest)
  fields : ∀ field ∈ fields, 58 ∈ field ∧ ¬ kCRLF <:+: field
  plain : 58 ∉ last
  free : ¬ kCRLF <:+: last

def EndsAt (bytes last : Bytes) : Prop :=
  ∃ line body fields rest, FirstLine bytes line body ∧ Accepted line ∧ HeaderLines body fields last rest

theorem colonIff (line : Bytes) : HasColon line ↔ 58 ∈ line := by
  constructor
  · intro colon
    by_contra absent
    exact colon (List.idxOf_eq_length absent)
  · intro member
    exact Nat.ne_of_lt (List.idxOf_lt_length_of_mem member)

theorem headerLinesLast {bytes last rest : Bytes} (first : FirstLine bytes last rest) (plain : 58 ∉ last) :
    HeaderLines bytes [] last rest :=
  ⟨by simpa using first.cut, by simp, plain, first.free⟩

theorem headerLinesCons {bytes field body last rest : Bytes} {fields : List Bytes}
    (first : FirstLine bytes field body) (colon : 58 ∈ field) (more : HeaderLines body fields last rest) :
    HeaderLines bytes (field :: fields) last rest := by
  refine ⟨?_, ?_, more.plain, more.free⟩
  · rw [first.cut, more.cut, List.flatMap_cons, List.append_assoc (field ++ kCRLF)]
  · rw [List.forall_mem_cons]
    exact ⟨⟨colon, first.free⟩, more.fields⟩

theorem headerLinesCases {bytes last rest : Bytes} {fields : List Bytes}
    (lines : HeaderLines bytes fields last rest) :
    (fields = [] ∧ FirstLine bytes last rest) ∨
    ∃ field fields' body, fields = field :: fields' ∧ FirstLine bytes field body ∧ 58 ∈ field ∧
      HeaderLines body fields' last rest := by
  cases fields with
  | nil => exact .inl ⟨rfl, by simpa using lines.cut, lines.free⟩
  | cons field fields =>
    obtain ⟨⟨colon, free⟩, others⟩ := List.forall_mem_cons.mp lines.fields
    refine .inr ⟨field, fields, _, rfl, ⟨?_, free⟩, colon, ⟨rfl, others, lines.plain, lines.free⟩⟩
    rw [lines.cut, List.flatMap_cons, List.append_assoc (field ++ kCRLF)]

theorem headerLinesUnique {bytes last rest last' rest' : Bytes} {fields fields' : List Bytes}
    (a : HeaderLines bytes fields last rest) (b : HeaderLines bytes fields' last' rest') : last = last' := by
  induction fields generalizing bytes fields' with
  | nil =>
    obtain ⟨_, first⟩ | ⟨_, _, _, impossible, _⟩ := headerLinesCases a
    · obtain ⟨_, other⟩ | ⟨field, _, _, _, other, colon, _⟩ := headerLinesCases b
      · exact (firstLineUnique first other).1
      · exact absurd ((firstLineUnique first other).1 ▸ colon) a.plain
    · contradiction
  | cons field fields ih =>
    obtain ⟨impossible, _⟩ | ⟨_, _, body, shape, first, colon, more⟩ := headerLinesCases a
    · contradiction
    · cases shape
      obtain ⟨_, other⟩ | ⟨_, _, _, _, other, _, later⟩ := headerLinesCases b
      · exact absurd ((firstLineUnique first other).1 ▸ colon) b.plain
      · obtain ⟨_, rfl⟩ := firstLineUnique first other
        exact ih more later

theorem endsUnique {bytes last last' : Bytes} (a : EndsAt bytes last) (b : EndsAt bytes last') : last = last' := by
  obtain ⟨line, body, fields, rest, first, _, lines⟩ := a
  obtain ⟨line', body', fields', rest', other, _, lines'⟩ := b
  obtain ⟨_, rfl⟩ := firstLineUnique first other
  exact headerLinesUnique lines lines'

theorem headersOfGotAll {t : Timestamp} {c d : HttpContext} {ok ok' : Bool} {bytes rest : Bytes}
    (parses : Parses t c ok bytes d ok' rest) (state : c.state = .kExpectHeaders) (done : d.gotAll = true) :
    ∃ fields last, HeaderLines bytes fields last rest := by
  induction parses with
  | starved expecting => simp [expectingOpen expecting] at done
  | refuse line | accept line => simp [state] at line
  | header here first colon _ ih =>
    obtain ⟨fields, last, lines⟩ := ih here done
    exact ⟨_, last, headerLinesCons first ((colonIff _).mp colon) lines⟩
  | finish _ first plain => exact ⟨[], _, headerLinesLast first (mt (colonIff _).mpr plain)⟩

theorem gotAllOfHeaders (t : Timestamp) {bytes last rest : Bytes} {fields : List Bytes}
    (lines : HeaderLines bytes fields last rest) {c : HttpContext} (state : c.state = .kExpectHeaders) (ok : Bool) :
    ∃ d, Parses t c ok bytes d ok rest ∧ d.gotAll = true := by
  induction fields generalizing bytes c with
  | nil =>
    obtain ⟨_, first⟩ | ⟨_, _, _, impossible, _⟩ := headerLinesCases lines
    · exact ⟨_, .finish state first (mt (colonIff _).mp lines.plain), rfl⟩
    · contradiction
  | cons field fields ih =>
    obtain ⟨impossible, _⟩ | ⟨_, _, body, shape, first, colon, more⟩ := headerLinesCases lines
    · contradiction
    · cases shape
      obtain ⟨d, parses, done⟩ := ih more (c := headed c field) state
      exact ⟨d, .header state first ((colonIff _).mpr colon) parses, done⟩

def Completes (b : Buffer) (t : Timestamp) : Prop :=
  ∃ ok d b', parseRequest {} b t = some (ok, d, b') ∧ d.gotAll = true

theorem completesIff {b : Buffer} (valid : Valid b) (t : Timestamp) :
    Completes b t ↔ ∃ last, EndsAt b.readable last := by
  constructor
  · rintro ⟨ok, d, b', run, done⟩
    obtain ⟨e, ok', rest, parses⟩ := parsesTotal t (.inl rfl : Expecting {}) false b.readable
    obtain ⟨b'', call, _⟩ := parseRequestOf parses valid rfl
    cases Option.some.inj (run.symm.trans call)
    cases parses with
    | starved expecting => simp [expectingOpen expecting] at done
    | refuse => simp [refused, gotAll] at done
    | accept _ first good more =>
      obtain ⟨fields, last, lines⟩ := headersOfGotAll more rfl done
      exact ⟨last, _, _, fields, rest, first, (acceptedIff _ _).mp good, lines⟩
    | header state | finish state => contradiction
  · rintro ⟨last, line, body, fields, rest, first, good, lines⟩
    obtain ⟨d, parses, done⟩ := gotAllOfHeaders t lines (c := accepted {} t line) rfl true
    obtain ⟨b', run, _⟩ := parseRequestOf (.accept rfl first ((acceptedIff _ _).mpr good) parses) valid rfl
    exact ⟨true, d, b', run, done⟩

theorem completesAtBlankIff {b : Buffer} (valid : Valid b) (t : Timestamp) :
    (Completes b t ↔ EndsAt b.readable []) ↔ ∀ last, EndsAt b.readable last → last = [] := by
  rw [completesIff valid]
  constructor
  · intro exact_ last ends
    exact endsUnique ends (exact_.mp ⟨last, ends⟩)
  · intro blank
    constructor
    · rintro ⟨last, ends⟩
      rwa [blank last ends] at ends
    · exact fun ends => ⟨[], ends⟩

theorem sampleLine : Accepted (ascii "GET / HTTP/1.1") :=
  ⟨ascii "GET", ascii "/", ascii "HTTP/1.1", .kGet, .kHttp11, by decide, by decide, by decide, by decide⟩

theorem completesAtBlankSample :
    ∃ b, fresh.append sampleBytes = some b ∧ (Completes b ⟨0⟩ ↔ EndsAt b.readable []) := by
  obtain ⟨b, ok, valid, content⟩ := bufferWith sampleBytes (by decide)
  have first : FirstLine b.readable (ascii "GET / HTTP/1.1") kCRLF := by
    rw [content]
    exact ⟨by decide, by decide⟩
  have blank : FirstLine kCRLF [] [] := ⟨by decide, by decide⟩
  have ends : EndsAt b.readable [] := ⟨_, _, [], [], first, sampleLine, headerLinesLast blank (by decide)⟩
  exact ⟨b, ok, (completesAtBlankIff valid ⟨0⟩).mpr fun _ other => endsUnique other ends⟩

/- A header line without a colon is taken for the end of the headers. -/
theorem plainLineCompletes :
    ∃ b, fresh.append (ascii "GET / HTTP/1.1\r\nabc\r\n") = some b ∧ Completes b ⟨0⟩ ∧ ¬ EndsAt b.readable [] := by
  obtain ⟨b, ok, valid, content⟩ := bufferWith (ascii "GET / HTTP/1.1\r\nabc\r\n") (by decide)
  have first : FirstLine b.readable (ascii "GET / HTTP/1.1") (ascii "abc\r\n") := by
    rw [content]
    exact ⟨by decide, by decide⟩
  have last : FirstLine (ascii "abc\r\n") (ascii "abc") [] := ⟨by decide, by decide⟩
  have ends : EndsAt b.readable (ascii "abc") := ⟨_, _, [], [], first, sampleLine, headerLinesLast last (by decide)⟩
  refine ⟨b, ok, (completesIff valid ⟨0⟩).mpr ⟨_, ends⟩, fun blank => ?_⟩
  exact absurd (endsUnique ends blank) (by decide)

end TinyNetwork.HttpVerdict
