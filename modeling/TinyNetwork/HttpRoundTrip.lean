import TinyNetwork.HttpTrace
import TinyNetwork.HttpRequestLine

/-! Rendering a request and parsing it back. A message is what a client may put
into the text of a request; its fields carry the restrictions that make the text
unambiguous. The parse of a rendered message is built as a derivation, line by
line, and read back from the buffer at the end. -/
namespace TinyNetwork.HttpRoundTrip
open FirstMatch Buffer HttpRequest HttpContext HttpTrace HttpRequestLine

structure Header where
  field : Bytes
  lead : Bytes
  value : Bytes
  trail : Bytes
  fieldColon : 58 ∉ field
  fieldLine : ¬ kCRLF <:+: field
  leadPad : ∀ c ∈ lead, c = 32 ∨ c = 9
  trailPad : ∀ c ∈ trail, c = 32 ∨ c = 9
  valueLine : ¬ kCRLF <:+: value
  valueStart : ∀ c ∈ value.head?, isspace c = false
  valueEnd : ∀ c ∈ value.getLast?, isspace c = false

structure Message where
  method : Method
  path : Bytes
  query : Bytes
  version : Version
  headers : List Header
  methodKnown : method ≠ .kInvalid
  versionKnown : version ≠ .kUnknown
  pathBlank : 32 ∉ path
  pathMark : 63 ∉ path
  pathLine : ¬ kCRLF <:+: path
  queryMark : query = [] ∨ query.head? = some 63
  queryBlank : 32 ∉ query
  queryLine : ¬ kCRLF <:+: query

def Header.line (h : Header) : Bytes := h.field ++ 58 :: (h.lead ++ (h.value ++ h.trail))

def versionString : Version → Bytes
  | .kHttp10 => ascii "HTTP/1.0"
  | .kHttp11 => ascii "HTTP/1.1"
  | .kUnknown => ascii "HTTP/?"

def Message.requestLine (m : Message) : Bytes :=
  methodString m.method ++ 32 :: ((m.path ++ m.query) ++ 32 :: versionString m.version)

def renderHeaders : List Header → Bytes
  | [] => kCRLF
  | h :: rest => h.line ++ kCRLF ++ renderHeaders rest

def Message.render (m : Message) : Bytes := m.requestLine ++ kCRLF ++ renderHeaders m.headers

def lastValue (headers : List Header) (field : Bytes) : Option Bytes :=
  (headers.reverse.find? (fun h => h.field = field)).map Header.value

theorem padLine {pad : Bytes} (blank : ∀ c ∈ pad, c = 32 ∨ c = 9) : ¬ kCRLF <:+: pad := by
  refine pairAbsent ?_ 10
  intro member
  rcases blank 13 member with h | h <;> contradiction

theorem padSpace {pad : Bytes} (blank : ∀ c ∈ pad, c = 32 ∨ c = 9) : ∀ c ∈ pad, isspace c = true := by
  intro c member
  rcases blank c member with rfl | rfl <;> rfl

theorem padHead {pad : Bytes} (blank : ∀ c ∈ pad, c = 32 ∨ c = 9) : pad.head? ≠ some 10 := by
  intro head
  rcases blank 10 (List.mem_of_head? head) with h | h <;> contradiction

theorem headerLineFree (h : Header) : ¬ kCRLF <:+: h.line := by
  have tail : ¬ kCRLF <:+: h.value ++ h.trail :=
    pairAppend h.valueLine (padLine h.trailPad) (padHead h.trailPad)
  have start : (h.value ++ h.trail).head? ≠ some 10 := by
    cases shape : h.value with
    | nil => exact padHead h.trailPad
    | cons c rest =>
      intro head
      have plain := h.valueStart c (by simp [shape])
      cases Option.some.inj (show some c = some 10 from head)
      contradiction
  have value : ¬ kCRLF <:+: h.lead ++ (h.value ++ h.trail) := pairAppend (padLine h.leadPad) tail start
  exact pairAppend h.fieldLine (pairCons (by decide) value) (by simp)

theorem trimmed (h : Header) :
    ((h.lead ++ (h.value ++ h.trail)).dropWhile isspace).rdropWhile isspace = h.value := by
  rw [List.dropWhile_append_of_pos (padSpace h.leadPad)]
  cases shape : h.value with
  | nil =>
    rw [List.nil_append, List.dropWhile_eq_nil_iff.mpr (padSpace h.trailPad)]
    rfl
  | cons c rest =>
    have plain := h.valueStart c (by simp [shape])
    have last : h.value.rdropWhile isspace = h.value := by
      rw [List.rdropWhile_eq_self_iff]
      intro nonempty
      rw [h.valueEnd _ (List.getLast?_eq_some_getLast nonempty)]
      exact Bool.false_ne_true
    have back : ∀ c ∈ h.trail.reverse, isspace c = true :=
      fun c member => padSpace h.trailPad c (List.mem_reverse.mp member)
    rw [List.cons_append, List.dropWhile_cons_of_neg (by simp [plain]), ← List.cons_append, ← shape,
      List.rdropWhile, List.reverse_append, List.dropWhile_append_of_pos back, ← List.rdropWhile, last]

theorem headerAdded (h : Header) (r : HttpRequest) :
    r.addHeader h.line (h.line.idxOf 58) = { r with headers := r.headers.insert h.field h.value } := by
  have colon : h.line.idxOf 58 = h.field.length := findCut h.fieldColon _
  have field : h.line.take h.field.length = h.field := by simp [Header.line]
  have value : h.line.drop (h.field.length + 1) = h.lead ++ (h.value ++ h.trail) := by
    simp [Header.line]
  simp only [addHeader, colon, field, value, trimmed]

def addAll (r : HttpRequest) (headers : List Header) : HttpRequest :=
  headers.foldl (fun r h => { r with headers := r.headers.insert h.field h.value }) r

theorem headersParse (t : Timestamp) (headers : List Header) {c : HttpContext}
    (state : c.state = .kExpectHeaders) (trailing : Bytes) :
    Parses t c true (renderHeaders headers ++ trailing) ⟨.kGotAll, addAll c.request headers⟩ true
      trailing := by
  induction headers generalizing c with
  | nil =>
    have empty : FirstLine (kCRLF ++ trailing) [] trailing := ⟨rfl, by decide⟩
    exact .finish state empty (by decide)
  | cons h rest ih =>
    have first : FirstLine (renderHeaders (h :: rest) ++ trailing) h.line
        (renderHeaders rest ++ trailing) :=
      ⟨by simp only [renderHeaders, List.append_assoc], headerLineFree h⟩
    have colon : HasColon h.line := by
      rw [HasColon, Header.line, findCut h.fieldColon]
      simp
    have more := ih (c := headed c h.line) state
    rw [headed, headerAdded] at more
    exact .header state first colon (by rw [headed, headerAdded]; exact more)

theorem lookupAddAll (headers : List Header) (r : HttpRequest) (field : Bytes) :
    (addAll r headers).headers.lookup field =
      (lastValue headers field).or (r.headers.lookup field) := by
  induction headers generalizing r with
  | nil => rfl
  | cons h rest ih =>
    have step := ih { r with headers := r.headers.insert h.field h.value }
    rw [addAll, List.foldl_cons, ← addAll, step]
    by_cases same : h.field = field
    · subst same
      simp [lastValue, List.find?_append]
    · rw [AList.lookup_insert_ne (Ne.symm same)]
      simp [lastValue, List.find?_append, same]

theorem addAllLine (headers : List Header) (r : HttpRequest) :
    (addAll r headers).method = r.method ∧ (addAll r headers).path = r.path ∧
      (addAll r headers).query = r.query ∧ (addAll r headers).version = r.version ∧
      (addAll r headers).receiveTime = r.receiveTime := by
  induction headers generalizing r with
  | nil => exact ⟨rfl, rfl, rfl, rfl, rfl⟩
  | cons h rest ih => exact ih { r with headers := r.headers.insert h.field h.value }

theorem methodBack (m : Method) (known : m ≠ .kInvalid) :
    methodOf (methodString m) = m ∧ 32 ∉ methodString m ∧ ¬ kCRLF <:+: methodString m := by
  cases m <;> first | contradiction | decide

theorem versionBack (v : Version) (known : v ≠ .kUnknown) (r : HttpRequest) :
    r.setVersionFrom (versionString v) = (true, { r with version := v }) := by
  cases v with
  | kUnknown => contradiction
  | kHttp10 => rfl
  | kHttp11 => rfl

theorem versionFree (v : Version) : ¬ kCRLF <:+: versionString v := by
  cases v <;> decide

theorem targetBack (m : Message) :
    ({ method := m.method } : HttpRequest).setTarget (m.path ++ m.query) =
      { method := m.method, path := m.path, query := m.query } := by
  cases shape : m.query with
  | nil => simp [setTarget, List.idxOf_eq_length m.pathMark]
  | cons c rest =>
    have mark : c = 63 := by
      rcases m.queryMark with none_ | head
      · rw [shape] at none_; contradiction
      · rw [shape] at head; exact Option.some.inj head
    subst mark
    simp [setTarget, findCut m.pathMark]

theorem requestLineFree (m : Message) : ¬ kCRLF <:+: m.requestLine := by
  have version : ¬ kCRLF <:+: 32 :: versionString m.version :=
    pairCons (by decide) (versionFree _)
  have target : ¬ kCRLF <:+: m.path ++ m.query := by
    refine pairAppend m.pathLine m.queryLine ?_
    rcases m.queryMark with none_ | head
    · simp [none_]
    · simp [head]
  have rest := pairAppend target version (by simp)
  exact pairAppend (methodBack _ m.methodKnown).2.2 (pairCons (by decide) rest) (by simp)

def Message.request (m : Message) (receiveTime : Timestamp) : HttpRequest :=
  { method := m.method, path := m.path, query := m.query, version := m.version, receiveTime }

theorem requestLineBack (m : Message) :
    ({} : HttpRequest).processRequestLine m.requestLine =
      (true, m.request ⟨0⟩) := by
  obtain ⟨method, blank, _⟩ := methodBack m.method m.methodKnown
  have targetBlank : 32 ∉ m.path ++ m.query := by
    simp [m.pathBlank, m.queryBlank]
  have known : methodOf (methodString m.method) ≠ .kInvalid := by rw [method]; exact m.methodKnown
  rw [Message.requestLine, processTwoSpaces blank known targetBlank, method, targetBack,
    versionBack _ m.versionKnown, Message.request]

theorem messageParse (t : Timestamp) (m : Message) (trailing : Bytes) :
    Parses t {} false (m.render ++ trailing)
      ⟨.kGotAll, addAll (m.request t) m.headers⟩ true trailing := by
  have line := requestLineBack m
  have first : FirstLine (m.render ++ trailing) m.requestLine (renderHeaders m.headers ++ trailing) :=
    ⟨by simp only [Message.render, List.append_assoc], requestLineFree m⟩
  refine .accept rfl first (congrArg Prod.fst line) ?_
  have more := headersParse t m.headers (c := accepted {} t m.requestLine) rfl trailing
  rwa [accepted, line] at more ⊢

theorem requestRoundTrip (t : Timestamp) (m : Message) (trailing : Bytes) {b : Buffer}
    (valid : Valid b) (content : b.readable = m.render ++ trailing) :
    ∃ c b', parseRequest {} b t = some (true, c, b') ∧ c.gotAll = true ∧
      c.request.method = m.method ∧ c.request.path = m.path ∧ c.request.query = m.query ∧
      c.request.version = m.version ∧ c.request.receiveTime = t ∧
      (∀ field, c.request.headers.lookup field = lastValue m.headers field) ∧
      b'.readable = trailing := by
  obtain ⟨b', done, consumed⟩ := parseRequestOf (messageParse t m trailing) valid content
  obtain ⟨method, path, query, version, time⟩ := addAllLine m.headers (m.request t)
  refine ⟨_, b', done, rfl, method, path, query, version, time, ?_, consumed.content⟩
  intro field
  rw [lookupAddAll]
  exact Option.or_none

def sampleHeader : Header where
  field := ascii "Host"
  lead := ascii " "
  value := ascii "a b"
  trail := ascii "\t"
  fieldColon := by decide +kernel
  fieldLine := by decide +kernel
  leadPad := by decide +kernel
  trailPad := by decide +kernel
  valueLine := by decide +kernel
  valueStart := by decide +kernel
  valueEnd := by decide +kernel

def sampleMessage : Message where
  method := .kGet
  path := ascii "/index"
  query := ascii "?q"
  version := .kHttp11
  headers := [sampleHeader, sampleHeader]
  methodKnown := by decide
  versionKnown := by decide
  pathBlank := by decide
  pathMark := by decide
  pathLine := by decide
  queryMark := by decide
  queryBlank := by decide
  queryLine := by decide

theorem requestRoundTripSample :
    ∃ b c b', fresh.append (sampleMessage.render ++ ascii "next") = some b ∧
      parseRequest {} b ⟨7⟩ = some (true, c, b') ∧
      c.request.headers.lookup (ascii "Host") = some (ascii "a b") ∧
      b'.readable = ascii "next" := by
  have room : (sampleMessage.render ++ ascii "next").length ≤
      fresh.buffer.size - fresh.writerIndex := by decide +kernel
  obtain ⟨b, ok, added⟩ := appendInPlace freshValid room
  have content : b.readable = sampleMessage.render ++ ascii "next" := by
    rw [added.content, freshReadable, List.nil_append]
  obtain ⟨c, b', done, _, _, _, _, _, _, headers, rest⟩ :=
    requestRoundTrip ⟨7⟩ sampleMessage (ascii "next") added.valid content
  exact ⟨b, c, b', ok, done, headers _, rest⟩

end TinyNetwork.HttpRoundTrip
