import TinyNetwork.HttpServer
import TinyNetwork.HttpRoundTrip

/-! Serving a request that arrives in segments. Every message gets a context of its
own, and a parse that ran out of bytes in the request line reports failure. A
request that arrives in two or more segments is therefore answered with 400: at the
first message when it has no complete line, or at the second, where what follows
the consumed lines is taken for a request line. -/
namespace TinyNetwork.HttpSegments
open FirstMatch Buffer Words HttpRequest HttpContext HttpTrace HttpRequestLine HttpRoundTrip HttpServer

structure RequestLine (line : Bytes) : Prop where
  shape : ∃ m v target, m ≠ .kInvalid ∧ v ≠ .kUnknown ∧ 32 ∉ target ∧
    line = methodString m ++ 32 :: (target ++ 32 :: versionString v)
  lineFree : ¬ kCRLF <:+: line

structure FieldLine (line : Bytes) : Prop where
  shape : ∃ name rest, 32 ∉ name ∧ line = name ++ 58 :: rest
  lineFree : ¬ kCRLF <:+: line

def renderLines : List Bytes → Bytes
  | [] => kCRLF
  | line :: rest => line ++ kCRLF ++ renderLines rest

inductive WellFormed : Bytes → Prop where
  | intro {line : Bytes} {fields : List Bytes} (request : RequestLine line)
      (headers : ∀ field ∈ fields, FieldLine field) : WellFormed (line ++ kCRLF ++ renderLines fields)

theorem requestLineAccepted {line : Bytes} (request : RequestLine line) (r : HttpRequest) :
    (r.processRequestLine line).1 = true := by
  obtain ⟨m, v, target, known, version, blank, rfl⟩ := request.shape
  obtain ⟨back, free, _⟩ := methodBack m known
  rw [processTwoSpaces free (by rw [back]; exact known) blank, versionBack _ version]

theorem methodStringColon (m : Method) : 58 ∉ methodString m := by
  cases m <;> decide

theorem fieldLineRefused {line : Bytes} (field : FieldLine line) (r : HttpRequest) :
    (r.processRequestLine line).1 = false := by
  obtain ⟨name, rest, blank, rfl⟩ := field.shape
  by_cases later : 32 ∈ rest
  · obtain ⟨front, tail, rfl, free⟩ := List.eq_append_cons_of_mem later
    have colon : (58 : UInt8) ∈ name ++ 58 :: front := by simp
    have unknown : methodOf (name ++ 58 :: front) = .kInvalid := by
      by_contra known
      rw [methodOfKnown known] at colon
      exact methodStringColon _ colon
    have cut : name ++ 58 :: (front ++ 32 :: tail) = (name ++ 58 :: front) ++ 32 :: tail := by simp
    rw [cut, processUnknown (by simp [blank, free]) tail unknown]
  · rw [processNoSpace (by simp [blank, later])]

theorem fieldLineColon {line : Bytes} (field : FieldLine line) : HasColon line := by
  obtain ⟨name, rest, _, rfl⟩ := field.shape
  exact Nat.ne_of_lt (List.idxOf_lt_length_of_mem (by simp))

theorem renderLinesFirst {fields : List Bytes} (headers : ∀ field ∈ fields, FieldLine field) :
    ∃ line rest, FirstLine (renderLines fields) line rest ∧
      ((FieldLine line ∧ ∃ fields', rest = renderLines fields' ∧ (∀ field ∈ fields', FieldLine field)) ∨
        (line = [] ∧ rest = [])) := by
  cases fields with
  | nil => exact ⟨[], [], ⟨rfl, by decide⟩, .inr ⟨rfl, rfl⟩⟩
  | cons field fields =>
    have head := headers field List.mem_cons_self
    exact ⟨field, renderLines fields, ⟨rfl, head.lineFree⟩,
      .inl ⟨head, fields, rfl, fun f member => headers f (List.mem_cons_of_mem _ member)⟩⟩

theorem frontLine {front more text line rest line' rest' : Bytes} (whole : front ++ more = text)
    (first : FirstLine front line rest) (known : FirstLine text line' rest') :
    line = line' ∧ rest ++ more = rest' :=
  firstLineUnique (whole ▸ firstLineGrown first more) known

theorem headersCut {t : Timestamp} {c d : HttpContext} {ok ok' : Bool} {front last : Bytes}
    (parses : Parses t c ok front d ok' last) (state : c.state = .kExpectHeaders)
    {more : Bytes} (cut : more ≠ []) {fields : List Bytes}
    (headers : ∀ field ∈ fields, FieldLine field) (whole : front ++ more = renderLines fields) :
    ok' = ok ∧ d.gotAll = false ∧
      ∃ fields', last ++ more = renderLines fields' ∧ ∀ field ∈ fields', FieldLine field := by
  induction parses generalizing fields with
  | starved _ _ => exact ⟨rfl, by simp [gotAll, state], fields, whole, headers⟩
  | refuse state' _ _ => rw [state] at state'; contradiction
  | accept state' _ _ _ => rw [state] at state'; contradiction
  | header _ first colon _ ih =>
    obtain ⟨line, rest, known, shape⟩ := renderLinesFirst headers
    obtain ⟨rfl, later⟩ := frontLine whole first known
    rcases shape with ⟨_, fields', rfl, headers'⟩ | ⟨rfl, _⟩
    · exact ih state headers' later
    · exact absurd rfl colon
  | finish _ first plain =>
    obtain ⟨line, rest, known, shape⟩ := renderLinesFirst headers
    obtain ⟨rfl, later⟩ := frontLine whole first known
    rcases shape with ⟨field, _⟩ | ⟨_, rfl⟩
    · exact absurd (fieldLineColon field) plain
    · exact absurd (List.append_eq_nil_iff.mp later).2 cut

theorem headersWhole (t : Timestamp) {fields : List Bytes} (headers : ∀ field ∈ fields, FieldLine field)
    {c : HttpContext} (state : c.state = .kExpectHeaders) :
    ∃ d, Parses t c true (renderLines fields) d true [] ∧ d.gotAll = true := by
  induction fields generalizing c with
  | nil =>
    have empty : FirstLine (renderLines []) [] [] := ⟨rfl, by decide⟩
    exact ⟨_, .finish state empty (by decide), rfl⟩
  | cons field fields ih =>
    have head := headers field List.mem_cons_self
    have rest := fun f member => headers f (List.mem_cons_of_mem field member)
    obtain ⟨d, more, all⟩ := ih rest (c := headed c field) state
    exact ⟨d, .header state ⟨rfl, head.lineFree⟩ (fieldLineColon head) more, all⟩

theorem requestWhole (t : Timestamp) {w : Bytes} (request : WellFormed w) :
    ∃ d, Parses t {} false w d true [] ∧ d.gotAll = true := by
  cases request with
  | @intro line fields request headers =>
    obtain ⟨d, more, all⟩ := headersWhole t headers (c := accepted {} t line) rfl
    exact ⟨d, .accept rfl ⟨rfl, request.lineFree⟩ (requestLineAccepted request _) more, all⟩

theorem requestCut {t : Timestamp} {d : HttpContext} {ok : Bool} {w front more last : Bytes}
    (request : WellFormed w) (whole : front ++ more = w) (cut : more ≠ [])
    (parses : Parses t {} false front d ok last) :
    d.gotAll = false ∧ (ok = true → ∃ fields, last ++ more = renderLines fields ∧
      ∀ field ∈ fields, FieldLine field) := by
  cases request with
  | @intro line fields request headers =>
    have known : FirstLine (line ++ kCRLF ++ renderLines fields) line (renderLines fields) :=
      ⟨rfl, request.lineFree⟩
    cases parses with
    | starved _ _ => exact ⟨rfl, fun h => nomatch h⟩
    | refuse _ _ _ => exact ⟨rfl, fun h => nomatch h⟩
    | accept _ first _ rest =>
      obtain ⟨_, later⟩ := frontLine whole first known
      obtain ⟨_, open_, left⟩ := headersCut rest rfl cut headers later
      exact ⟨open_, fun _ => left⟩
    | header state _ _ _ => contradiction
    | finish state _ _ => contradiction

theorem headersRefused {t : Timestamp} {d : HttpContext} {ok : Bool} {front more last : Bytes}
    {fields : List Bytes} (headers : ∀ field ∈ fields, FieldLine field)
    (whole : front ++ more = renderLines fields) (parses : Parses t {} false front d ok last) :
    ok = false ∧ d.gotAll = false := by
  cases parses with
  | starved _ _ => exact ⟨rfl, rfl⟩
  | refuse _ _ _ => exact ⟨rfl, rfl⟩
  | accept _ first good _ =>
    obtain ⟨line, rest, known, shape⟩ := renderLinesFirst headers
    obtain ⟨rfl, _⟩ := frontLine whole first known
    rcases shape with ⟨field, _⟩ | ⟨rfl, _⟩
    · rw [fieldLineRefused field] at good; contradiction
    · contradiction
  | header state _ _ _ => contradiction
  | finish state _ _ => contradiction

theorem sendGrows (s : Session) (data : Bytes) : s.events <+: (s.send data).events := by
  unfold Session.send
  split
  · exact List.prefix_append _ _
  · exact List.prefix_refl _

theorem shutdownGrows (s : Session) : s.events <+: s.shutdown.events := by
  simp only [Session.shutdown]
  split <;> exact List.prefix_append _ _

theorem requestGrows (cb : HttpCallback) (s : Session) (req : HttpRequest) :
    s.events <+: (onRequest cb s req).events := by
  unfold onRequest
  dsimp only
  split
  · split
    · exact (sendGrows s _).trans (shutdownGrows _)
    · exact sendGrows s _
  · exact List.prefix_refl _

theorem messageGrows (cb : HttpCallback) (t : Timestamp) (s : Session) :
    s.events <+: (onMessage cb t s).events := by
  unfold onMessage
  split
  · rename_i ok context inputBuffer _
    have first : s.events <+: (if ok then { s with inputBuffer }
        else ({ s with inputBuffer }.send badRequest).shutdown).events := by
      split
      · exact List.prefix_refl _
      · exact (sendGrows { s with inputBuffer } _).trans (shutdownGrows _)
    dsimp only
    split
    · exact first.trans (requestGrows cb _ _)
    · exact first
  · exact List.prefix_refl _

theorem deliverGrows (cb : HttpCallback) (t : Timestamp) (s : Session) (segment : Bytes) :
    s.events <+: (deliver cb t s segment).events := by
  unfold deliver
  split
  · split
    · rename_i inputBuffer _
      exact messageGrows cb t { s with inputBuffer }
    · exact List.prefix_refl _
  · exact List.prefix_refl _

theorem segmentsGrow (cb : HttpCallback) (t : Timestamp) (s : Session) (segments : List Bytes) :
    s.events <+: (segments.foldl (deliver cb t) s).events := by
  induction segments generalizing s with
  | nil => exact List.prefix_refl _
  | cons segment rest ih => exact (deliverGrows cb t s segment).trans (ih _)

structure Waiting (s : Session) (unread : Bytes) (limit : Nat) : Prop where
  connected : s.state = .kConnected
  silent : s.events = []
  alive : s.alive = true
  valid : Valid s.inputBuffer
  content : s.inputBuffer.readable = unread
  writer : s.inputBuffer.writerIndex ≤ kCheapPrepend + limit

theorem connectedWaiting : Waiting connected [] 0 :=
  ⟨rfl, rfl, rfl, freshValid, freshReadable, Nat.le_of_eq freshFront.2⟩

theorem deliverWaiting (cb : HttpCallback) {t : Timestamp} {s : Session} {unread : Bytes} {limit : Nat}
    (waiting : Waiting s unread limit) {segment : Bytes} (small : limit + segment.length < intLimit)
    {d : HttpContext} {ok : Bool} {last : Bytes}
    (parses : Parses t {} false (unread ++ segment) d ok last) (open_ : d.gotAll = false) :
    (ok = false → (deliver cb t s segment).events = [.sent badRequest, .shutdown]) ∧
    (ok = true → Waiting (deliver cb t s segment) last (limit + segment.length)) := by
  obtain ⟨connected, silent, alive, valid, content, writer⟩ := waiting
  have room : ¬ maxSize < s.inputBuffer.writerIndex + segment.length := by
    unfold maxSize kCheapPrepend intLimit at *
    omega
  rcases appendSpec valid (show segment.length < intLimit by omega) with ⟨b, ok', added⟩ | ⟨_, beyond⟩
  · obtain ⟨b', done, consumed⟩ := parseRequestOf parses added.valid (by rw [added.content, content])
    have moved := added.writer
    have kept := consumed.writer
    constructor
    · rintro rfl
      simp [deliver, alive, ok', onMessage, done, open_, Session.send, Session.shutdown, connected, silent]
    · rintro rfl
      simp only [deliver, alive, ok', onMessage, done, open_, if_true, Bool.false_eq_true, if_false]
      exact ⟨connected, silent, rfl, consumed.valid, consumed.content, by dsimp only; omega⟩
  · exact absurd beyond room

theorem splitRefused (cb : HttpCallback) (t : Timestamp) {w first second : Bytes} {rest : List Bytes}
    (request : WellFormed w) (whole : first ++ (second ++ rest.flatten) = w) (more : second ≠ [])
    (small : w.length < intLimit) :
    (serve cb t (first :: second :: rest)).head? = some (.sent badRequest) := by
  have length : first.length + (second.length + rest.flatten.length) < intLimit := by
    rw [← List.length_append, ← List.length_append, whole]; exact small
  have cut : second ++ rest.flatten ≠ [] := by simp [more]
  obtain ⟨d, ok, last, parses⟩ := parsesTotal t (c := {}) (.inl rfl) false ([] ++ first)
  obtain ⟨open_, left⟩ := requestCut request (by simpa using whole) cut parses
  obtain ⟨refused, goesOn⟩ := deliverWaiting cb connectedWaiting (by omega) parses open_
  have seen : [.sent badRequest, .shutdown] <+: serve cb t (first :: second :: rest) := by
    cases ok with
    | false =>
      rw [← refused rfl, serve, List.foldl_cons]
      exact segmentsGrow cb t (deliver cb t connected first) (second :: rest)
    | true =>
      obtain ⟨fields, remaining, headers⟩ := left rfl
      obtain ⟨e, ok', last', parses'⟩ := parsesTotal t (c := {}) (.inl rfl) false (last ++ second)
      obtain ⟨rfl, open'⟩ := headersRefused headers (by rw [List.append_assoc]; exact remaining) parses'
      rw [← (deliverWaiting cb (goesOn rfl) (by omega) parses' open').1 rfl, serve, List.foldl_cons,
        List.foldl_cons]
      exact segmentsGrow cb t (deliver cb t (deliver cb t connected first) second) rest
  obtain ⟨later, eq⟩ := seen
  rw [← eq]
  rfl

theorem wholeAnswered (cb : HttpCallback) (t : Timestamp) {w : Bytes} (request : WellFormed w)
    (small : w.length < intLimit) : (serve cb t [w]).head? ≠ some (.sent badRequest) := by
  obtain ⟨d, parses, all⟩ := requestWhole t request
  rcases appendSpec freshValid small with ⟨b, ok, added⟩ | ⟨_, beyond⟩
  · obtain ⟨b', done, _⟩ := parseRequestOf parses added.valid
      (by rw [added.content, freshReadable, List.nil_append])
    simp only [serve, List.foldl_cons, List.foldl_nil, deliver, connected, ok, onMessage, done, all,
      if_true]
    unfold onRequest
    dsimp only
    split
    · rename_i buf filled
      have longer : buf.readable ≠ badRequest := by
        intro same
        have length := HttpResponse.piecesLength (cb d.request { closeConnection := true })
        rw [← HttpResponse.appendToBufferSpec filled, same] at length
        exact absurd length (by decide)
      split <;> simpa [Session.send, Session.shutdown] using longer
    · simp [Session.abort]
  · rw [freshFront.2] at beyond
    unfold maxSize kCheapPrepend intLimit at *
    omega

theorem segmentationVisible (cb : HttpCallback) (t : Timestamp) {w : Bytes} (request : WellFormed w)
    {segments : List Bytes} (parts : segments.flatten = w) (nonempty : ∀ segment ∈ segments, segment ≠ []) :
    (segments.length = 1 → serve cb t segments = serve cb t [w]) ∧
    (w.length < 2 ^ 31 → serve cb t segments = serve cb t [w] → segments.length = 1) := by
  match segments, parts with
  | [], parts =>
    have empty : w = [] := parts.symm
    cases request
    simp [kCRLF] at empty
  | [segment], parts =>
    rw [List.flatten_singleton] at parts
    exact ⟨fun _ => by rw [parts], fun _ _ => rfl⟩
  | first :: second :: rest, parts =>
    refine ⟨fun single => by simp at single, fun small same => ?_⟩
    have refused := splitRefused cb t request (by simpa using parts)
      (nonempty second (by simp)) small
    rw [same] at refused
    exact absurd refused (wholeAnswered cb t request small)

def getRoot : Bytes := ascii "GET / HTTP/1.1\r\n\r\n"

theorem getRootWellFormed : WellFormed getRoot := by
  have line : RequestLine (ascii "GET / HTTP/1.1") :=
    ⟨⟨.kGet, .kHttp11, ascii "/", by decide, by decide, by decide, rfl⟩, by decide⟩
  exact @WellFormed.intro _ [] line (by simp)

theorem segmentationVisibleGetRoot :
    serve defaultHttpCallback ⟨0⟩ [getRoot.take 5, getRoot.drop 5] ≠
      serve defaultHttpCallback ⟨0⟩ [getRoot] := by
  have parts : [getRoot.take 5, getRoot.drop 5].flatten = getRoot := by decide
  have single := (segmentationVisible defaultHttpCallback ⟨0⟩ getRootWellFormed parts (by decide)).2
  intro same
  exact absurd (single (by decide) same) (by decide)

/- Cut behind its fifth byte the request is answered with 400 and the response is
dropped; in one segment it is answered. -/
theorem cutRequestServedDifferently :
    ¬ ∀ (cb : HttpCallback) (w : Bytes) (segments : List Bytes), WellFormed w →
      segments.flatten = w → (∀ segment ∈ segments, segment ≠ []) →
      serve cb ⟨0⟩ segments = serve cb ⟨0⟩ [w] := by
  intro all
  have same := all defaultHttpCallback getRoot [getRoot.take 5, getRoot.drop 5] getRootWellFormed
    (by decide) (by decide)
  have different : serve defaultHttpCallback ⟨0⟩ [getRoot.take 5, getRoot.drop 5] ≠
      serve defaultHttpCallback ⟨0⟩ [getRoot] := by decide +kernel
  exact different same

end TinyNetwork.HttpSegments
