import TinyNetwork.HttpRequestLine

/-! The request lines that are accepted. A line is a method, a target without blanks
and a version, with one blank between each two of them; the target falls apart at its
first question mark. Whether a line is accepted does not depend on what the request
held before. -/
namespace TinyNetwork.HttpGrammar
open FirstMatch HttpRequest HttpRequestLine

def methods : List (Bytes × Method) :=
  [(ascii "GET", .kGet), (ascii "POST", .kPost), (ascii "HEAD", .kHead), (ascii "PUT", .kPut),
    (ascii "DELETE", .kDelete)]

def versions : List (Bytes × Version) := [(ascii "HTTP/1.0", .kHttp10), (ascii "HTTP/1.1", .kHttp11)]

structure RequestLine (line m target v : Bytes) (method : Method) (version : Version) : Prop where
  cut : line = m ++ [32] ++ target ++ [32] ++ v
  method : (m, method) ∈ methods
  target : 32 ∉ target
  version : (v, version) ∈ versions

def Accepted (line : Bytes) : Prop := ∃ m target v method version, RequestLine line m target v method version

theorem methodsIff (m : Bytes) (method : Method) :
    (m, method) ∈ methods ↔ methodOf m = method ∧ method ≠ .kInvalid := by
  constructor
  · intro member
    simp only [methods, List.mem_cons, Prod.mk.injEq, List.not_mem_nil, or_false] at member
    rcases member with ⟨rfl, rfl⟩ | ⟨rfl, rfl⟩ | ⟨rfl, rfl⟩ | ⟨rfl, rfl⟩ | ⟨rfl, rfl⟩ <;> decide
  · rintro ⟨rfl, known⟩
    have name := methodOfKnown known
    cases found : methodOf m with
    | kInvalid => exact absurd found known
    | kGet | kPost | kHead | kPut | kDelete =>
      rw [found] at name
      rw [name]
      decide

theorem methodBlank {m : Bytes} {method : Method} (member : (m, method) ∈ methods) : 32 ∉ m := by
  simp only [methods, List.mem_cons, Prod.mk.injEq, List.not_mem_nil, or_false] at member
  rcases member with ⟨rfl, _⟩ | ⟨rfl, _⟩ | ⟨rfl, _⟩ | ⟨rfl, _⟩ | ⟨rfl, _⟩ <;> decide

theorem versionKnown {rest : Bytes} {version : Version} (member : (rest, version) ∈ versions) (r : HttpRequest) :
    r.setVersionFrom rest = (true, { r with version }) := by
  simp only [versions, List.mem_cons, Prod.mk.injEq, List.not_mem_nil, or_false] at member
  rcases member with ⟨rfl, rfl⟩ | ⟨rfl, rfl⟩ <;> rfl

theorem versionOf {r : HttpRequest} {rest : Bytes} (good : (r.setVersionFrom rest).1 = true) :
    ∃ version, (rest, version) ∈ versions := by
  unfold setVersionFrom at good
  split at good
  case isFalse => simp at good
  case isTrue shape =>
    have whole : rest = ascii "HTTP/1." ++ rest.drop 7 := by
      conv_lhs => rw [← List.take_append_drop 7 rest, shape.2]
    split at good
    case isTrue one =>
      rw [one] at whole
      exact ⟨.kHttp11, by rw [whole]; decide⟩
    case isFalse =>
      split at good
      case isTrue zero =>
        rw [zero] at whole
        exact ⟨.kHttp10, by rw [whole]; decide⟩
      case isFalse => simp at good

theorem targetSplit (r : HttpRequest) (target : Bytes) (clean : r.query = []) :
    (r.setTarget target).path ++ (r.setTarget target).query = target ∧ 63 ∉ (r.setTarget target).path ∧
      ((r.setTarget target).query = [] ∨ (r.setTarget target).query.head? = some 63) := by
  by_cases question : target.idxOf 63 ≠ target.length
  · obtain ⟨path, query, rfl, free⟩ := findSplit question
    have cut := findCut free query
    rw [cut] at question
    simp only [setTarget, cut, if_pos question, List.take_left, List.drop_left]
    exact ⟨trivial, free, .inr rfl⟩
  · have free : 63 ∉ target := fun member => question (Nat.ne_of_lt (List.idxOf_lt_length_of_mem member))
    simp only [setTarget, if_neg question, clean, List.append_nil]
    exact ⟨trivial, free, .inl trivial⟩

theorem processAccepted {line m target v : Bytes} {method : Method} {version : Version}
    (shape : RequestLine line m target v method version) (r : HttpRequest) :
    r.processRequestLine line = (true, { { r with method }.setTarget target with version }) := by
  obtain ⟨named, known⟩ := (methodsIff m method).mp shape.method
  have cut : line = m ++ 32 :: (target ++ 32 :: v) := by simp [shape.cut]
  rw [cut, processTwoSpaces (methodBlank shape.method) (named ▸ known) shape.target, named,
    versionKnown shape.version]

theorem acceptedOf {r : HttpRequest} {line : Bytes} (good : (r.processRequestLine line).1 = true) :
    Accepted line := by
  by_cases blank : line.idxOf 32 ≠ line.length
  · obtain ⟨m, tail, rfl, free⟩ := findSplit blank
    by_cases known : methodOf m = .kInvalid
    · simp [processUnknown free tail known] at good
    · by_cases second : tail.idxOf 32 ≠ tail.length
      · obtain ⟨target, rest, rfl, clear⟩ := findSplit second
        rw [processTwoSpaces free known clear] at good
        obtain ⟨version, member⟩ := versionOf good
        exact ⟨m, target, rest, methodOf m, version, by simp, (methodsIff m _).mpr ⟨rfl, known⟩, clear, member⟩
      · have alone : 32 ∉ tail := fun member => second (Nat.ne_of_lt (List.idxOf_lt_length_of_mem member))
        simp [processOneSpace free known alone] at good
  · have none_ : 32 ∉ line := fun member => blank (Nat.ne_of_lt (List.idxOf_lt_length_of_mem member))
    simp [processNoSpace none_] at good

theorem acceptedIff (r : HttpRequest) (line : Bytes) :
    (r.processRequestLine line).1 = true ↔ Accepted line := by
  constructor
  · exact acceptedOf
  · rintro ⟨m, target, v, method, version, shape⟩
    rw [processAccepted shape]

structure Filled (r : HttpRequest) (target : Bytes) (method : Method) (version : Version) : Prop where
  method : r.method = method
  version : r.version = version
  target : r.path ++ r.query = target
  path : 63 ∉ r.path
  query : r.query = [] ∨ r.query.head? = some 63

theorem requestLineGrammar (line : Bytes) :
    ((({} : HttpRequest).processRequestLine line).1 = true ↔ Accepted line) ∧
    ∀ m target v method version, RequestLine line m target v method version →
      Filled (({} : HttpRequest).processRequestLine line).2 target method version := by
  refine ⟨acceptedIff {} line, ?_⟩
  intro m target v method version shape
  obtain ⟨whole, path, query⟩ := targetSplit { method } target rfl
  have kept : ({ method } : HttpRequest).setTarget target = { ({ method } : HttpRequest).setTarget target with method } :=
    (setTargetMethod { method } target method).symm
  rw [processAccepted shape]
  exact ⟨by rw [kept], rfl, whole, path, query⟩

theorem requestLineGrammarSample :
    Filled (({} : HttpRequest).processRequestLine (ascii "GET /a?b?c HTTP/1.0")).2 (ascii "/a?b?c") .kGet .kHttp10 := by
  have shape : RequestLine (ascii "GET /a?b?c HTTP/1.0") (ascii "GET") (ascii "/a?b?c") (ascii "HTTP/1.0")
      .kGet .kHttp10 := ⟨by decide, by decide, by decide, by decide⟩
  exact (requestLineGrammar _).2 _ _ _ _ _ shape

end TinyNetwork.HttpGrammar
