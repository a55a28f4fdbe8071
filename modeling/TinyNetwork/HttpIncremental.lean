import TinyNetwork.HttpTrace
import TinyNetwork.HttpRequestLine
import TinyNetwork.BufferQueue

/-! Feeding the parser piece by piece. One buffer and one context take the chunks
of a byte string in turn; the result is compared with appending the whole string
at once and parsing once. What carries the comparison is that after any number of
chunks the context and the unread bytes are those of one parse of all bytes seen. -/
namespace TinyNetwork.HttpIncremental
open Buffer Words HttpContext HttpTrace HttpRequestLine

def deliver (t : Timestamp) (b : Buffer) (c : HttpContext) (chunk : Bytes) :
    Option (Buffer × HttpContext) := do
  let b ← b.append chunk
  if c.gotAll then some (b, c)
  else do
    let (_, c, b) ← c.parseRequest b t
    some (b, c)

def feed (t : Timestamp) : List Bytes → Buffer → HttpContext → Option (Buffer × HttpContext)
  | [], b, c => some (b, c)
  | chunk :: rest, b, c => do
      let (b, c) ← deliver t b c chunk
      feed t rest b c

theorem refuseInversion {t : Timestamp} {c e : HttpContext} {ok ok' : Bool}
    {bytes line rest last : Bytes} (state : c.state = .kExpectRequestLine)
    (first : FirstLine bytes line rest) (bad : (c.request.processRequestLine line).1 = false)
    (parses : Parses t c ok bytes e ok' last) : e = refused c line ∧ last = bytes := by
  cases parses with
  | starved _ absent => exact absurd ⟨line, rest, first.cut.symm⟩ absent
  | refuse _ first' _ =>
    obtain ⟨rfl, rfl⟩ := firstLineUnique first first'
    exact ⟨rfl, rfl⟩
  | accept _ first' good _ =>
    obtain ⟨rfl, rfl⟩ := firstLineUnique first first'
    rw [bad] at good
    contradiction
  | header state' _ _ _ => rw [state] at state'; contradiction
  | finish state' _ _ => rw [state] at state'; contradiction

theorem parsesOk {t : Timestamp} {c d : HttpContext} {ok ok' : Bool} {bytes last : Bytes}
    (parses : Parses t c ok bytes d ok' last) (start : Bool) :
    ∃ ok'', Parses t c start bytes d ok'' last := by
  induction parses generalizing start with
  | starved state absent => exact ⟨_, .starved state absent⟩
  | refuse state first bad => exact ⟨_, .refuse state first bad⟩
  | accept state first good more _ => exact ⟨_, .accept state first good more⟩
  | header state first colon _ ih =>
    obtain ⟨ok'', more⟩ := ih start
    exact ⟨ok'', .header state first colon more⟩
  | finish state first plain => exact ⟨_, .finish state first plain⟩

/- A parse of the first bytes can be taken up again: finished, it is also the parse
of all bytes; unfinished, the parse of all bytes is what its own state and unread
bytes lead to once the others have arrived. -/
theorem parsesResume {t : Timestamp} {c d : HttpContext} {ok ok' : Bool} {bytes last : Bytes}
    (parses : Parses t c ok bytes d ok' last) (more : Bytes) :
    (d.state = .kGotAll ∧ Parses t c ok (bytes ++ more) d ok' (last ++ more)) ∨
    (Expecting d ∧ ∀ {e ok'' end_}, Parses t d false (last ++ more) e ok'' end_ →
      ∃ answer, Parses t c ok (bytes ++ more) e answer end_) := by
  induction parses with
  | starved state absent => exact .inr ⟨state, fun later => parsesOk later _⟩
  | @refuse c ok bytes line rest state first bad =>
    refine .inr ⟨.inl state, fun later => ?_⟩
    have again := refusedAgain bad
    have still : ((refused c line).request.processRequestLine line).1 = false :=
      congrArg Prod.fst again
    have grown := firstLineGrown first more
    obtain ⟨rfl, rfl⟩ := refuseInversion (show (refused c line).state = _ from state) grown still later
    have fixed : refused (refused c line) line = refused c line := by
      have same := congrArg Prod.snd again
      simp only [refused] at same ⊢
      rw [same]
    rw [fixed]
    exact ⟨_, .refuse state grown bad⟩
  | accept state first good _ ih =>
    have grown := firstLineGrown first more
    rcases ih with ⟨all, whole⟩ | ⟨expecting, resume⟩
    · exact .inl ⟨all, .accept state grown good whole⟩
    · refine .inr ⟨expecting, fun later => ?_⟩
      obtain ⟨answer, whole⟩ := resume later
      exact ⟨answer, .accept state grown good whole⟩
  | header state first colon _ ih =>
    have grown := firstLineGrown first more
    rcases ih with ⟨all, whole⟩ | ⟨expecting, resume⟩
    · exact .inl ⟨all, .header state grown colon whole⟩
    · refine .inr ⟨expecting, fun later => ?_⟩
      obtain ⟨answer, whole⟩ := resume later
      exact ⟨answer, .header state grown colon whole⟩
  | finish state first plain => exact .inl ⟨rfl, .finish state (firstLineGrown first more) plain⟩

theorem parsesUnique {t : Timestamp} {c d d' : HttpContext} {ok start ok' ok'' : Bool}
    {bytes last last' : Bytes} (a : Parses t c ok bytes d ok' last)
    (b : Parses t c start bytes d' ok'' last') : d = d' ∧ last = last' := by
  induction a generalizing start with
  | starved _ absent =>
    cases b with
    | starved => exact ⟨rfl, rfl⟩
    | refuse _ first _ => exact absurd ⟨_, _, first.cut.symm⟩ absent
    | accept _ first _ _ => exact absurd ⟨_, _, first.cut.symm⟩ absent
    | header _ first _ _ => exact absurd ⟨_, _, first.cut.symm⟩ absent
    | finish _ first _ => exact absurd ⟨_, _, first.cut.symm⟩ absent
  | refuse state first bad =>
    obtain ⟨rfl, rfl⟩ := refuseInversion state first bad b
    exact ⟨rfl, rfl⟩
  | accept state first good _ ih =>
    cases b with
    | starved _ absent => exact absurd ⟨_, _, first.cut.symm⟩ absent
    | refuse _ first' bad =>
      obtain ⟨rfl, rfl⟩ := firstLineUnique first first'
      rw [good] at bad
      contradiction
    | accept _ first' _ more =>
      obtain ⟨rfl, rfl⟩ := firstLineUnique first first'
      exact ih more
    | header state' _ _ _ => rw [state] at state'; contradiction
    | finish state' _ _ => rw [state] at state'; contradiction
  | header state first colon _ ih =>
    cases b with
    | starved _ absent => exact absurd ⟨_, _, first.cut.symm⟩ absent
    | refuse state' _ _ => rw [state] at state'; contradiction
    | accept state' _ _ _ => rw [state] at state'; contradiction
    | header _ first' _ more =>
      obtain ⟨rfl, rfl⟩ := firstLineUnique first first'
      exact ih more
    | finish _ first' plain =>
      obtain ⟨rfl, rfl⟩ := firstLineUnique first first'
      exact absurd colon plain
  | finish state first plain =>
    cases b with
    | starved _ absent => exact absurd ⟨_, _, first.cut.symm⟩ absent
    | refuse state' _ _ => rw [state] at state'; contradiction
    | accept state' _ _ _ => rw [state] at state'; contradiction
    | header _ first' colon _ =>
      obtain ⟨rfl, rfl⟩ := firstLineUnique first first'
      exact absurd colon plain
    | finish _ first' _ =>
      obtain ⟨rfl, rfl⟩ := firstLineUnique first first'
      exact ⟨rfl, rfl⟩

structure Seen (t : Timestamp) (size : Nat) (seen : Bytes) (b : Buffer) (c : HttpContext) : Prop where
  valid : Valid b
  parsed : ∃ ok, Parses t {} false seen c ok b.readable
  writer : b.writerIndex ≤ kCheapPrepend + seen.length
  size : size ≤ b.buffer.size

theorem seenNone {initialSize : Nat} (room : kCheapPrepend + initialSize ≤ maxSize) {b : Buffer}
    (made : Buffer.make initialSize = some b) (t : Timestamp) :
    Seen t (kCheapPrepend + initialSize) [] b {} := by
  obtain ⟨reader, writer, size⟩ := BufferQueue.madeSize made
  have word : kCheapPrepend + initialSize < sizeLimit := by
    unfold maxSize at room
    unfold sizeLimit
    omega
  have refines := BufferQueue.madeRefines (by omega) made
  refine ⟨refines.valid, ⟨false, ?_⟩, Nat.le_of_eq writer, ?_⟩
  · rw [show b.readable = [] from refines.content]
    exact .starved (.inl rfl) (by decide)
  · rw [size, sizeAddExact word]

theorem seenAppend {t : Timestamp} {size : Nat} {seen chunk : Bytes} {b : Buffer} {c : HttpContext}
    (now : Seen t size seen b c)
    (fits : seen.length + chunk.length < intLimit ∨
      kCheapPrepend + (seen.length + chunk.length) ≤ size) :
    ∃ b', b.append chunk = some b' ∧ Extends b b' chunk := by
  have writer := now.writer
  have kept := now.size
  rcases fits with small | inside
  · rcases appendSpec now.valid (show chunk.length < intLimit by omega) with done | ⟨_, beyond⟩
    · exact done
    · unfold maxSize kCheapPrepend intLimit at *
      omega
  · exact appendInPlace now.valid (by omega)

theorem deliverSeen {t : Timestamp} {size : Nat} {seen : Bytes} {b : Buffer} {c : HttpContext}
    (now : Seen t size seen b c) (chunk : Bytes)
    (fits : seen.length + chunk.length < intLimit ∨
      kCheapPrepend + (seen.length + chunk.length) ≤ size) :
    ∃ b' c', deliver t b c chunk = some (b', c') ∧ Seen t size (seen ++ chunk) b' c' := by
  obtain ⟨grown, ok, added⟩ := seenAppend now fits
  have writer : grown.writerIndex ≤ kCheapPrepend + (seen ++ chunk).length := by
    have before := now.writer
    have moved := added.writer
    rw [List.length_append]
    omega
  have kept := Nat.le_trans now.size added.size
  obtain ⟨_, parsed⟩ := now.parsed
  rcases parsesResume parsed chunk with ⟨all, whole⟩ | ⟨expecting, resume⟩
  · refine ⟨grown, c, ?_, ⟨added.valid, ⟨_, by rw [added.content]; exact whole⟩, writer, kept⟩⟩
    simp only [deliver, ok, gotAll, all, bind, Option.bind, beq_self_eq_true, if_true]
  · have open_ : c.gotAll = false := by
      rcases expecting with state | state <;> simp [gotAll, state]
    obtain ⟨d, ok', last, later⟩ := parsesTotal t expecting false (b.readable ++ chunk)
    obtain ⟨b', done, consumed⟩ := parseRequestOf later added.valid added.content
    obtain ⟨ok'', whole⟩ := resume later
    refine ⟨b', d, ?_, ⟨consumed.valid, ⟨ok'', by rw [consumed.content]; exact whole⟩,
      Nat.le_trans consumed.writer writer, by rw [consumed.store]; exact kept⟩⟩
    simp only [deliver, ok, open_, done, bind, Option.bind, Bool.false_eq_true, if_false]

theorem feedSeen {t : Timestamp} {size : Nat} {seen : Bytes} {b : Buffer} {c : HttpContext}
    (now : Seen t size seen b c) (chunks : List Bytes)
    (fits : seen.length + chunks.flatten.length < intLimit ∨
      kCheapPrepend + (seen.length + chunks.flatten.length) ≤ size) :
    ∃ b' c', feed t chunks b c = some (b', c') ∧ Seen t size (seen ++ chunks.flatten) b' c' := by
  induction chunks generalizing seen b c with
  | nil => exact ⟨b, c, rfl, by simpa using now⟩
  | cons chunk rest ih =>
    simp only [List.flatten_cons, List.length_append] at fits
    obtain ⟨b', c', ok, next⟩ := deliverSeen now chunk (by omega)
    obtain ⟨b'', c'', more, last⟩ := ih next (by rw [List.length_append]; omega)
    refine ⟨b'', c'', ?_, by simpa [List.append_assoc] using last⟩
    simp only [feed, ok, more, bind, Option.bind]

def Incremental (t : Timestamp) (b : Buffer) (s : Bytes) : Prop :=
  ∀ chunks : List Bytes, chunks.flatten = s →
    ∃ b₁ c₁ b₂ c₂, feed t chunks b {} = some (b₁, c₁) ∧ feed t [s] b {} = some (b₂, c₂) ∧
      c₁ = c₂ ∧ b₁.readable = b₂.readable

theorem incrementalOf {initialSize : Nat} (room : kCheapPrepend + initialSize ≤ maxSize) {b : Buffer}
    (made : Buffer.make initialSize = some b) (t : Timestamp) {s : Bytes}
    (fits : s.length < intLimit ∨ s.length ≤ initialSize) : Incremental t b s := by
  intro chunks whole
  have now := seenNone room made t
  obtain ⟨b₁, c₁, pieces, first⟩ := feedSeen now chunks
    (by rw [whole, List.length_nil]; omega)
  obtain ⟨b₂, c₂, once, second⟩ := feedSeen now [s]
    (by rw [List.flatten_singleton, List.length_nil]; omega)
  rw [whole] at first
  rw [List.flatten_singleton] at second
  obtain ⟨_, left⟩ := first.parsed
  obtain ⟨_, right⟩ := second.parsed
  obtain ⟨same, unread⟩ := parsesUnique left right
  exact ⟨b₁, c₁, b₂, c₂, pieces, once, same, unread⟩

theorem wholeRefused {initialSize : Nat} (room : kCheapPrepend + initialSize ≤ maxSize) {b : Buffer}
    (made : Buffer.make initialSize = some b) (t : Timestamp) {s : Bytes}
    (big : intLimit ≤ s.length) (beyond : initialSize < s.length) : ¬ Incremental t b s := by
  intro incremental
  obtain ⟨reader, writer, size⟩ := BufferQueue.madeSize made
  have now := seenNone room made t
  have word : sizeAdd kCheapPrepend initialSize = kCheapPrepend + initialSize :=
    sizeAddExact (by unfold maxSize sizeLimit at *; omega)
  have refused := appendOver now.valid big (by rw [size, writer, reader, word]; omega)
  obtain ⟨_, _, _, _, _, once, _⟩ := incremental [s] List.flatten_singleton
  simp [feed, deliver, refused] at once

theorem parserIncremental {initialSize : Nat} (room : kCheapPrepend + initialSize ≤ maxSize)
    {b : Buffer} (made : Buffer.make initialSize = some b) (t : Timestamp) (s : Bytes) :
    Incremental t b s ↔ s.length < 2 ^ 31 ∨ s.length ≤ initialSize := by
  constructor
  · intro incremental
    by_contra long
    exact wholeRefused room made t (by unfold intLimit; omega) (by omega) incremental
  · exact incrementalOf room made t

theorem parserIncrementalDefault :
    kCheapPrepend + kInitialSize ≤ maxSize ∧
      Incremental ⟨0⟩ fresh (ascii "GET / HTTP/1.1\r\n\r\n") :=
  ⟨by decide, (parserIncremental (by decide) makeDefault ⟨0⟩ _).mpr (.inl (by decide))⟩

theorem hugeStringNotIncremental : ¬ Incremental ⟨0⟩ fresh (List.replicate (2 ^ 31) 0) :=
  wholeRefused (by decide) makeDefault ⟨0⟩
    (by rw [List.length_replicate, intLimit]) (by rw [List.length_replicate]; decide)

end TinyNetwork.HttpIncremental
