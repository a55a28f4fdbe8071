import TinyNetwork.HttpContext

/-! What processRequestLine makes of a line, by the blanks in it. A line has no
blank, an unknown word before its first blank, only one blank, or two blanks with
a target between them; each shape has one outcome for every request it meets. -/
namespace TinyNetwork.HttpRequestLine
open FirstMatch HttpRequest

theorem methodOfKnown {m : Bytes} (known : methodOf m ≠ .kInvalid) : m = methodString (methodOf m) := by
  unfold methodOf at *
  repeat' split at known
  all_goals first | contradiction | simp_all [methodString]

theorem processNoSpace {line : Bytes} (free : 32 ∉ line) (r : HttpRequest) :
    r.processRequestLine line = (false, r) := by
  simp [processRequestLine, List.idxOf_eq_length free]

theorem processUnknown {m : Bytes} (free : 32 ∉ m) (rest : Bytes) (unknown : methodOf m = .kInvalid)
    (r : HttpRequest) :
    r.processRequestLine (m ++ 32 :: rest) = (false, { r with method := .kInvalid }) := by
  simp [processRequestLine, findCut free, setMethod, unknown]

theorem processOneSpace {m rest : Bytes} (free : 32 ∉ m) (known : methodOf m ≠ .kInvalid)
    (alone : 32 ∉ rest) (r : HttpRequest) :
    r.processRequestLine (m ++ 32 :: rest) = (false, { r with method := methodOf m }) := by
  simp [processRequestLine, findCut free, setMethod, known, List.idxOf_eq_length alone]

theorem processTwoSpaces {m target : Bytes} (free : 32 ∉ m) (known : methodOf m ≠ .kInvalid)
    (blank : 32 ∉ target) (rest : Bytes) (r : HttpRequest) :
    r.processRequestLine (m ++ 32 :: (target ++ 32 :: rest)) =
      ({ r with method := methodOf m }.setTarget target).setVersionFrom rest := by
  simp [processRequestLine, findCut free, setMethod, known, findCut blank]

theorem setTargetAgain (r : HttpRequest) (target : Bytes) :
    (r.setTarget target).setTarget target = r.setTarget target := by
  by_cases question : target.idxOf 63 ≠ target.length
  · simp only [setTarget, if_pos question]
  · simp only [setTarget, if_neg question]

theorem setTargetMethod (r : HttpRequest) (target : Bytes) (m : Method) :
    { r.setTarget target with method := m } = { r with method := m }.setTarget target := by
  by_cases question : target.idxOf 63 ≠ target.length
  · simp only [setTarget, if_pos question]
  · simp only [setTarget, if_neg question]

theorem versionRefused {r : HttpRequest} {rest : Bytes} (bad : (r.setVersionFrom rest).1 = false)
    (s : HttpRequest) : s.setVersionFrom rest = (false, s) := by
  unfold setVersionFrom at *
  split
  · rename_i shape
    rw [if_pos shape] at bad
    split
    · rename_i one
      simp [one] at bad
    · rename_i one
      rw [if_neg one] at bad
      split
      · rename_i zero
        simp [zero] at bad
      · rfl
  · rfl

theorem refusedAgain {r : HttpRequest} {line : Bytes} (bad : (r.processRequestLine line).1 = false) :
    (r.processRequestLine line).2.processRequestLine line = (false, (r.processRequestLine line).2) := by
  by_cases blank : line.idxOf 32 ≠ line.length
  · obtain ⟨m, tail, rfl, free⟩ := findSplit blank
    by_cases known : methodOf m = .kInvalid
    · simp only [processUnknown free tail known]
    · by_cases second : tail.idxOf 32 ≠ tail.length
      · obtain ⟨target, rest, rfl, clear⟩ := findSplit second
        simp only [processTwoSpaces free known clear] at bad ⊢
        have stuck := versionRefused bad
        simp only [stuck, setTargetMethod, setTargetAgain]
      · have alone : 32 ∉ tail := by
          intro member
          exact second (Nat.ne_of_lt (List.idxOf_lt_length_of_mem member))
        simp only [processOneSpace free known alone]
  · have none_ : 32 ∉ line := by
      intro member
      exact blank (Nat.ne_of_lt (List.idxOf_lt_length_of_mem member))
    simp only [processNoSpace none_]

end TinyNetwork.HttpRequestLine
