import TinyNetwork.FirstMatch

/-! Lines with a separator of two different cells. Lines that hold no separator come
back when their text is cut at each separator, and when none of them is empty the
first place where two separators meet is behind the last of them. -/
namespace TinyNetwork.Separated
open FirstMatch

variable {α : Type}

theorem endedLines (sep : List α) {lines : List (List α)} (some_ : lines ≠ []) :
    lines.flatMap (· ++ sep) = sep.intercalate lines ++ sep := by
  induction lines with
  | nil => contradiction
  | cons line lines ih =>
    cases lines with
    | nil => simp
    | cons next lines =>
      rw [List.flatMap_cons, ih (by simp), List.intercalate_cons_cons, List.append_assoc (line ++ sep)]

variable [DecidableEq α]

def splitPair (a b : α) : List α → List (List α)
  | [] => [[]]
  | x :: xs =>
    match xs with
    | [] => [[x]]
    | y :: rest =>
      if x = a ∧ y = b then [] :: splitPair a b rest
      else
        match splitPair a b (y :: rest) with
        | [] => [[x]]
        | line :: lines => (x :: line) :: lines

theorem splitPairFree {a b : α} {line : List α} (free : ¬ [a, b] <:+: line) : splitPair a b line = [line] := by
  induction line with
  | nil => rfl
  | cons x line ih =>
    rw [List.infix_cons_iff, not_or] at free
    cases line with
    | nil => rfl
    | cons y line =>
      have apart : ¬ (x = a ∧ y = b) := by
        rintro ⟨rfl, rfl⟩
        exact free.1 (by simp)
      simp only [splitPair, if_neg apart, ih free.2]

theorem splitPairLine {a b : α} (different : a ≠ b) {line : List α} (free : ¬ [a, b] <:+: line) (rest : List α) :
    splitPair a b (line ++ [a, b] ++ rest) = line :: splitPair a b rest := by
  induction line with
  | nil => simp [splitPair]
  | cons x line ih =>
    rw [List.infix_cons_iff, not_or] at free
    have tail := ih free.2
    cases line with
    | nil =>
      have apart : ¬ (x = a ∧ a = b) := fun pair => different pair.2
      simp only [List.nil_append, List.cons_append] at tail ⊢
      rw [splitPair, if_neg apart, tail]
    | cons y line =>
      have apart : ¬ (x = a ∧ y = b) := by
        rintro ⟨rfl, rfl⟩
        exact free.1 (by simp)
      simp only [List.cons_append] at tail ⊢
      rw [splitPair, if_neg apart, tail]

theorem splitPairJoin {a b : α} (different : a ≠ b) {lines : List (List α)} (some_ : lines ≠ [])
    (free : ∀ line ∈ lines, ¬ [a, b] <:+: line) : splitPair a b ([a, b].intercalate lines) = lines := by
  induction lines with
  | nil => contradiction
  | cons line lines ih =>
    obtain ⟨first, others⟩ := List.forall_mem_cons.mp free
    cases lines with
    | nil =>
      rw [List.intercalate_singleton]
      exact splitPairFree first
    | cons next lines => rw [List.intercalate_cons_cons, splitPairLine different first, ih (by simp) others]

theorem searchMeet {a b : α} (different : a ≠ b) {line : List α} (free : ¬ [a, b] <:+: line) (rest : List α) :
    search [a, b, a, b] (line ++ [a, b] ++ rest) =
      if [a, b] <+: rest then line.length else line.length + 2 + search [a, b, a, b] rest := by
  induction line with
  | nil =>
    have here : [a, b, a, b] <+: a :: b :: rest ↔ [a, b] <+: rest := by simp
    have shifted : ¬ [a, b, a, b] <+: b :: rest := fun start => different (List.cons_prefix_cons.mp start).1
    simp only [List.nil_append, List.cons_append, search, here, if_neg shifted, List.length_nil]
    split <;> omega
  | cons x line ih =>
    have later : ¬ [a, b, a, b] <+: x :: (line ++ [a, b] ++ rest) := by
      intro here
      have pair : [a, b] <+: [a, b, a, b] := ⟨[a, b], rfl⟩
      exact pairNotHere different (List.cons_ne_nil x line) free rest (pair.trans here)
    rw [List.infix_cons_iff, not_or] at free
    simp only [List.cons_append, search, if_neg later, List.length_cons] at ih ⊢
    rw [ih free.2]
    split <;> omega

theorem searchBlank {a b : α} (different : a ≠ b) {lines : List (List α)} (some_ : lines ≠ [])
    (free : ∀ line ∈ lines, line ≠ [] ∧ ¬ [a, b] <:+: line) (rest : List α) :
    search [a, b, a, b] (lines.flatMap (· ++ [a, b]) ++ ([a, b] ++ rest)) =
      ([a, b].intercalate lines).length := by
  induction lines with
  | nil => contradiction
  | cons line lines ih =>
    obtain ⟨⟨_, first⟩, others⟩ := List.forall_mem_cons.mp free
    rw [List.flatMap_cons, List.append_assoc (line ++ [a, b]), searchMeet different first]
    cases lines with
    | nil => rw [if_pos (by simp), List.intercalate_singleton]
    | cons next lines =>
      have ⟨⟨shown, whole⟩, _⟩ := List.forall_mem_cons.mp others
      have apart : ¬ [a, b] <+: (next :: lines).flatMap (· ++ [a, b]) ++ ([a, b] ++ rest) := by
        rw [List.flatMap_cons, List.append_assoc (next ++ [a, b])]
        exact pairNotHere different shown whole _
      rw [if_neg apart, ih (by simp) others, List.intercalate_cons_cons]
      simp only [List.length_append, List.length_cons, List.length_nil]

end TinyNetwork.Separated
