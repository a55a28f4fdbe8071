import Mathlib.Data.List.Infix
import Mathlib.Tactic.Common

/-! The first occurrence of a pattern in a list, as std::search reports it: the
position of the match, or the length of the list when there is none. A match cuts
the list into a front without the pattern, the pattern, and the rest. -/
namespace TinyNetwork.FirstMatch

variable {α : Type}

theorem pairAbsent {a : α} {xs : List α} (absent : a ∉ xs) (b : α) : ¬ [a, b] <:+: xs :=
  fun inside => absent (inside.subset List.mem_cons_self)

theorem pairCons {a x : α} (other : x ≠ a) {b : α} {xs : List α} (free : ¬ [a, b] <:+: xs) :
    ¬ [a, b] <:+: x :: xs := by
  rw [List.infix_cons_iff]
  rintro (here | inside)
  · exact other (List.cons_prefix_cons.mp here).1.symm
  · exact free inside

theorem pairAppend {a b : α} {xs ys : List α} (left : ¬ [a, b] <:+: xs) (right : ¬ [a, b] <:+: ys)
    (seam : ys.head? ≠ some b) : ¬ [a, b] <:+: xs ++ ys := by
  induction xs with
  | nil => exact right
  | cons x xs ih =>
    rw [List.infix_cons_iff, not_or] at left
    rw [List.cons_append, List.infix_cons_iff]
    rintro (here | inside)
    · obtain ⟨rfl, next⟩ := List.cons_prefix_cons.mp here
      cases xs with
      | nil =>
        obtain ⟨rest, rfl⟩ := next
        exact seam rfl
      | cons y xs =>
        obtain ⟨rfl, _⟩ := List.cons_prefix_cons.mp next
        exact left.1 (by simp)
    · exact ih left.2 inside

variable [DecidableEq α]

def search (pat : List α) : List α → Nat
  | [] => 0
  | x :: xs => if pat <+: x :: xs then 0 else search pat xs + 1

theorem searchLe (pat xs : List α) : search pat xs ≤ xs.length := by
  induction xs with
  | nil => exact Nat.le_refl _
  | cons x xs ih =>
    simp only [search, List.length_cons]
    split <;> omega

theorem searchFound {pat xs : List α} (found : search pat xs < xs.length) :
    xs = xs.take (search pat xs) ++ pat ++ xs.drop (search pat xs + pat.length) := by
  induction xs with
  | nil => simp [search] at found
  | cons x xs ih =>
    simp only [search] at found ⊢
    split
    · rename_i here
      obtain ⟨rest, eq⟩ := here
      simp [← eq]
    · rename_i later
      rw [if_neg later, List.length_cons] at found
      have tail := ih (by omega)
      have shift : search pat xs + 1 + pat.length = search pat xs + pat.length + 1 := by omega
      rw [List.take_succ_cons, shift, List.drop_succ_cons, List.cons_append, List.cons_append, ← tail]

theorem searchFree {pat : List α} (nonempty : pat ≠ []) (xs : List α) :
    ¬ pat <:+: xs.take (search pat xs) := by
  induction xs with
  | nil => simpa [search] using nonempty
  | cons x xs ih =>
    simp only [search]
    split
    · simpa using nonempty
    · rename_i later
      rw [List.take_succ_cons, List.infix_cons_iff]
      rintro (here | inside)
      · exact later (here.trans ((List.take_prefix (search pat xs + 1) (x :: xs))))
      · exact ih inside

theorem searchAbsent {pat : List α} (nonempty : pat ≠ []) {xs : List α}
    (absent : search pat xs = xs.length) : ¬ pat <:+: xs := by
  have free := searchFree nonempty xs
  rwa [absent, List.take_length] at free

theorem searchPresent {pat xs : List α} (nonempty : pat ≠ []) (present : pat <:+: xs) :
    search pat xs < xs.length := by
  rcases Nat.lt_or_eq_of_le (searchLe pat xs) with found | absent
  · exact found
  · exact absurd present (searchAbsent nonempty absent)

omit [DecidableEq α] in
theorem pairNotHere {a b : α} (different : a ≠ b) {line : List α} (some_ : line ≠ []) (free : ¬ [a, b] <:+: line)
    (rest : List α) : ¬ [a, b] <+: line ++ [a, b] ++ rest := by
  intro here
  match line with
  | [] => contradiction
  | [x] =>
    simp only [List.nil_append, List.cons_append, List.cons_prefix_cons] at here
    exact different here.2.1.symm
  | x :: y :: line =>
    simp only [List.cons_append, List.cons_prefix_cons] at here
    rw [List.infix_cons_iff, not_or] at free
    exact free.1 (by simp [here.1, here.2.1])

theorem searchPair {a b : α} (different : a ≠ b) {line : List α} (free : ¬ [a, b] <:+: line)
    (rest : List α) : search [a, b] (line ++ [a, b] ++ rest) = line.length := by
  induction line with
  | nil => simp [search]
  | cons x line ih =>
    have later := pairNotHere different (List.cons_ne_nil x line) free rest
    rw [List.infix_cons_iff, not_or] at free
    simp only [List.cons_append] at later ⊢
    simp only [search, if_neg later, List.length_cons]
    rw [← ih free.2]

theorem findCut {x : α} {front : List α} (free : x ∉ front) (rest : List α) :
    (front ++ x :: rest).idxOf x = front.length := by
  rw [List.idxOf_append, if_neg free, List.idxOf_cons_self, Nat.zero_add]

theorem findSplit {x : α} {xs : List α} (found : xs.idxOf x ≠ xs.length) :
    ∃ front rest, xs = front ++ x :: rest ∧ x ∉ front := by
  have member : x ∈ xs := by
    by_contra absent
    exact found (List.idxOf_eq_length absent)
  obtain ⟨front, rest, eq, free⟩ := List.eq_append_cons_of_mem member
  exact ⟨front, rest, eq, free⟩

end TinyNetwork.FirstMatch
