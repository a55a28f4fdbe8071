import Mathlib.Tactic.Common
import Mathlib.Data.List.Basic

/-! Ordered sets in the manner of std::set: the elements in the order of a
comparator, equivalent elements kept once, and the prefix below a bound cut off in
one piece. The order is a field of the set, so that no unordered set can be built. -/
namespace TinyNetwork.OrderedSets

structure Comparator (α : Type) where
  less : α → α → Bool
  irreflexive : ∀ a, less a a = false
  transitive : ∀ {a b c}, less a b → less b c → less a c
  connected : ∀ {a b}, less a b = false → less b a = false → a = b

variable {α : Type} {c : Comparator α}

def insertInto (c : Comparator α) (x : α) : List α → List α
  | [] => [x]
  | y :: rest =>
      if c.less x y then x :: y :: rest
      else if c.less y x then y :: insertInto c x rest
      else y :: rest

theorem memInsertInto {x y : α} {l : List α} : y ∈ insertInto c x l ↔ y = x ∨ y ∈ l := by
  induction l with
  | nil => simp [insertInto]
  | cons z rest ih =>
    simp only [insertInto]
    split
    · simp
    · split
      · simp only [List.mem_cons, ih]
        exact or_left_comm
      · rename_i above below
        have same : x = z := c.connected (by simpa using above) (by simpa using below)
        simp [same]

theorem insertIntoSorted {x : α} {l : List α} (sorted : l.Pairwise (c.less · ·)) :
    (insertInto c x l).Pairwise (c.less · ·) := by
  induction l with
  | nil => simp [insertInto]
  | cons z rest ih =>
    obtain ⟨first, tail⟩ := List.pairwise_cons.mp sorted
    simp only [insertInto]
    split
    · rename_i below
      refine List.pairwise_cons.mpr ⟨fun y member => ?_, sorted⟩
      rcases List.mem_cons.mp member with rfl | inside
      · exact below
      · exact c.transitive below (first y inside)
    · split
      · rename_i above
        refine List.pairwise_cons.mpr ⟨fun y member => ?_, ih tail⟩
        rcases memInsertInto.mp member with rfl | inside
        · exact above
        · exact first y inside
      · exact sorted

theorem insertIntoPerm {x : α} {l : List α} (absent : x ∉ l) : (insertInto c x l).Perm (x :: l) := by
  induction l with
  | nil => exact .refl _
  | cons z rest ih =>
    obtain ⟨other, outside⟩ := not_or.mp (List.mem_cons.not.mp absent)
    simp only [insertInto]
    split
    · exact .refl _
    · split
      · exact ((ih outside).cons z).trans (.swap x z rest)
      · rename_i above below
        exact absurd (c.connected (by simpa using above) (by simpa using below)) other

structure OrderedSet (c : Comparator α) where
  items : List α
  sorted : items.Pairwise (c.less · ·)

namespace OrderedSet

def empty : OrderedSet c := ⟨[], List.Pairwise.nil⟩

def insert (s : OrderedSet c) (x : α) : OrderedSet c := ⟨insertInto c x s.items, insertIntoSorted s.sorted⟩

/- [begin, lower_bound(x)) and what is left when that range is erased. -/
def before (s : OrderedSet c) (x : α) : List α := s.items.takeWhile (c.less · x)

def eraseBefore (s : OrderedSet c) (x : α) : OrderedSet c :=
  ⟨s.items.dropWhile (c.less · x), s.sorted.sublist (List.dropWhile_sublist _)⟩

@[simp] theorem memInsert {s : OrderedSet c} {x y : α} : y ∈ (s.insert x).items ↔ y = x ∨ y ∈ s.items :=
  memInsertInto

theorem insertPerm {s : OrderedSet c} {x : α} (absent : x ∉ s.items) :
    (s.insert x).items.Perm (x :: s.items) :=
  insertIntoPerm absent

theorem beforeEraseBefore (s : OrderedSet c) (x : α) : s.before x ++ (s.eraseBefore x).items = s.items :=
  List.takeWhile_append_dropWhile

theorem beforeFilter (s : OrderedSet c) (x : α) : s.before x = s.items.filter (c.less · x) := by
  obtain ⟨items, sorted⟩ := s
  induction items with
  | nil => rfl
  | cons y rest ih =>
    obtain ⟨first, tail⟩ := List.pairwise_cons.mp sorted
    have same : rest.takeWhile (c.less · x) = rest.filter (c.less · x) := ih tail
    simp only [before, List.takeWhile_cons, List.filter_cons]
    split
    · rw [same]
    · rename_i above
      symm
      refine List.filter_eq_nil_iff.mpr fun z inside below => ?_
      exact above (c.transitive (first z inside) below)

theorem beginLeast {s : OrderedSet c} {x y : α} (first : s.items.head? = some x) (member : y ∈ s.items) :
    y = x ∨ c.less x y := by
  obtain ⟨items, sorted⟩ := s
  cases items with
  | nil => simp at first
  | cons z rest =>
    cases Option.some.inj first
    rcases List.mem_cons.mp member with same | inside
    · exact .inl same
    · exact .inr ((List.pairwise_cons.mp sorted).1 y inside)

theorem beginInsert (s : OrderedSet c) (x : α) :
    (s.insert x).items.head? =
      match s.items.head? with
      | none => some x
      | some y => if c.less x y then some x else some y := by
  obtain ⟨items, sorted⟩ := s
  cases items with
  | nil => rfl
  | cons z rest =>
    simp only [insert, insertInto]
    split
    · simp_all
    · split <;> simp_all

end OrderedSet
end TinyNetwork.OrderedSets
