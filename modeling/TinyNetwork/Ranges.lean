import Mathlib.Algebra.GroupWithZero.Nat
import Mathlib.Data.List.Perm.Subperm
import Mathlib.Data.List.Pairwise
import Mathlib.Tactic.Common

/-! Ranges of addresses. Two ranges are apart when no address is in both; a list of
ranges that are apart in pairs stays so under any reordering, and distinct points
inside such ranges are no more than the addresses in them. -/
namespace TinyNetwork

structure Range where
  base : Nat
  size : Nat
  deriving DecidableEq, Repr

namespace Ranges

def Apart (a b : Range) : Prop := a.base + a.size ≤ b.base ∨ b.base + b.size ≤ a.base
instance (a b : Range) : Decidable (Apart a b) := by unfold Apart; infer_instance

def Within (a b : Range) : Prop := b.base ≤ a.base ∧ a.base + a.size ≤ b.base + b.size
instance (a b : Range) : Decidable (Within a b) := by unfold Within; infer_instance

def bytes (ranges : List Range) : Nat := (ranges.map Range.size).sum

theorem apartSymm {a b : Range} (apart : Apart a b) : Apart b a := apart.symm

theorem apartWithin {a b c d : Range} (apart : Apart b d) (left : Within a b) (right : Within c d) :
    Apart a c := by
  unfold Apart Within at *
  omega

theorem pairwisePerm {xs ys : List Range} (perm : xs.Perm ys) (apart : xs.Pairwise Apart) :
    ys.Pairwise Apart :=
  (perm.pairwise_iff apartSymm).mp apart

theorem apartNotMem {a : Range} (nonempty : 0 < a.size) {xs : List Range}
    (apart : ∀ b ∈ xs, Apart a b) : a ∉ xs := by
  intro member
  have self := apart a member
  unfold Apart at self
  omega

theorem pointsBounded {points : List Nat} (distinct : points.Nodup) {ranges : List Range}
    (inside : ∀ p ∈ points, ∃ r ∈ ranges, r.base ≤ p ∧ p < r.base + r.size) :
    points.length ≤ bytes ranges := by
  have cover : points ⊆ ranges.flatMap (fun r => List.range' r.base r.size) := by
    intro p member
    obtain ⟨r, mem, low, high⟩ := inside p member
    exact List.mem_flatMap.mpr ⟨r, mem, List.mem_range'_1.mpr ⟨low, high⟩⟩
  have length := (distinct.subperm cover).length_le
  simpa [List.length_flatMap, bytes] using length

end Ranges
end TinyNetwork
