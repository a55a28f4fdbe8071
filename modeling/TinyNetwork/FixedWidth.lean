import TinyNetwork.Decimals

/-! Numerals of a fixed width. Texts whose fronts have one length compare by the fronts
and then by the rest, so that a record of such numerals compares with another as the
tuples of their numbers do. -/
namespace TinyNetwork.FixedWidth
open Decimals

section
variable {α : Type} [LT α]

theorem appendLt {xs ys zs ws : List α} (same : xs.length = ys.length) :
    xs ++ zs < ys ++ ws ↔ xs < ys ∨ xs = ys ∧ zs < ws := by
  induction xs generalizing ys with
  | nil =>
    rw [List.eq_nil_of_length_eq_zero same.symm]
    simp
  | cons x xs ih =>
    cases ys with
    | nil => simp at same
    | cons y ys =>
      rw [List.cons_append, List.cons_append, List.cons_lt_cons_iff, List.cons_lt_cons_iff,
        ih (Nat.succ.inj same), List.cons.injEq]
      constructor
      · rintro (less | ⟨head, less | ⟨tail, rest⟩⟩)
        · exact .inl (.inl less)
        · exact .inl (.inr ⟨head, less⟩)
        · exact .inr ⟨⟨head, tail⟩, rest⟩
      · rintro ((less | ⟨head, less⟩) | ⟨⟨head, tail⟩, rest⟩)
        · exact .inl less
        · exact .inr ⟨head, .inl less⟩
        · exact .inr ⟨head, .inr ⟨tail, rest⟩⟩

theorem appendEq {β : Type} {xs ys zs ws : List β} (same : xs.length = ys.length) :
    xs ++ zs = ys ++ ws ↔ xs = ys ∧ zs = ws := by
  constructor
  · exact fun equal => List.append_inj equal same
  · rintro ⟨rfl, rfl⟩
    rfl

end

def fixed : Nat → Nat → List UInt8
  | 0, _ => []
  | w + 1, n => fixed w (n / 10) ++ [byteOf (n % 10).digitChar]

@[simp] theorem fixedLength (w n : Nat) : (fixed w n).length = w := by
  induction w generalizing n with
  | zero => rfl
  | succ w ih => rw [fixed, List.length_append, ih, List.length_singleton]

theorem digitLt {m n : Nat} (left : m < 10) (right : n < 10) :
    byteOf m.digitChar < byteOf n.digitChar ↔ m < n := by
  rw [UInt8.lt_iff_toNat_lt, (digitBounds left).1, (digitBounds right).1]
  omega

theorem digitInj {m n : Nat} (left : m < 10) (right : n < 10) :
    byteOf m.digitChar = byteOf n.digitChar ↔ m = n := by
  rw [← UInt8.toNat_inj, (digitBounds left).1, (digitBounds right).1]
  omega

theorem fixedInj {w m n : Nat} (left : m < 10 ^ w) (right : n < 10 ^ w) : fixed w m = fixed w n ↔ m = n := by
  induction w generalizing m n with
  | zero =>
    rw [Nat.pow_zero, Nat.lt_one_iff] at left right
    simp [left, right]
  | succ w ih =>
    rw [Nat.pow_succ] at left right
    rw [fixed, fixed, appendEq (by simp), ih (by omega) (by omega), List.cons.injEq,
      digitInj (Nat.mod_lt _ (by decide)) (Nat.mod_lt _ (by decide))]
    simp only [and_true]
    omega

theorem fixedLt {w m n : Nat} (left : m < 10 ^ w) (right : n < 10 ^ w) : fixed w m < fixed w n ↔ m < n := by
  induction w generalizing m n with
  | zero =>
    rw [Nat.pow_zero, Nat.lt_one_iff] at left right
    simp [left, right]
  | succ w ih =>
    rw [Nat.pow_succ] at left right
    rw [fixed, fixed, appendLt (by simp), ih (by omega) (by omega), fixedInj (by omega) (by omega),
      List.cons_lt_cons_iff, digitLt (Nat.mod_lt _ (by decide)) (Nat.mod_lt _ (by decide))]
    simp only [List.lt_irrefl, and_false, or_false]
    omega

theorem fixedConsLt {w m n : Nat} {sep : UInt8} {xs ys : List UInt8} (left : m < 10 ^ w) (right : n < 10 ^ w) :
    fixed w m ++ sep :: xs < fixed w n ++ sep :: ys ↔ m < n ∨ m = n ∧ xs < ys := by
  rw [appendLt (by simp), fixedLt left right, fixedInj left right, List.cons_lt_cons_iff]
  simp only [UInt8.lt_irrefl, true_and, false_or]

theorem fixedConsEq {w m n : Nat} {sep : UInt8} {xs ys : List UInt8} (left : m < 10 ^ w) (right : n < 10 ^ w) :
    fixed w m ++ sep :: xs = fixed w n ++ sep :: ys ↔ m = n ∧ xs = ys := by
  rw [appendEq (by simp), fixedInj left right, List.cons.injEq]
  simp only [true_and]

theorem fixedDigits (w n : Nat) : ∀ c ∈ fixed w n, 48 ≤ c ∧ c ≤ 57 := by
  induction w generalizing n with
  | zero => simp [fixed]
  | succ w ih =>
    rw [fixed, List.forall_mem_append, List.forall_mem_singleton]
    exact ⟨ih _, (digitBounds (Nat.mod_lt n (by decide))).2⟩

theorem padLeftFixed {w n : Nat} (positive : 0 < w) (below : n < 10 ^ w) : padLeft 48 w (natural n) = fixed w n := by
  induction w generalizing n with
  | zero => contradiction
  | succ w ih =>
    rw [fixed]
    rcases Nat.eq_zero_or_pos w with rfl | more
    · have small : n < 10 := by simpa using below
      rw [naturalSmall small, Nat.mod_eq_of_lt small]
      rfl
    · rw [Nat.pow_succ] at below
      rw [← ih more (by omega)]
      rcases Nat.lt_or_ge n 10 with small | big
      · have zero : n / 10 = 0 := by omega
        have digit : byteOf (0 : Nat).digitChar = 48 := by decide
        obtain ⟨k, rfl⟩ := Nat.exists_eq_succ_of_ne_zero (Nat.ne_of_gt more)
        rw [zero, Nat.mod_eq_of_lt small, naturalSmall small, naturalSmall (by decide : 0 < 10), digit]
        simp [padLeft, List.replicate_succ']
      · have step := naturalStep big
        rw [step, padLeft, padLeft, List.length_append, List.length_singleton, List.append_assoc]
        congr 2
        omega

end TinyNetwork.FixedWidth
