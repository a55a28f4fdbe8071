import Mathlib.Algebra.Group.Nat.Defs
import Mathlib.Tactic.Common

/-! Decimal numerals as bytes: the digits of a number from the highest, a sign for a
negative one, and padding to a width. -/
namespace TinyNetwork.Decimals

def byteOf (c : Char) : UInt8 := UInt8.ofNat c.toNat

def natural (n : Nat) : List UInt8 := (Nat.toDigits 10 n).map byteOf

def integer (v : Int) : List UInt8 := if v < 0 then 45 :: natural v.natAbs else natural v.natAbs

def padLeft (fill : UInt8) (width : Nat) (text : List UInt8) : List UInt8 :=
  List.replicate (width - text.length) fill ++ text

/- The zeros of a padded negative number stand behind its sign. -/
def zeroPadded (width : Nat) (v : Int) : List UInt8 :=
  if v < 0 then 45 :: padLeft 48 (width - 1) (natural v.natAbs) else padLeft 48 width (natural v.natAbs)

theorem tdivLess {num : Int} (more : ¬ num.tdiv 10 = 0) : (num.tdiv 10).natAbs < num.natAbs := by
  rw [Int.natAbs_tdiv]
  have nonzero : num.natAbs ≠ 0 := by
    rintro zero
    simp [Int.natAbs_eq_zero.mp zero] at more
  exact Nat.div_lt_self (by omega) (by decide)

theorem naturalSmall {n : Nat} (small : n < 10) : natural n = [byteOf n.digitChar] := by
  rw [natural, Nat.toDigits_of_lt_base small, List.map_singleton]

theorem naturalStep {n : Nat} (big : 10 ≤ n) : natural n = natural (n / 10) ++ [byteOf (n % 10).digitChar] := by
  rw [natural, Nat.toDigits_of_base_le (by decide) big, List.map_append, List.map_singleton, natural]

theorem naturalLength {n k : Nat} (positive : 0 < k) (below : n < 10 ^ k) : (natural n).length ≤ k := by
  rw [natural, List.length_map]
  exact (Nat.length_toDigits_le_iff (by decide) positive).mpr below

theorem naturalWide {n k : Nat} (positive : 0 < k) (above : 10 ^ k ≤ n) : k < (natural n).length := by
  rw [natural, List.length_map]
  by_contra short
  have below := (Nat.length_toDigits_le_iff (n := n) (b := 10) (by decide) positive).mp (Nat.not_lt.mp short)
  exact absurd below (Nat.not_lt.mpr above)

theorem padLeftWide {fill : UInt8} {width : Nat} {text : List UInt8} (wide : width ≤ text.length) :
    padLeft fill width text = text := by
  rw [padLeft, Nat.sub_eq_zero_of_le wide]
  rfl

theorem integerLength {v : Int} {k : Nat} (positive : 0 < k) (below : v.natAbs < 10 ^ k) :
    (integer v).length ≤ k + 1 := by
  have length := naturalLength positive below
  unfold integer
  split
  · simpa using length
  · exact Nat.le_succ_of_le length

theorem digitByte {c : Char} (digit : c.isDigit = true) : (byteOf c).toNat = c.toNat := by
  have high : c.toNat ≤ 57 := by
    simp only [Char.isDigit, Bool.and_eq_true, decide_eq_true_eq] at digit
    exact digit.2
  simp only [byteOf, UInt8.toNat_ofNat']
  omega

theorem naturalChars (n : Nat) : (natural n).map (fun b => Char.ofNat b.toNat) = Nat.toDigits 10 n := by
  rw [natural, List.map_map]
  conv_rhs => rw [← List.map_id (Nat.toDigits 10 n)]
  refine List.map_congr_left fun c member => ?_
  have digit := Nat.isDigit_of_mem_toDigits (by decide) (by decide) member
  simp only [Function.comp, digitByte digit, Char.ofNat_toNat, id]

theorem naturalInjective : Function.Injective natural := by
  intro m n same
  have chars : Nat.toDigits 10 m = Nat.toDigits 10 n := by
    rw [← naturalChars, same, naturalChars]
  calc
    m = Nat.ofDigitChars 10 (Nat.toDigits 10 m) 0 := Nat.ofDigitChars_ten_toDigits.symm
    _ = n := by rw [chars, Nat.ofDigitChars_ten_toDigits]

def readNatural (text : List UInt8) : Nat := text.foldl (fun n c => 10 * n + (c.toNat - 48)) 0

def readInteger : List UInt8 → Int
  | 45 :: rest => -(readNatural rest : Int)
  | text => readNatural text

theorem digitBounds {d : Nat} (small : d < 10) :
    (byteOf d.digitChar).toNat = 48 + d ∧ 48 ≤ byteOf d.digitChar ∧ byteOf d.digitChar ≤ 57 := by
  have all : ∀ d : Fin 10, (byteOf (d : Nat).digitChar).toNat = 48 + d ∧ 48 ≤ byteOf (d : Nat).digitChar ∧
      byteOf (d : Nat).digitChar ≤ 57 := by decide
  exact all ⟨d, small⟩

theorem readNaturalSpec (n : Nat) : readNatural (natural n) = n := by
  induction n using Nat.strongRecOn with
  | ind n ih =>
    rcases Nat.lt_or_ge n 10 with small | big
    · rw [naturalSmall small, readNatural, List.foldl_cons, List.foldl_nil, (digitBounds small).1]
      omega
    · have before := ih (n / 10) (by omega)
      rw [readNatural] at before
      rw [naturalStep big, readNatural, List.foldl_append, before, List.foldl_cons, List.foldl_nil,
        (digitBounds (Nat.mod_lt n (by decide))).1]
      omega

theorem naturalDigits (n : Nat) : ∀ c ∈ natural n, 48 ≤ c ∧ c ≤ 57 := by
  induction n using Nat.strongRecOn with
  | ind n ih =>
    rcases Nat.lt_or_ge n 10 with small | big
    · rw [naturalSmall small, List.forall_mem_singleton]
      exact (digitBounds small).2
    · rw [naturalStep big, List.forall_mem_append, List.forall_mem_singleton]
      exact ⟨ih (n / 10) (by omega), (digitBounds (Nat.mod_lt n (by decide))).2⟩

theorem naturalHead (n : Nat) : ∃ c rest, natural n = c :: rest ∧ (c = 48 → n = 0 ∧ rest = []) := by
  induction n using Nat.strongRecOn with
  | ind n ih =>
    rcases Nat.lt_or_ge n 10 with small | big
    · refine ⟨_, [], naturalSmall small, fun zero => ⟨?_, rfl⟩⟩
      have value := (digitBounds small).1
      rw [zero] at value
      have fixed : (48 : UInt8).toNat = 48 := rfl
      omega
    · obtain ⟨c, rest, before, front⟩ := ih (n / 10) (by omega)
      refine ⟨c, rest ++ [byteOf (n % 10).digitChar], by rw [naturalStep big, before]; rfl, fun zero => ?_⟩
      have none := (front zero).1
      omega

def Canonical (num : Int) (text : List UInt8) : Prop :=
  ∃ c rest, text = (if num < 0 then [45] else []) ++ c :: rest ∧ (∀ d ∈ c :: rest, 48 ≤ d ∧ d ≤ 57) ∧
    (c = 48 → num = 0 ∧ rest = [])

theorem integerCanonical (num : Int) : Canonical num (integer num) := by
  obtain ⟨c, rest, text, front⟩ := naturalHead num.natAbs
  refine ⟨c, rest, ?_, text ▸ naturalDigits num.natAbs, fun zero => ?_⟩
  · rw [integer, text]
    split <;> rfl
  · exact ⟨Int.natAbs_eq_zero.mp (front zero).1, (front zero).2⟩

theorem readIntegerSpec (num : Int) : readInteger (integer num) = num := by
  have value := readNaturalSpec num.natAbs
  unfold integer
  split
  · rw [readInteger, value]
    omega
  · obtain ⟨c, rest, text, _⟩ := naturalHead num.natAbs
    have digit := naturalDigits num.natAbs c (text ▸ List.mem_cons_self)
    rw [text] at value ⊢
    unfold readInteger
    split
    · rename_i sign
      obtain ⟨rfl, _⟩ := List.cons.inj sign
      exact absurd digit.1 (by decide)
    · rw [value]
      omega

end TinyNetwork.Decimals
