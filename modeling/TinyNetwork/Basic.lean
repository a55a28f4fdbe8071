import Mathlib.Algebra.Group.Int.Defs
import Mathlib.Algebra.Group.Nat.Defs
import Mathlib.Tactic.Common

/-! Machine words of an LP64 target and points in time. Unsigned arithmetic is taken
modulo the width, as the language defines it. `narrow` is the conversion of a size to a
32-bit int and `widen` the conversion of an int back to a size. -/
namespace TinyNetwork.Words

def sizeLimit : Nat := 2 ^ 64
def intLimit : Nat := 2 ^ 31

def sizeAdd (a b : Nat) : Nat := (a + b) % sizeLimit
def sizeSub (a b : Nat) : Nat := (a + (sizeLimit - b)) % sizeLimit

def narrow (n : Nat) : Int :=
  let low := n % 2 ^ 32
  if low < intLimit then Int.ofNat low else Int.ofNat low - 2 ^ 32

def widen (i : Int) : Nat := (i % 2 ^ 64).toNat

theorem sizeAddExact {a b : Nat} (fits : a + b < sizeLimit) : sizeAdd a b = a + b :=
  Nat.mod_eq_of_lt fits

theorem sizeSubExact {a b : Nat} (order : b ≤ a) (fits : a < sizeLimit) : sizeSub a b = a - b := by
  unfold sizeSub sizeLimit at *
  omega

theorem narrowExact {n : Nat} (small : n < intLimit) : narrow n = Int.ofNat n := by
  have low : n % 2 ^ 32 = n := by unfold intLimit at small; omega
  simp only [narrow, low, if_pos small]

theorem widenNat {n : Nat} (fits : n < sizeLimit) : widen (Int.ofNat n) = n := by
  unfold widen sizeLimit at *
  simp only [Int.ofNat_eq_natCast]
  omega

theorem widenNarrow {n : Nat} (small : n < intLimit) : widen (narrow n) = n := by
  rw [narrowExact small, widenNat]
  unfold intLimit sizeLimit at *
  omega

end TinyNetwork.Words

namespace TinyNetwork

/- Points in time are integers here; the source leaves an overflow of its int64_t
undefined. A double of seconds is what the code observes of it: whether it is positive,
and the whole microseconds in it. -/
structure Timestamp where
  microSecondsSinceEpoch : Int
  deriving DecidableEq, Repr

structure Interval where
  positive : Bool
  microSeconds : Int
  deriving DecidableEq, Repr

namespace Timestamp

def kMicroSecondsPerSecond : Int := 1000 * 1000

def invalid : Timestamp := ⟨0⟩

def less (lhs rhs : Timestamp) : Bool := lhs.microSecondsSinceEpoch < rhs.microSecondsSinceEpoch

def addTime (timestamp : Timestamp) (seconds : Interval) : Timestamp :=
  ⟨timestamp.microSecondsSinceEpoch + seconds.microSeconds⟩

@[simp] theorem lessIff {lhs rhs : Timestamp} :
    lhs.less rhs = true ↔ lhs.microSecondsSinceEpoch < rhs.microSecondsSinceEpoch := by
  simp [less]

@[simp] theorem lessFalseIff {lhs rhs : Timestamp} :
    lhs.less rhs = false ↔ rhs.microSecondsSinceEpoch ≤ lhs.microSecondsSinceEpoch := by
  simp [less]

end Timestamp
end TinyNetwork
