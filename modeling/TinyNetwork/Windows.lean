import Mathlib.Tactic.Common

/-! Windows of a flat store and writes into it, over arbitrary cells. A store is
a list of cells addressed by position; `window` reads the cells between two
positions, `splice` overwrites as many cells as it is given, and `copyForward`
is the cell-by-cell forward copy of a store into itself. -/
namespace TinyNetwork.Windows

variable {α : Type}

def window (xs : List α) (lo hi : Nat) : List α := (xs.take hi).drop lo

def splice (xs : List α) (pos : Nat) (ys : List α) : List α :=
  xs.take pos ++ ys ++ xs.drop (pos + ys.length)

theorem windowLength {xs : List α} {lo hi : Nat} (inside : hi ≤ xs.length) :
    (window xs lo hi).length = hi - lo := by
  simp [window, inside]

theorem windowDrop (xs : List α) (lo hi n : Nat) :
    (window xs lo hi).drop n = window xs (lo + n) hi := by
  simp [window, List.drop_drop]

theorem windowTake {xs : List α} {lo hi n : Nat} (inside : lo + n ≤ hi) :
    (window xs lo hi).take n = window xs lo (lo + n) := by
  simp only [window, List.take_drop, List.take_take, Nat.min_eq_left inside]

@[simp] theorem windowEmpty (xs : List α) (lo : Nat) : window xs lo lo = [] := by
  simp [window]

theorem windowGrown {xs : List α} {lo hi : Nat} (ys : List α) (inside : hi ≤ xs.length) :
    window (xs ++ ys) lo hi = window xs lo hi := by
  simp [window, List.take_append_of_le_length inside]

theorem spliceLength {xs ys : List α} {pos : Nat} (fits : pos + ys.length ≤ xs.length) :
    (splice xs pos ys).length = xs.length := by
  simp only [splice, List.length_append, List.length_take, List.length_drop]
  omega

theorem takeSplice {xs ys : List α} {pos : Nat} (fits : pos + ys.length ≤ xs.length) :
    (splice xs pos ys).take (pos + ys.length) = xs.take pos ++ ys := by
  apply List.take_left'
  simp only [List.length_append, List.length_take]
  omega

theorem dropSplice {xs ys : List α} {pos n : Nat} (fits : pos + ys.length ≤ xs.length)
    (behind : pos + ys.length ≤ n) : (splice xs pos ys).drop n = xs.drop n := by
  have front : (xs.take pos ++ ys).length = pos + ys.length := by
    simp only [List.length_append, List.length_take]
    omega
  rw [splice, List.drop_append, List.drop_eq_nil_of_le (by omega), front, List.drop_drop, List.nil_append]
  congr 1
  omega

theorem spliceAppend {xs ys zs : List α} {pos : Nat} (fits : pos + ys.length ≤ xs.length) :
    splice (splice xs pos ys) (pos + ys.length) zs = splice xs pos (ys ++ zs) := by
  rw [splice, takeSplice fits, dropSplice fits (Nat.le_add_right _ _), splice, List.length_append,
    ← List.append_assoc, Nat.add_assoc]

theorem spliceOver {xs ys zs ws : List α} {pos : Nat} (fits : pos + (ys ++ zs).length ≤ xs.length)
    (same : ws.length = ys.length) :
    splice (splice xs pos (ys ++ zs)) pos ws = splice xs pos (ws ++ zs) := by
  rw [List.length_append] at fits
  have front : (splice xs pos (ys ++ zs)).take pos = xs.take pos := by
    rw [splice, List.append_assoc]
    exact List.take_left' (by simp only [List.length_take]; omega)
  have back : (splice xs pos (ys ++ zs)).drop (pos + ws.length) =
      zs ++ xs.drop (pos + (ys.length + zs.length)) := by
    rw [splice, ← List.append_assoc, List.append_assoc _ zs, List.length_append]
    exact List.drop_left' (by simp only [List.length_append, List.length_take]; omega)
  rw [splice, front, back, splice, List.length_append, same]
  simp only [List.append_assoc]

theorem windowSplice {xs ys : List α} {lo pos : Nat} (before : lo ≤ pos)
    (fits : pos + ys.length ≤ xs.length) :
    window (splice xs pos ys) lo (pos + ys.length) = window xs lo pos ++ ys := by
  rw [window, takeSplice fits, List.drop_append_of_le_length, window]
  simp only [List.length_take]
  omega

def copyForward : Nat → Nat → Nat → List α → List α
  | 0, _, _, xs => xs
  | n + 1, src, dst, xs =>
      match xs[src]? with
      | some x => copyForward n (src + 1) (dst + 1) (xs.set dst x)
      | none => xs

theorem spliceCons {xs : List α} {pos : Nat} (x : α) (ys : List α) (inside : pos < xs.length) :
    splice xs pos (x :: ys) = splice (xs.set pos x) (pos + 1) ys := by
  have front : (xs.set pos x).take (pos + 1) = xs.take pos ++ [x] := by
    rw [List.take_succ_eq_append_getElem (by simpa using inside), List.getElem_set_self,
      List.take_set, List.set_eq_of_length_le]
    simp only [List.length_take]
    omega
  have back : (xs.set pos x).drop (pos + 1 + ys.length) = xs.drop (pos + 1 + ys.length) :=
    List.drop_set_of_lt (by omega)
  simp only [splice, front, back, List.length_cons, List.append_assoc, List.singleton_append]
  congr 3
  omega

/- The overlapping copy: as long as the destination does not start after the
source, each cell is read before anything is written over it. -/
theorem copyForwardSplice {n src dst : Nat} {xs : List α} (order : dst ≤ src)
    (inside : src + n ≤ xs.length) :
    copyForward n src dst xs = splice xs dst (window xs src (src + n)) := by
  induction n generalizing src dst xs with
  | zero => simp [copyForward, splice]
  | succ n ih =>
    have here : src < xs.length := by omega
    have tail : window (xs.set dst xs[src]) (src + 1) (src + 1 + n) =
        window xs (src + 1) (src + 1 + n) := by
      simp only [window, List.take_set]
      exact List.drop_set_of_lt (by omega)
    have head : window xs src (src + (n + 1)) = xs[src] :: window xs (src + 1) (src + 1 + n) := by
      have long : src < (xs.take (src + (n + 1))).length := by simp only [List.length_take]; omega
      rw [window, List.drop_eq_getElem_cons long, List.getElem_take, window]
      congr 3
      omega
    simp only [copyForward, List.getElem?_eq_getElem here]
    rw [ih (by omega) (by simpa using by omega), tail, head, spliceCons _ _ (by omega)]

end TinyNetwork.Windows
