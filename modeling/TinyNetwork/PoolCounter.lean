import Mathlib.Data.List.Basic
import TinyNetwork.PoolLeases

/-! What currentSize_ counts. addConnection() counts the connection it makes, and so
do the constructor and the producer after each call of it; the recycler takes one off.
The counter is therefore ahead by the number of connections ever made, for good, and
right only as long as there was none. -/
namespace TinyNetwork.PoolCounter
open Runs ConnectionPool PoolLeases

structure Counted (maxSize : Int) (s : State) : Prop where
  exactly : s.pool.currentSize = s.pool.existing.length
  grows : ∀ conn now, conn ∉ s.pool.existing → s.pool.connectionQueue = [] →
    (s.pool.existing.length : Int) < maxSize → ∃ pool, s.pool.produceConnection conn now = some pool ∧
      pool.existing.length = s.pool.existing.length + 1

def Produces : Action → Bool
  | .produce _ _ => true
  | _ => false

section
variable {minSize maxSize : Int} {s t : State}

theorem countedIff (inv : Inv minSize maxSize s) : Counted maxSize s ↔ s.created = 0 := by
  have counter := inv.counter
  have length : s.pool.existing.length = s.pool.objects.length := List.length_map _
  constructor
  · intro counted
    have exactly := counted.exactly
    omega
  · intro none
    refine ⟨by omega, fun conn now unused empty below => ?_⟩
    obtain ⟨pool, ok, _, _, grows⟩ := produceSpec inv unused now
    refine ⟨pool, ok, ?_⟩
    rw [length, existing, List.length_map]
    exact grows empty (by omega)

theorem emptyPool (inv : Inv minSize maxSize s) (none : s.created = 0) :
    s.pool.connectionQueue = [] ∧ s.pool.currentSize = 0 := by
  have born := inv.born
  have counter := inv.counter
  have length := inv.places.length_eq
  rw [existing, List.length_map, List.length_append] at length
  exact ⟨List.eq_nil_of_length_eq_zero (by omega), by omega⟩

theorem producedNone (positive : 0 ≤ maxSize) (inv : Inv minSize maxSize s) {conn : Nat} {now : Int}
    (unused : conn ∉ s.pool.existing) (ok : step s (.produce conn now) = some t) :
    t.created = 0 ↔ s.created = 0 ∧ maxSize = 0 := by
  obtain ⟨pool, made, books, changes, grows⟩ := produceSpec inv unused now
  simp only [step, made, bind, Option.bind] at ok
  rw [← Option.some.inj ok]
  simp only
  constructor
  · intro none
    refine ⟨by omega, ?_⟩
    by_contra nonzero
    obtain ⟨empty, zero⟩ := emptyPool inv (by omega)
    have grown := grows empty (by omega)
    omega
  · rintro ⟨none, zero⟩
    rcases changes with same | grown
    · rw [same]
      omega
    · have limit := books.limit
      omega

theorem stepNone (positive : 0 ≤ maxSize) (inv : Inv minSize maxSize s) {a : Action} (allowed : Allowed s a)
    (ok : step s a = some t) :
    t.created = 0 ↔ s.created = 0 ∧ (maxSize = 0 ∨ Produces a = false) := by
  cases a with
  | getConnection client =>
    simp only [step] at ok
    split at ok <;> rw [← Option.some.inj ok] <;> simp [Produces]
  | release client conn now =>
    simp only [step, if_pos (show (client, conn) ∈ s.leases from allowed), bind,
      Option.bind_eq_some_iff] at ok
    obtain ⟨pool, _, last⟩ := ok
    rw [← Option.some.inj last]
    simp [Produces]
  | produce conn now =>
    rw [producedNone positive inv allowed ok]
    simp [Produces]
  | recycle readings =>
    simp only [step, bind, Option.bind_eq_some_iff] at ok
    obtain ⟨pool, _, last⟩ := ok
    rw [← Option.some.inj last]
    simp [Produces]

theorem runNone (positive : 0 ≤ maxSize) {actions : List Action} (inv : Inv minSize maxSize s)
    (allowed : Along step Allowed s actions) (ok : run step s actions = some t) :
    t.created = 0 ↔ s.created = 0 ∧ (maxSize = 0 ∨ ∀ a ∈ actions, Produces a = false) := by
  induction actions generalizing s with
  | nil =>
    cases Option.some.inj ok
    simp
  | cons a rest ih =>
    obtain ⟨next, stepped, ran⟩ := runCons.mp ok
    obtain ⟨next', again, inv'⟩ := stepInv inv allowed.1
    cases Option.some.inj (stepped.symm.trans again)
    rw [ih inv' (allowed.2 next stepped) ran, stepNone positive inv allowed.1 stepped,
      List.forall_mem_cons, and_assoc, ← or_and_left]

end

theorem counterExactly {minSize maxSize : Int} (positive : 0 ≤ minSize) (order : minSize ≤ maxSize)
    (maxIdleTime : Int) {made : List (Nat × Int)} (new : Made minSize made) :
    ∃ p, construct minSize maxSize maxIdleTime made = some p ∧
      ∀ actions, Along step Allowed ⟨p, [], made.length⟩ actions →
        ∃ s, run step ⟨p, [], made.length⟩ actions = some s ∧
          (Counted maxSize s ↔
            minSize = 0 ∧ (maxSize = 0 ∨ ∀ a ∈ actions, Produces a = false)) := by
  obtain ⟨p, ok, inv⟩ := constructSpec positive order maxIdleTime new
  refine ⟨p, ok, fun actions allowed => ?_⟩
  obtain ⟨s, ran, inv'⟩ := runProgress stepInv inv allowed
  refine ⟨s, ran, ?_⟩
  have number : made.length = 0 ↔ minSize = 0 := by
    rw [new.number]
    omega
  rw [countedIff inv', runNone (Int.le_trans positive order) inv allowed ran, number]

/- Two connections made by the constructor count as four, so a pool for at most four
never makes a third. -/
theorem counterAhead :
    construct 2 4 5 [(16, 0), (32, 0)] =
        some ⟨2, 4, 4, 5, [16, 32], [(16, ⟨0⟩), (32, ⟨0⟩)]⟩ ∧
      run step ⟨⟨2, 4, 4, 5, [16, 32], [(16, ⟨0⟩), (32, ⟨0⟩)]⟩, [], 2⟩
          [.getConnection 0, .getConnection 1, .produce 48 0] =
        some ⟨⟨2, 4, 4, 5, [], [(16, ⟨0⟩), (32, ⟨0⟩)]⟩, [(1, 32), (0, 16)], 2⟩ ∧
      ¬ Counted 4 ⟨⟨2, 4, 4, 5, [], [(16, ⟨0⟩), (32, ⟨0⟩)]⟩, [(1, 32), (0, 16)], 2⟩ := by
  refine ⟨by decide, by decide, fun counted => ?_⟩
  exact absurd counted.exactly (by decide)

theorem counterExactlySample :
    (∃ p, construct 0 4 5 [] = some p ∧ ∃ s, run step ⟨p, [], 0⟩ [.recycle fun _ => 0] = some s ∧
      Counted 4 s) ∧
    ∃ p, construct 2 4 5 [(16, 0), (32, 0)] = some p ∧ ∃ s, run step ⟨p, [], 2⟩ [.getConnection 0] = some s ∧
      ¬ Counted 4 s := by
  constructor
  · obtain ⟨p, ok, each⟩ := counterExactly (show (0 : Int) ≤ 0 by decide) (show (0 : Int) ≤ 4 by decide) 5
      (show Made 0 [] from ⟨rfl, by decide⟩)
    obtain ⟨s, ran, iff⟩ := each [.recycle fun _ => 0] ⟨trivial, fun _ _ => trivial⟩
    exact ⟨p, ok, s, ran, iff.mpr ⟨rfl, .inr (by decide)⟩⟩
  · obtain ⟨p, ok, each⟩ := counterExactly (show (0 : Int) ≤ 2 by decide) (show (2 : Int) ≤ 4 by decide) 5
      (show Made 2 [(16, 0), (32, 0)] from ⟨rfl, by decide⟩)
    obtain ⟨s, ran, iff⟩ := each [.getConnection 0] ⟨trivial, fun _ _ => trivial⟩
    exact ⟨p, ok, s, ran, fun counted => absurd (iff.mp counted).1 (by decide)⟩

end TinyNetwork.PoolCounter
