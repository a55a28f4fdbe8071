import Mathlib.Data.List.Basic
import TinyNetwork.PoolPlaces

/-! Who has the connections of the pool. A connection that exists is in the queue or
with one client. The counter runs ahead of the connections by one for each that was
ever made, because both addConnection and its callers count; the limit on the
connections holds all the same, since the counter is never behind. -/
namespace TinyNetwork.PoolLeases
open Runs Words ConnectionPool

/- `leases` are the shared_ptr objects that clients hold; `created` counts the
connections ever made. -/
structure State where
  pool : ConnectionPool
  leases : List (Nat × Nat)
  created : Nat
  deriving DecidableEq, Repr

inductive Action where
  | getConnection (client : Nat)
  | release (client conn : Nat) (now : Int)
  | produce (conn : Nat) (now : Int)
  | recycle (readings : Nat → Int)

def step (s : State) : Action → Option State
  | .getConnection client =>
      match s.pool.takeConnection with
      | none => some s
      | some (conn, pool) => some { s with pool, leases := (client, conn) :: s.leases }
  | .release client conn now =>
      if (client, conn) ∈ s.leases then do
        let pool ← s.pool.giveBack conn now
        some { s with pool, leases := s.leases.erase (client, conn) }
      else none
  | .produce conn now => do
      let pool ← s.pool.produceConnection conn now
      some { s with pool, created := s.created + (pool.objects.length - s.pool.objects.length) }
  | .recycle readings => do
      let pool ← s.pool.recycleConnection readings
      some { s with pool }

def Allowed (s : State) : Action → Prop
  | .getConnection _ => True
  | .release client conn _ => (client, conn) ∈ s.leases
  | .produce conn _ => conn ∉ s.pool.existing
  | .recycle _ => True

instance (s : State) : (a : Action) → Decidable (Allowed s a)
  | .getConnection _ => .isTrue trivial
  | .release client conn _ => inferInstanceAs (Decidable ((client, conn) ∈ s.leases))
  | .produce conn _ => inferInstanceAs (Decidable (conn ∉ s.pool.existing))
  | .recycle _ => .isTrue trivial

structure Books (minSize maxSize : Int) (p : ConnectionPool) (held : List Nat) (created : Nat) : Prop where
  minimum : p.minSize = minSize
  maximum : p.maxSize = maxSize
  places : p.existing.Perm (p.connectionQueue ++ held)
  nodup : p.existing.Nodup
  limit : (p.objects.length : Int) ≤ maxSize
  counter : p.currentSize = p.objects.length + created
  born : p.objects.length ≤ created

section
variable {minSize maxSize : Int} {p : ConnectionPool} {held : List Nat} {created : Nat}

theorem booksPlaced (books : Books minSize maxSize p held created) : Placed p held :=
  ⟨books.places, books.nodup⟩

theorem addedBooks (books : Books minSize maxSize p held created) {conn : Nat} {now : Int}
    (placed : Placed (added p conn now) held) (room : (p.objects.length : Int) < maxSize) :
    Books minSize maxSize (added p conn now) held (created + 1) ∧
      (added p conn now).objects.length = p.objects.length + 1 := by
  have count : (added p conn now).objects.length = p.objects.length + 1 := by simp [added, refreshed]
  have counter := books.counter
  refine ⟨⟨books.minimum, books.maximum, placed.places, placed.nodup, ?_, ?_, ?_⟩, count⟩
  · rw [count]
    omega
  · rw [count]
    simp only [added]
    omega
  · rw [count]
    exact Nat.succ_le_succ books.born

theorem produceSpec (books : Books minSize maxSize p held created) {conn : Nat}
    (unused : conn ∉ p.existing) (now : Int) :
    ∃ q, p.produceConnection conn now = some q ∧
      Books minSize maxSize q held (created + (q.objects.length - p.objects.length)) ∧
      (q = p ∨ q.objects.length = p.objects.length + 1) ∧
      (p.connectionQueue = [] → p.currentSize < maxSize → q.objects.length = p.objects.length + 1) := by
  obtain ⟨q, ok, placed, ⟨rfl, _, below⟩ | ⟨rfl, full⟩⟩ := producePlaced (booksPlaced books) unused now
  · have room : (p.objects.length : Int) < maxSize := by
      have counter := books.counter
      rw [books.maximum] at below
      omega
    obtain ⟨grown, length⟩ := addedBooks books placed room
    refine ⟨_, ok, ?_, .inr length, fun _ _ => length⟩
    rwa [length, Nat.add_sub_cancel_left]
  · refine ⟨q, ok, by simpa using books, .inl rfl, fun empty below => ?_⟩
    have most := full empty
    rw [books.maximum] at most
    omega

theorem recycleSpec (books : Books minSize maxSize p held created) (readings : Nat → Int) :
    ∃ q, p.recycleConnection readings = some q ∧ Books minSize maxSize q held created := by
  obtain ⟨gone, rest, queue, ok, _, _, placed⟩ := recyclePlaced (booksPlaced books) readings
  have before := books.places.length_eq
  have after := placed.places.length_eq
  have limit := books.limit
  have counter := books.counter
  have born := books.born
  rw [queue] at before
  simp only [existing, List.length_map, List.length_append] at before after
  refine ⟨_, ok, books.minimum, books.maximum, placed.places, placed.nodup, ?_, ?_, ?_⟩
  · simp only [removed] at after ⊢
    omega
  · simp only [removed] at after ⊢
    omega
  · simp only [removed] at after ⊢
    omega

theorem takeSpec (books : Books minSize maxSize p held created) {conn : Nat} {q : ConnectionPool}
    (took : p.takeConnection = some (conn, q)) : Books minSize maxSize q (conn :: held) created := by
  obtain ⟨_, same, placed⟩ := takePlaced (booksPlaced books) took
  rw [same]
  exact ⟨books.minimum, books.maximum, same ▸ placed.places, books.nodup, books.limit, books.counter, books.born⟩

theorem giveBackSpec {conn : Nat} (books : Books minSize maxSize p (conn :: held) created) (now : Int) :
    ∃ q, p.giveBack conn now = some q ∧ Books minSize maxSize q held created := by
  obtain ⟨ok, placed⟩ := giveBackPlaced (booksPlaced books) now
  have length : (returned p conn now).objects.length = p.objects.length := by simp [returned, refreshed]
  refine ⟨_, ok, books.minimum, books.maximum, placed.places, placed.nodup, ?_, ?_, ?_⟩
  · rw [length]
    exact books.limit
  · rw [length]
    exact books.counter
  · rw [length]
    exact books.born

end

def Inv (minSize maxSize : Int) (s : State) : Prop :=
  Books minSize maxSize s.pool (s.leases.map Prod.snd) s.created

theorem stepInv {minSize maxSize : Int} {s : State} {a : Action} (inv : Inv minSize maxSize s)
    (allowed : Allowed s a) : ∃ t, step s a = some t ∧ Inv minSize maxSize t := by
  cases a with
  | getConnection client =>
    simp only [step]
    split
    · exact ⟨s, rfl, inv⟩
    · rename_i took
      exact ⟨_, rfl, takeSpec inv took⟩
  | release client conn now =>
    have member : (client, conn) ∈ s.leases := allowed
    have held : Books minSize maxSize s.pool (conn :: (s.leases.erase (client, conn)).map Prod.snd)
        s.created :=
      { inv with places := (leasePlaced (booksPlaced inv) member).places }
    obtain ⟨pool, ok, books⟩ := giveBackSpec held now
    refine ⟨{ s with pool, leases := s.leases.erase (client, conn) }, ?_, books⟩
    simp only [step, if_pos member, ok, bind, Option.bind]
  | produce conn now =>
    obtain ⟨pool, ok, books, _⟩ := produceSpec inv allowed now
    refine ⟨{ s with pool, created := s.created + (pool.objects.length - s.pool.objects.length) }, ?_, books⟩
    simp only [step, ok, bind, Option.bind]
  | recycle readings =>
    obtain ⟨pool, ok, books⟩ := recycleSpec inv readings
    refine ⟨{ s with pool }, ?_, books⟩
    simp only [step, ok, bind, Option.bind]

structure Made (minSize : Int) (made : List (Nat × Int)) : Prop where
  number : made.length = minSize.toNat
  distinct : (made.map Prod.fst).Nodup

theorem constructFrom {minSize maxSize : Int} {made : List (Nat × Int)} {p : ConnectionPool} {created : Nat}
    (books : Books minSize maxSize p [] created) (distinct : (made.map Prod.fst).Nodup)
    (unused : ∀ m ∈ made, m.1 ∉ p.existing) (room : (p.objects.length + made.length : Int) ≤ maxSize) :
    ∃ q, run addCounted p made = some q ∧ Books minSize maxSize q [] (created + made.length) := by
  induction made generalizing p created with
  | nil => exact ⟨p, rfl, books⟩
  | cons m rest ih =>
    obtain ⟨fresh, others⟩ := List.nodup_cons.mp distinct
    simp only [List.length_cons] at room
    obtain ⟨ok, placed⟩ := addCountedPlaced (booksPlaced books) (unused m List.mem_cons_self) m.2
    obtain ⟨books', length⟩ := addedBooks books placed (by omega)
    have unused' : ∀ n ∈ rest, n.1 ∉ (added p m.1 m.2).existing := fun n member =>
      unusedAdded (unused n (List.mem_cons_of_mem _ member)) (fun same => fresh (List.mem_map.mpr ⟨n, member, same⟩)) m.2
    obtain ⟨last, ran, final⟩ := ih books' others unused' (by omega)
    refine ⟨last, runCons.mpr ⟨_, ok, ran⟩, ?_⟩
    rwa [List.length_cons, Nat.add_comm rest.length, ← Nat.add_assoc]

theorem constructSpec {minSize maxSize : Int} (positive : 0 ≤ minSize) (order : minSize ≤ maxSize)
    (maxIdleTime : Int) {made : List (Nat × Int)} (new : Made minSize made) :
    ∃ p, construct minSize maxSize maxIdleTime made = some p ∧
      Inv minSize maxSize ⟨p, [], made.length⟩ := by
  have number := new.number
  have empty : Books minSize maxSize ⟨minSize, maxSize, 0, maxIdleTime, [], []⟩ [] 0 :=
    ⟨rfl, rfl, .refl _, by simp [existing], by simp; omega, rfl, Nat.le_refl _⟩
  obtain ⟨p, ok, books⟩ := constructFrom empty new.distinct (by simp [existing]) (by simp; omega)
  refine ⟨p, ?_, by simpa [Inv] using books⟩
  rw [construct, if_pos number, ok]

structure Exclusive (maxSize : Int) (s : State) : Prop where
  places : ∀ conn, conn ∈ s.pool.existing ↔
    conn ∈ s.pool.connectionQueue ∨ ∃ client, (client, conn) ∈ s.leases
  once : (s.pool.connectionQueue ++ s.leases.map Prod.snd).Nodup
  limit : (s.pool.existing.length : Int) ≤ maxSize

theorem exclusiveOf {minSize maxSize : Int} {s : State} (inv : Inv minSize maxSize s) :
    Exclusive maxSize s where
  places conn := by
    rw [inv.places.mem_iff, List.mem_append, List.mem_map]
    constructor
    · rintro (queued | ⟨⟨client, _⟩, member, rfl⟩)
      · exact .inl queued
      · exact .inr ⟨client, member⟩
    · rintro (queued | ⟨client, member⟩)
      · exact .inl queued
      · exact .inr ⟨(client, conn), member, rfl⟩
  once := inv.places.nodup_iff.mp inv.nodup
  limit := by
    rw [existing, List.length_map]
    exact inv.limit

theorem leasesExclusive {minSize maxSize : Int} (positive : 0 ≤ minSize) (order : minSize ≤ maxSize)
    (maxIdleTime : Int) {made : List (Nat × Int)} (new : Made minSize made) :
    ∃ p, construct minSize maxSize maxIdleTime made = some p ∧
      ∀ actions, Along step Allowed ⟨p, [], made.length⟩ actions →
        ∃ s, run step ⟨p, [], made.length⟩ actions = some s ∧ Exclusive maxSize s := by
  obtain ⟨p, ok, inv⟩ := constructSpec positive order maxIdleTime new
  refine ⟨p, ok, fun actions allowed => ?_⟩
  obtain ⟨s, ran, inv'⟩ := runProgress stepInv inv allowed
  exact ⟨s, ran, exclusiveOf inv'⟩

theorem leasesExclusiveSample :
    construct 1 3 5 [(16, 0)] = some ⟨1, 3, 2, 5, [16], [(16, ⟨0⟩)]⟩ ∧
      ∃ s, run step ⟨⟨1, 3, 2, 5, [16], [(16, ⟨0⟩)]⟩, [], 1⟩ [.getConnection 0, .produce 32 0,
        .getConnection 1, .release 0 16 0, .release 1 32 0, .recycle fun _ => 6000000] = some s ∧
      s.pool.connectionQueue = [32] ∧ Exclusive 3 s := by
  have built : construct 1 3 5 [(16, 0)] = some ⟨1, 3, 2, 5, [16], [(16, ⟨0⟩)]⟩ := by decide
  obtain ⟨p, ok, exclusive⟩ := leasesExclusive
    (show (0 : Int) ≤ 1 by decide) (show (1 : Int) ≤ 3 by decide) 5 (show Made 1 [(16, 0)] from ⟨rfl, by decide⟩)
  cases Option.some.inj (built.symm.trans ok)
  obtain ⟨s, ran, holds⟩ := exclusive [.getConnection 0, .produce 32 0, .getConnection 1,
    .release 0 16 0, .release 1 32 0, .recycle fun _ => 6000000] (by decide)
  refine ⟨built, s, ran, ?_, holds⟩
  have final : run step ⟨⟨1, 3, 2, 5, [16], [(16, ⟨0⟩)]⟩, [], 1⟩ [.getConnection 0, .produce 32 0,
      .getConnection 1, .release 0 16 0, .release 1 32 0, .recycle fun _ => 6000000] =
      some ⟨⟨1, 3, 3, 5, [32], [(32, ⟨0⟩)]⟩, [], 2⟩ := by decide
  cases Option.some.inj (final.symm.trans ran)
  rfl

end TinyNetwork.PoolLeases
