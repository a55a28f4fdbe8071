import Mathlib.Data.List.Forall2
import Mathlib.Order.Monotone.Basic
import TinyNetwork.PoolLeases

/-! How old the queued connections are. Every connection goes to the back of the queue
with the newest time there is, so the queue is ordered by these times whatever the
clients, the producer and the recycler do, and the front of it is the oldest. `clock`
has the readings of the steady clock in the order in which they are taken. -/
namespace TinyNetwork.PoolAges
open Runs Words ConnectionPool PoolLeases

structure State where
  base : PoolLeases.State
  taken : Nat
  deriving DecidableEq, Repr

inductive Action where
  | getConnection (client : Nat)
  | release (client conn : Nat)
  | produce (conn : Nat)
  | recycle
  deriving DecidableEq, Repr

/- The recycler has asked once for every connection it deleted, and once more if it
did not stop for the number of connections. -/
def checks (before after : ConnectionPool) : Nat :=
  before.connectionQueue.length - after.connectionQueue.length +
    if widen after.minSize < after.connectionQueue.length then 1 else 0

def step (clock : Nat → Int) (s : State) : Action → Option State
  | .getConnection client => do
      let base ← PoolLeases.step s.base (.getConnection client)
      some ⟨base, s.taken⟩
  | .release client conn => do
      let base ← PoolLeases.step s.base (.release client conn (clock s.taken))
      some ⟨base, s.taken + 1⟩
  | .produce conn => do
      let base ← PoolLeases.step s.base (.produce conn (clock s.taken))
      some ⟨base, s.taken + (base.created - s.base.created)⟩
  | .recycle => do
      let base ← PoolLeases.step s.base (.recycle fun n => clock (s.taken + n))
      some ⟨base, s.taken + checks s.base.pool base.pool⟩

def Allowed (s : State) : Action → Prop
  | .release client conn => (client, conn) ∈ s.base.leases
  | .produce conn => conn ∉ s.base.pool.existing
  | _ => True

instance (s : State) : (a : Action) → Decidable (Allowed s a)
  | .release client conn => inferInstanceAs (Decidable ((client, conn) ∈ s.base.leases))
  | .produce conn => inferInstanceAs (Decidable (conn ∉ s.base.pool.existing))
  | .getConnection _ | .recycle => .isTrue trivial

def Timed (p : ConnectionPool) (times : List Int) : Prop :=
  List.Forall₂ (fun conn time => p.objects.lookup conn = some ⟨time⟩) p.connectionQueue times

def Ordered (p : ConnectionPool) : Prop := ∃ times, Timed p times ∧ times.Pairwise (· ≤ ·)

structure Pass (clock : Nat → Int) (s t : State) (gone : List Nat) : Prop where
  front : s.base.pool.connectionQueue = gone ++ t.base.pool.connectionQueue
  deleted : t.base.pool.objects = s.base.pool.objects.filter (fun o => o.1 ∉ gone)
  idle : ∀ i conn, gone[i]? = some conn → ∃ c, s.base.pool.objects.lookup conn = some c ∧
    s.base.pool.maxIdleTime ≤ c.getAliveTime (clock (s.taken + i))
  least : gone = [] ∨ s.base.pool.minSize ≤ t.base.pool.connectionQueue.length
  last : (t.base.pool.connectionQueue.length : Int) ≤ s.base.pool.minSize ∨
    t.taken = s.taken + gone.length + 1 ∧ ∀ conn ∈ t.base.pool.connectionQueue,
      ∃ c, t.base.pool.objects.lookup conn = some c ∧
        c.getAliveTime (clock (s.taken + gone.length)) < s.base.pool.maxIdleTime

theorem aliveTimeMono {c d : MysqlConn} (later : c.alivetime ≤ d.alivetime) (now : Int) :
    d.getAliveTime now ≤ c.getAliveTime now := by
  unfold MysqlConn.getAliveTime
  exact Int.tdiv_le_tdiv (by decide) (by omega)

structure Aged (minSize now : Int) (p : ConnectionPool) (held : List Nat) : Prop where
  minimum : p.minSize = minSize
  placed : Placed p held
  ages : ∃ times, Timed p times ∧ times.Pairwise (· ≤ ·) ∧ ∀ time ∈ times, time ≤ now

theorem agedLater {minSize now later : Int} {p : ConnectionPool} {held : List Nat}
    (aged : Aged minSize now p held) (order : now ≤ later) : Aged minSize later p held := by
  obtain ⟨times, timed, ordered, bound⟩ := aged.ages
  exact ⟨aged.minimum, aged.placed, times, timed, ordered, fun time member => (bound time member).trans order⟩

section
variable {minSize now : Int} {p : ConnectionPool} {held : List Nat}

theorem timedFrame {p q : ConnectionPool} {times : List Int} (timed : Timed p times)
    (queue : q.connectionQueue = p.connectionQueue)
    (same : ∀ conn ∈ p.connectionQueue, q.objects.lookup conn = p.objects.lookup conn) : Timed q times := by
  unfold Timed at timed ⊢
  rw [queue]
  generalize p.connectionQueue = conns at timed same
  induction timed with
  | nil => exact .nil
  | cons found _ ih =>
    refine .cons ((same _ List.mem_cons_self).trans found) (ih fun conn member => ?_)
    exact same conn (List.mem_cons_of_mem _ member)

theorem pushAges (conn : Nat) {p q : ConnectionPool} {times : List Int} {now : Int} (timed : Timed p times)
    (ordered : times.Pairwise (· ≤ ·)) (bound : ∀ time ∈ times, time ≤ now)
    (queue : q.connectionQueue = p.connectionQueue ++ [conn]) (new : q.objects.lookup conn = some ⟨now⟩)
    (same : ∀ a ∈ p.connectionQueue, q.objects.lookup a = p.objects.lookup a) :
    ∃ times, Timed q times ∧ times.Pairwise (· ≤ ·) ∧ ∀ time ∈ times, time ≤ now := by
  have moved : Timed { q with connectionQueue := p.connectionQueue } times := timedFrame timed rfl same
  refine ⟨times ++ [now], ?_, ?_, ?_⟩
  · unfold Timed
    rw [queue]
    exact List.rel_append moved (.cons new .nil)
  · refine List.pairwise_append.mpr ⟨ordered, List.pairwise_singleton _ _, fun time member last only => ?_⟩
    rw [List.mem_singleton.mp only]
    exact bound time member
  · intro time member
    rcases List.mem_append.mp member with old | last
    · exact bound time old
    · exact (List.mem_singleton.mp last).le

theorem takeAged (aged : Aged minSize now p held) {conn : Nat} {q : ConnectionPool}
    (took : p.takeConnection = some (conn, q)) : Aged minSize now q (conn :: held) := by
  obtain ⟨queue, same, placed⟩ := takePlaced aged.placed took
  obtain ⟨times, timed, ordered, bound⟩ := aged.ages
  unfold Timed at timed
  rw [queue] at timed
  cases timed with
  | cons found others =>
    refine ⟨by rw [same]; exact aged.minimum, placed, _, ?_, (List.pairwise_cons.mp ordered).2, ?_⟩
    · rw [same]
      exact others
    · exact fun time member => bound time (List.mem_cons_of_mem _ member)

theorem giveBackAged {conn : Nat} (aged : Aged minSize now p (conn :: held)) :
    p.giveBack conn now = some (returned p conn now) ∧ Aged minSize now (returned p conn now) held := by
  obtain ⟨ok, placed⟩ := giveBackPlaced aged.placed now
  have outside : conn ∉ p.connectionQueue := fun queued =>
    (List.nodup_append.mp (placedOnce aged.placed)).2.2 conn queued conn List.mem_cons_self rfl
  have member : conn ∈ p.existing := aged.placed.places.mem_iff.mpr (by simp)
  obtain ⟨c, found⟩ := lookupExisting member
  obtain ⟨times, timed, ordered, bound⟩ := aged.ages
  refine ⟨ok, aged.minimum, placed, pushAges conn timed ordered bound rfl ?_ ?_⟩
  · simp only [returned, lookupRefreshed, found, if_pos, Option.map_some]
  · intro a queued
    have different : a ≠ conn := fun same => outside (same ▸ queued)
    simp only [returned, lookupRefreshed, if_neg different]

theorem addCountedAged (aged : Aged minSize now p held) {conn : Nat} (unused : conn ∉ p.existing) :
    Aged minSize now (added p conn now) held := by
  obtain ⟨_, placed⟩ := addCountedPlaced aged.placed unused now
  obtain ⟨times, timed, ordered, bound⟩ := aged.ages
  refine ⟨aged.minimum, placed, pushAges conn timed ordered bound rfl ?_ ?_⟩
  · simp only [added, lookupRefreshed, lookupAdded unused, if_pos, Option.map_some]
  · intro a queued
    have inside : a ∈ p.existing := queuedExists aged.placed queued
    have different : a ≠ conn := fun same => unused (same ▸ inside)
    obtain ⟨c, found⟩ := lookupExisting inside
    simp only [added, lookupRefreshed, if_neg different, List.lookup_append, found, Option.some_or]

theorem timedRest {gone rest : List Nat} {times : List Int} (timed : Timed p times)
    (queue : p.connectionQueue = gone ++ rest) :
    Timed { p with connectionQueue := rest } (times.drop gone.length) := by
  unfold Timed at timed ⊢
  rw [queue] at timed
  simpa using List.forall₂_drop gone.length timed

theorem timedKnown {times : List Int} (timed : Timed p times) {conn : Nat} (queued : conn ∈ p.connectionQueue) :
    ∃ time ∈ times, p.objects.lookup conn = some ⟨time⟩ := by
  unfold Timed at timed
  generalize p.connectionQueue = conns at timed queued
  induction timed with
  | nil => simp at queued
  | @cons first time _ _ found _ ih =>
    rcases List.mem_cons.mp queued with rfl | later
    · exact ⟨time, List.mem_cons_self, found⟩
    · obtain ⟨other, member, foundOther⟩ := ih later
      exact ⟨other, List.mem_cons_of_mem _ member, foundOther⟩

theorem recycleAged (aged : Aged minSize now p held) (readings : Nat → Int) :
    ∃ gone rest, p.connectionQueue = gone ++ rest ∧ p.recycleConnection readings = some (removed p gone rest) ∧
      Loop readings 0 p gone rest ∧ Aged minSize now (removed p gone rest) held := by
  obtain ⟨gone, rest, queue, ok, loop, apart, placed⟩ := recyclePlaced aged.placed readings
  obtain ⟨times, timed, ordered, bound⟩ := aged.ages
  refine ⟨gone, rest, queue, ok, loop, aged.minimum, placed, times.drop gone.length, ?_,
    ordered.sublist (List.drop_sublist _ _), fun time member => bound time (List.mem_of_mem_drop member)⟩
  exact timedFrame (timedRest timed queue) rfl fun conn member => lookupKept gone (apart conn member)

end

def Inv (minSize : Int) (clock : Nat → Int) (s : State) : Prop :=
  Aged minSize (clock s.taken) s.base.pool (s.base.leases.map Prod.snd)

section
variable {minSize : Int} {clock : Nat → Int} {s : State}

theorem youngest {now bound : Int} {p : ConnectionPool} {held : List Nat} {head : Nat} {tail : List Nat}
    {c : MysqlConn} (aged : Aged minSize now p held) (queue : p.connectionQueue = head :: tail)
    (found : p.objects.lookup head = some c) {reading : Int} (young : c.getAliveTime reading < bound) :
    ∀ conn ∈ p.connectionQueue, ∃ d, p.objects.lookup conn = some d ∧ d.getAliveTime reading < bound := by
  intro conn queued
  obtain ⟨times, timed, ordered, _⟩ := aged.ages
  obtain ⟨time, member, foundConn⟩ := timedKnown timed queued
  refine ⟨⟨time⟩, foundConn, lt_of_le_of_lt (aliveTimeMono ?_ reading) young⟩
  unfold Timed at timed
  rw [queue] at timed
  cases timed with
  | cons first others =>
    cases Option.some.inj (found.symm.trans first)
    rcases List.mem_cons.mp member with rfl | later
    · exact le_rfl
    · exact (List.pairwise_cons.mp ordered).1 time later

theorem recycleStep (forward : ∀ n, clock n ≤ clock (n + 1)) (positive : 0 ≤ minSize) (int : minSize < intLimit)
    (inv : Inv minSize clock s) :
    ∃ t gone, step clock s .recycle = some t ∧ Inv minSize clock t ∧ Pass clock s t gone := by
  obtain ⟨gone, rest, queue, ok, loop, aged⟩ := recycleAged inv (fun n => clock (s.taken + n))
  have size : (widen s.base.pool.minSize : Int) = s.base.pool.minSize := by
    obtain ⟨low, rfl⟩ := Int.eq_ofNat_of_zero_le positive
    rw [inv.minimum]
    exact congrArg Int.ofNat (widenNat (by unfold intLimit at int; unfold sizeLimit; omega))
  let t : State := ⟨{ s.base with pool := removed s.base.pool gone rest },
    s.taken + checks s.base.pool (removed s.base.pool gone rest)⟩
  refine ⟨t, gone, ?_, agedLater aged (monotone_nat_of_le_succ forward (Nat.le_add_right _ _)), queue, rfl, ?_, ?_, ?_⟩
  · simp only [step, PoolLeases.step, ok, t, bind, Option.bind]
  · simpa only [Nat.zero_add] using loop.idle
  · rw [← size]
    exact loop.least.imp_right Int.ofNat_le.mpr
  · rcases loop.last with few | ⟨many, head, tail, c, stays, found, young⟩
    · rw [← size]
      exact .inl (Int.ofNat_le.mpr few)
    · have asked : checks s.base.pool (removed s.base.pool gone rest) = gone.length + 1 := by
        have less : s.base.pool.connectionQueue.length - rest.length = gone.length := by
          rw [queue, List.length_append, Nat.add_sub_cancel]
        exact congrArg₂ (· + ·) less (if_pos many)
      obtain ⟨times, timed, _, _⟩ := aged.ages
      obtain ⟨time, _, foundLeft⟩ := timedKnown timed (show head ∈ _ from stays ▸ List.mem_cons_self)
      cases Option.some.inj (found.symm.trans (lookupLeft gone foundLeft))
      refine .inr ⟨by simp only [t, asked, Nat.add_assoc], ?_⟩
      exact youngest aged stays foundLeft (by simpa only [Nat.zero_add] using young)

theorem stepInv (forward : ∀ n, clock n ≤ clock (n + 1)) (positive : 0 ≤ minSize) (int : minSize < intLimit)
    {a : Action} (inv : Inv minSize clock s) (allowed : Allowed s a) :
    ∃ t, step clock s a = some t ∧ Inv minSize clock t := by
  cases a with
  | getConnection client =>
    simp only [step, PoolLeases.step]
    split
    · exact ⟨s, rfl, inv⟩
    · rename_i took
      exact ⟨_, rfl, takeAged inv took⟩
  | release client conn =>
    have member : (client, conn) ∈ s.base.leases := allowed
    have held : Aged minSize (clock s.taken) s.base.pool
        (conn :: (s.base.leases.erase (client, conn)).map Prod.snd) :=
      { inv with placed := leasePlaced inv.placed member }
    obtain ⟨ok, aged⟩ := giveBackAged held
    let pool := returned s.base.pool conn (clock s.taken)
    refine ⟨⟨{ s.base with pool, leases := s.base.leases.erase (client, conn) }, s.taken + 1⟩, ?_,
      agedLater aged (forward _)⟩
    simp only [step, PoolLeases.step, if_pos member, ok, pool, bind, Option.bind]
  | produce conn =>
    obtain ⟨pool, ok, _, made⟩ := producePlaced inv.placed allowed (clock s.taken)
    have aged : Aged minSize (clock s.taken) pool (s.base.leases.map Prod.snd) := by
      rcases made with ⟨rfl, _⟩ | ⟨rfl, _⟩
      · exact addCountedAged inv allowed
      · exact inv
    let created := s.base.created + (pool.objects.length - s.base.pool.objects.length)
    refine ⟨⟨{ s.base with pool, created }, s.taken + (created - s.base.created)⟩, ?_,
      agedLater aged (monotone_nat_of_le_succ forward (Nat.le_add_right _ _))⟩
    simp only [step, PoolLeases.step, ok, created, bind, Option.bind]
  | recycle =>
    obtain ⟨t, _, ok, inv', _⟩ := recycleStep forward positive int inv
    exact ⟨t, ok, inv'⟩

theorem constructFrom (forward : ∀ n, clock n ≤ clock (n + 1)) {made : List Nat} {n : Nat} {p : ConnectionPool}
    (aged : Aged minSize (clock n) p []) (distinct : made.Nodup) (unused : ∀ conn ∈ made, conn ∉ p.existing) :
    ∃ q, run addCounted p ((made.zipIdx n).map fun m => (m.1, clock m.2)) = some q ∧
      Aged minSize (clock (n + made.length)) q [] := by
  induction made generalizing n p with
  | nil => exact ⟨p, rfl, aged⟩
  | cons conn rest ih =>
    obtain ⟨fresh, others⟩ := List.nodup_cons.mp distinct
    have ok := (addCountedPlaced aged.placed (unused conn List.mem_cons_self) (clock n)).1
    have aged' := addCountedAged aged (unused conn List.mem_cons_self)
    have unused' : ∀ other ∈ rest, other ∉ (added p conn (clock n)).existing := fun other member =>
      unusedAdded (unused other (List.mem_cons_of_mem _ member)) (fun same => fresh (Eq.subst same member)) (clock n)
    obtain ⟨last, ran, final⟩ := ih (agedLater aged' (forward n)) others unused'
    refine ⟨last, ?_, ?_⟩
    · rw [List.zipIdx_cons, List.map_cons]
      exact runCons.mpr ⟨_, ok, ran⟩
    · rwa [List.length_cons, Nat.add_comm rest.length, ← Nat.add_assoc]

theorem oldestFirst (forward : ∀ n, clock n ≤ clock (n + 1)) (positive : 0 ≤ minSize) (int : minSize < intLimit)
    (maxSize maxIdleTime : Int) {made : List Nat} (number : made.length = minSize.toNat) (distinct : made.Nodup) :
    ∃ p, construct minSize maxSize maxIdleTime (made.zipIdx.map fun m => (m.1, clock m.2)) = some p ∧
      ∀ actions, Along (step clock) Allowed ⟨⟨p, [], made.length⟩, made.length⟩ actions →
        ∃ s, run (step clock) ⟨⟨p, [], made.length⟩, made.length⟩ actions = some s ∧ Ordered s.base.pool ∧
          ∃ t gone, step clock s .recycle = some t ∧ Pass clock s t gone := by
  have empty : Aged minSize (clock 0) ⟨minSize, maxSize, 0, maxIdleTime, [], []⟩ [] :=
    ⟨rfl, ⟨.refl _, by simp [existing]⟩, [], .nil, .nil, by simp⟩
  obtain ⟨p, ok, aged⟩ := constructFrom forward empty distinct (by simp [existing])
  refine ⟨p, by rw [construct, if_pos (by simpa using number), ok], fun actions allowed => ?_⟩
  have start : Inv minSize clock ⟨⟨p, [], made.length⟩, made.length⟩ := by simpa [Inv] using aged
  obtain ⟨s, ran, inv⟩ := runProgress (stepInv forward positive int) start allowed
  obtain ⟨t, gone, passed, _, pass⟩ := recycleStep forward positive int inv
  obtain ⟨times, timed, ordered, _⟩ := inv.ages
  exact ⟨s, ran, ⟨times, timed, ordered⟩, t, gone, passed, pass⟩

end

theorem oldestFirstSample :
    ∃ p, construct 1 3 5 [(16, 0)] = some p ∧
      ∃ s, run (step fun n => 6000000 * n) ⟨⟨p, [], 1⟩, 1⟩ [.getConnection 0, .produce 32, .getConnection 1,
        .release 0 16, .release 1 32] = some s ∧ s.base.pool.connectionQueue = [16, 32] ∧
      ∃ t, step (fun n => 6000000 * n) s .recycle = some t ∧ Pass (fun n => 6000000 * n) s t [16] := by
  have forward (n : Nat) : (6000000 * n : Int) ≤ 6000000 * (n + 1 : Nat) := by omega
  obtain ⟨p, ok, aged⟩ := oldestFirst forward (show (0 : Int) ≤ 1 by decide)
    (show (1 : Int) < intLimit by decide) 3 5 (show [16].length = (1 : Int).toNat from rfl) (by decide)
  have built : construct 1 3 5 [(16, 0)] = some ⟨1, 3, 2, 5, [16], [(16, ⟨0⟩)]⟩ := by decide
  cases Option.some.inj (built.symm.trans ok)
  obtain ⟨s, ran, _, t, gone, passed, pass⟩ := aged [.getConnection 0, .produce 32, .getConnection 1,
    .release 0 16, .release 1 32] (by decide)
  have final : run (step fun n => 6000000 * n) ⟨⟨⟨1, 3, 2, 5, [16], [(16, ⟨0⟩)]⟩, [], 1⟩, 1⟩
      [.getConnection 0, .produce 32, .getConnection 1, .release 0 16, .release 1 32] =
      some ⟨⟨⟨1, 3, 4, 5, [16, 32], [(16, ⟨12000000⟩), (32, ⟨18000000⟩)]⟩, [], 2⟩, 4⟩ := by decide
  have next : step (fun n => 6000000 * n)
      ⟨⟨⟨1, 3, 4, 5, [16, 32], [(16, ⟨12000000⟩), (32, ⟨18000000⟩)]⟩, [], 2⟩, 4⟩ .recycle =
      some ⟨⟨⟨1, 3, 3, 5, [32], [(32, ⟨18000000⟩)]⟩, [], 2⟩, 5⟩ := by decide
  cases Option.some.inj (final.symm.trans ran)
  cases Option.some.inj (next.symm.trans passed)
  have front : gone ++ [32] = [16] ++ [32] := pass.front.symm
  have first : gone = [16] := List.append_cancel_right front
  exact ⟨_, ok, _, ran, rfl, _, passed, first ▸ pass⟩

end TinyNetwork.PoolAges
