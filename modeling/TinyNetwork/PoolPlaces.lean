import Mathlib.Data.List.Basic
import TinyNetwork.ConnectionPool

/-! Where the connections of the pool are. A connection that exists is in the queue
or was given out, once, and each section under the mutex keeps it so. There is one
lemma a section, with the pool that it leaves. -/
namespace TinyNetwork.ConnectionPool
open Runs Words

def refreshed (objects : List (Nat × MysqlConn)) (conn : Nat) (now : Int) : List (Nat × MysqlConn) :=
  objects.map (fun o => if o.1 = conn then (o.1, ⟨now⟩) else o)

section
variable {objects : List (Nat × MysqlConn)} {conn other : Nat}

theorem keysRefreshed (objects : List (Nat × MysqlConn)) (conn : Nat) (now : Int) :
    (refreshed objects conn now).map Prod.fst = objects.map Prod.fst := by
  rw [refreshed, List.map_map]
  refine List.map_congr_left fun o _ => ?_
  simp only [Function.comp]
  split <;> rfl

theorem lookupExisting (member : conn ∈ objects.map Prod.fst) : ∃ c, objects.lookup conn = some c := by
  induction objects with
  | nil => simp at member
  | cons o rest ih =>
    rw [List.lookup_cons]
    split
    · exact ⟨_, rfl⟩
    · rename_i other
      rw [List.map_cons, List.mem_cons] at member
      rcases member with same | inside
      · simp [same] at other
      · exact ih inside

theorem lookupAbsent (absent : conn ∉ objects.map Prod.fst) : objects.lookup conn = none := by
  rw [List.lookup_eq_none_iff]
  intro o member
  have different : conn ≠ o.1 := fun same => absent (same ▸ List.mem_map_of_mem member)
  exact bne_iff_ne.mpr different

theorem lookupRefreshed (objects : List (Nat × MysqlConn)) (conn other : Nat) (now : Int) :
    (refreshed objects conn now).lookup other =
      if other = conn then (objects.lookup other).map (fun _ => ⟨now⟩) else objects.lookup other := by
  unfold refreshed
  induction objects with
  | nil => simp
  | cons o rest ih =>
    rw [List.map_cons, List.lookup_cons, List.lookup_cons, ih]
    by_cases here : o.1 = conn
    · by_cases same : other = conn
      · simp [here, same]
      · have differs : (other == o.1) = false := beq_eq_false_iff_ne.mpr (here ▸ same)
        rw [if_pos here, differs, if_neg same]
    · by_cases found : other = o.1
      · simp [found, here]
      · rw [if_neg here, beq_eq_false_iff_ne.mpr found]

theorem lookupKept (gone : List Nat) (kept : other ∉ gone) :
    (objects.filter (fun o => o.1 ∉ gone)).lookup other = objects.lookup other := by
  induction objects with
  | nil => rfl
  | cons o rest ih =>
    by_cases found : other = o.1
    · rw [List.filter_cons_of_pos (by simpa [← found] using kept), List.lookup_cons, List.lookup_cons]
      simp [found]
    · rw [List.lookup_cons, beq_eq_false_iff_ne.mpr found, List.filter_cons]
      split
      · rw [List.lookup_cons, beq_eq_false_iff_ne.mpr found]
        exact ih
      · exact ih

theorem lookupLeft (gone : List Nat) {c : MysqlConn}
    (found : (objects.filter (fun o => o.1 ∉ gone)).lookup other = some c) : objects.lookup other = some c := by
  by_cases deleted : other ∈ gone
  · rw [lookupAbsent (by simp [deleted])] at found
    contradiction
  · rwa [lookupKept gone deleted] at found

end

structure Placed (p : ConnectionPool) (held : List Nat) : Prop where
  places : p.existing.Perm (p.connectionQueue ++ held)
  nodup : p.existing.Nodup

def returned (p : ConnectionPool) (conn : Nat) (now : Int) : ConnectionPool :=
  { p with objects := refreshed p.objects conn now, connectionQueue := p.connectionQueue ++ [conn] }

def added (p : ConnectionPool) (conn : Nat) (now : Int) : ConnectionPool :=
  { p with
    objects := refreshed (p.objects ++ [(conn, ⟨0⟩)]) conn now
    connectionQueue := p.connectionQueue ++ [conn]
    currentSize := p.currentSize + 1 + 1 }

def removed (p : ConnectionPool) (gone rest : List Nat) : ConnectionPool :=
  { p with
    connectionQueue := rest
    objects := p.objects.filter (fun o => o.1 ∉ gone)
    currentSize := p.currentSize - gone.length }

section
variable {p : ConnectionPool} {held : List Nat}

theorem placedOnce (placed : Placed p held) : (p.connectionQueue ++ held).Nodup :=
  placed.places.nodup_iff.mp placed.nodup

theorem queuedExists (placed : Placed p held) {conn : Nat} (queued : conn ∈ p.connectionQueue) :
    conn ∈ p.existing :=
  placed.places.mem_iff.mpr (List.mem_append_left _ queued)

theorem takePlaced (placed : Placed p held) {conn : Nat} {q : ConnectionPool}
    (took : p.takeConnection = some (conn, q)) :
    p.connectionQueue = conn :: q.connectionQueue ∧ q = { p with connectionQueue := q.connectionQueue } ∧
      Placed q (conn :: held) := by
  unfold takeConnection at took
  split at took <;> try contradiction
  rename_i first rest queue
  cases Option.some.inj took
  refine ⟨queue, rfl, ?_, placed.nodup⟩
  refine placed.places.trans ?_
  rw [queue]
  exact List.perm_middle.symm

theorem leasePlaced {leases : List (Nat × Nat)} {client conn : Nat}
    (placed : Placed p (leases.map Prod.snd)) (member : (client, conn) ∈ leases) :
    Placed p (conn :: (leases.erase (client, conn)).map Prod.snd) := by
  refine ⟨placed.places.trans ?_, placed.nodup⟩
  exact ((List.perm_cons_erase member).map Prod.snd).append_left _

theorem giveBackPlaced {conn : Nat} (placed : Placed p (conn :: held)) (now : Int) :
    p.giveBack conn now = some (returned p conn now) ∧ Placed (returned p conn now) held := by
  have member : conn ∈ p.existing := placed.places.mem_iff.mpr (by simp)
  obtain ⟨c, found⟩ := lookupExisting member
  have keys : (returned p conn now).existing = p.existing := keysRefreshed p.objects conn now
  refine ⟨?_, ?_, by rw [keys]; exact placed.nodup⟩
  · simp only [giveBack, refreshAliveTime, found, push, returned, refreshed, bind, Option.bind]
  · rw [keys]
    simpa [returned] using placed.places

theorem existingAdded (p : ConnectionPool) (conn : Nat) (now : Int) :
    (added p conn now).existing = p.existing ++ [conn] := by
  refine (keysRefreshed _ conn now).trans ?_
  simp [existing]

theorem unusedAdded {conn other : Nat} (unused : other ∉ p.existing) (apart : other ≠ conn) (now : Int) :
    other ∉ (added p conn now).existing := by
  rw [existingAdded, List.mem_append, List.mem_singleton]
  exact not_or.mpr ⟨unused, apart⟩

theorem lookupAdded {conn : Nat} (unused : conn ∉ p.existing) :
    (p.objects ++ [(conn, (⟨0⟩ : MysqlConn))]).lookup conn = some ⟨0⟩ := by
  rw [List.lookup_append, lookupAbsent unused]
  simp

theorem addCountedPlaced (placed : Placed p held) {conn : Nat} (unused : conn ∉ p.existing) (now : Int) :
    p.addCounted (conn, now) = some (added p conn now) ∧ Placed (added p conn now) held := by
  refine ⟨?_, ?_, ?_⟩
  · simp only [addCounted, addConnection, if_neg unused, refreshAliveTime, lookupAdded unused, push, added,
      refreshed, bind, Option.bind]
  · rw [existingAdded]
    refine (placed.places.append_right [conn]).trans ?_
    rw [added, List.append_assoc, List.append_assoc]
    exact List.perm_append_comm.append_left _
  · rw [existingAdded]
    refine List.nodup_append.mpr ⟨placed.nodup, by simp, ?_⟩
    rintro a member b last rfl
    exact unused (List.mem_singleton.mp last ▸ member)

theorem producePlaced (placed : Placed p held) {conn : Nat} (unused : conn ∉ p.existing) (now : Int) :
    ∃ q, p.produceConnection conn now = some q ∧ Placed q held ∧
      (q = added p conn now ∧ p.connectionQueue = [] ∧ p.currentSize < p.maxSize ∨
        q = p ∧ (p.connectionQueue = [] → p.maxSize ≤ p.currentSize)) := by
  unfold produceConnection
  split
  · rename_i waiting
    refine ⟨p, rfl, placed, .inr ⟨rfl, fun empty => ?_⟩⟩
    simp [empty] at waiting
  · rename_i idle
    have empty : p.connectionQueue = [] := by simpa using idle
    split
    · rename_i below
      obtain ⟨ok, placed'⟩ := addCountedPlaced placed unused now
      exact ⟨_, ok, placed', .inl ⟨rfl, empty, below⟩⟩
    · rename_i full
      exact ⟨p, rfl, placed, .inr ⟨rfl, fun _ => Int.not_lt.mp full⟩⟩

/- What the loop of the recycler found. It stops at the first connection that is young
enough, or when few are left, and needs no order for that. -/
structure Loop (readings : Nat → Int) (n : Nat) (p : ConnectionPool) (gone rest : List Nat) : Prop where
  idle : ∀ i conn, gone[i]? = some conn → ∃ c, p.objects.lookup conn = some c ∧
    p.maxIdleTime ≤ c.getAliveTime (readings (n + i))
  least : gone = [] ∨ widen p.minSize ≤ rest.length
  last : rest.length ≤ widen p.minSize ∨ widen p.minSize < rest.length ∧
    ∃ conn tail c, rest = conn :: tail ∧ p.objects.lookup conn = some c ∧
      c.getAliveTime (readings (n + gone.length)) < p.maxIdleTime

theorem removedNone (p : ConnectionPool) (rest : List Nat) :
    removed p [] rest = { p with connectionQueue := rest } := by
  simp [removed]

theorem removedCons (p : ConnectionPool) (conn : Nat) (gone rest : List Nat) :
    removed { p with objects := p.objects.filter (fun o => o.1 ≠ conn), currentSize := p.currentSize - 1 }
      gone rest = removed p (conn :: gone) rest := by
  have objects : (p.objects.filter (fun o => o.1 ≠ conn)).filter (fun o => o.1 ∉ gone) =
      p.objects.filter (fun o => o.1 ∉ conn :: gone) := by
    rw [List.filter_filter]
    refine List.filter_congr fun o _ => ?_
    simp [Bool.and_comm]
  have size : p.currentSize - 1 - (gone.length : Int) = p.currentSize - ((conn :: gone).length : Int) := by
    rw [List.length_cons]
    omega
  simp only [removed, objects, size]

theorem existingRemoved (p : ConnectionPool) (gone rest : List Nat) :
    (removed p gone rest).existing = p.existing.filter (· ∉ gone) := by
  simp only [existing, removed, List.filter_map]
  rfl

theorem loopSpec (readings : Nat → Int) {queue : List Nat} {n : Nat} {p : ConnectionPool}
    (known : ∀ conn ∈ queue, ∃ c, p.objects.lookup conn = some c) (nodup : queue.Nodup) :
    ∃ gone rest, queue = gone ++ rest ∧ recycleFrom readings n p queue = some (removed p gone rest) ∧
      Loop readings n p gone rest := by
  induction queue generalizing n p with
  | nil =>
    refine ⟨[], [], rfl, by rw [removedNone]; rfl, by simp, .inl rfl, .inl (Nat.zero_le _)⟩
  | cons conn rest ih =>
    obtain ⟨fresh, distinct⟩ := List.nodup_cons.mp nodup
    obtain ⟨c, found⟩ := known conn List.mem_cons_self
    have stays : some { p with connectionQueue := conn :: rest } = some (removed p [] (conn :: rest)) := by
      rw [removedNone]
    unfold recycleFrom
    split
    · rename_i many
      simp only [found, bind, Option.bind]
      split
      · rename_i old
        have kept : ∀ other ∈ rest, (p.objects.filter (fun o => o.1 ≠ conn)).lookup other =
            p.objects.lookup other := by
          intro other member
          have different : other ∉ [conn] := fun same => fresh (List.mem_singleton.mp same ▸ member)
          have same : (p.objects.filter (fun o => o.1 ∉ [conn])).lookup other = p.objects.lookup other :=
            lookupKept [conn] different
          simpa using same
        obtain ⟨gone, left, split, ok, loop⟩ := ih (n := n + 1)
          (p := { p with
            objects := p.objects.filter (fun o => o.1 ≠ conn), currentSize := p.currentSize - 1 })
          (fun other member => (kept other member).symm ▸ known other (List.mem_cons_of_mem _ member)) distinct
        refine ⟨conn :: gone, left, by rw [split]; rfl, by rw [ok, removedCons], ?_, ?_, ?_⟩
        · rintro (_ | i) other at_
          · cases Option.some.inj at_
            exact ⟨c, found, old⟩
          · have member : other ∈ rest := by
              rw [split]
              exact List.mem_append_left _ (List.mem_of_getElem? at_)
            obtain ⟨d, foundOther, oldOther⟩ := loop.idle i other at_
            refine ⟨d, (kept other member) ▸ foundOther, ?_⟩
            rwa [Nat.add_assoc, Nat.add_comm 1 i] at oldOther
        · refine .inr ?_
          rcases loop.least with none | enough
          · rw [none, List.nil_append] at split
            rw [← split]
            exact Nat.le_of_lt_succ many
          · exact enough
        · rcases loop.last with few | ⟨many, head, tail, d, queue, foundHead, young⟩
          · exact .inl few
          · refine .inr ⟨many, head, tail, d, queue, ?_, ?_⟩
            · have member : head ∈ rest := by simp [split, queue]
              exact (kept head member) ▸ foundHead
            · rwa [Nat.add_assoc, Nat.add_comm 1] at young
      · rename_i young
        exact ⟨[], conn :: rest, rfl, stays, by simp, .inl rfl,
          .inr ⟨many, conn, rest, c, rfl, found, Int.not_le.mp young⟩⟩
    · rename_i few
      exact ⟨[], conn :: rest, rfl, stays, by simp, .inl rfl, .inl (Nat.not_lt.mp few)⟩

theorem recyclePlaced (placed : Placed p held) (readings : Nat → Int) :
    ∃ gone rest, p.connectionQueue = gone ++ rest ∧ p.recycleConnection readings = some (removed p gone rest) ∧
      Loop readings 0 p gone rest ∧ (∀ conn ∈ rest, conn ∉ gone) ∧ Placed (removed p gone rest) held := by
  have once := placedOnce placed
  obtain ⟨gone, rest, queue, ok, loop⟩ := loopSpec (n := 0) readings
    (fun conn queued => lookupExisting (queuedExists placed queued)) (List.nodup_append.mp once).1
  rw [queue, List.append_assoc, List.nodup_append] at once
  have apart : ∀ conn ∈ rest ++ held, conn ∉ gone := fun conn stays deleted =>
    once.2.2 conn deleted conn stays rfl
  refine ⟨gone, rest, queue, ok, loop, fun conn member => apart conn (List.mem_append_left _ member), ?_, ?_⟩
  · have places := placed.places.filter (· ∉ gone)
    rw [queue, List.append_assoc, List.filter_append] at places
    have dropped : gone.filter (· ∉ gone) = [] := List.filter_eq_nil_iff.mpr (by simp)
    have stay : (rest ++ held).filter (· ∉ gone) = rest ++ held :=
      List.filter_eq_self.mpr fun conn member => by simpa using apart conn member
    rwa [dropped, stay, List.nil_append, ← existingRemoved p gone rest] at places
  · rw [existingRemoved]
    exact placed.nodup.filter _

theorem runAddPlaced {made : List (Nat × Int)} (placed : Placed p held) (distinct : (made.map Prod.fst).Nodup)
    (unused : ∀ m ∈ made, m.1 ∉ p.existing) : ∃ q, run addCounted p made = some q ∧ Placed q held := by
  induction made generalizing p with
  | nil => exact ⟨p, rfl, placed⟩
  | cons m rest ih =>
    obtain ⟨fresh, others⟩ := List.nodup_cons.mp distinct
    obtain ⟨ok, placed'⟩ := addCountedPlaced placed (unused m List.mem_cons_self) m.2
    have unused' : ∀ n ∈ rest, n.1 ∉ (added p m.1 m.2).existing := fun n member =>
      unusedAdded (unused n (List.mem_cons_of_mem _ member)) (fun same => fresh (List.mem_map.mpr ⟨n, member, same⟩)) m.2
    obtain ⟨q, ran, last⟩ := ih placed' others unused'
    exact ⟨q, runCons.mpr ⟨_, ok, ran⟩, last⟩

end

end TinyNetwork.ConnectionPool
