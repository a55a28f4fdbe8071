import TinyNetwork.PoolLeases

/-! Who is told about an available connection. Clients and the producer wait on one
condition variable. The producer and getConnection notify all of them after they have
changed the queue, the deleter of the shared_ptr does not: a client that is parked at
that time finds the connection only when its wait times out. -/
namespace TinyNetwork.PoolNotify
open Runs ConnectionPool

/- `parked` are the clients in cond_.wait_for, each with the number of pushes when it
parked; `awake` are on their way from there to the mutex. `notified` is the number of
pushes at the last notify_all. -/
structure State where
  base : PoolLeases.State
  parked : List (Nat × Nat)
  awake : List Nat
  producerParked : Bool
  pushes : Nat
  notified : Nat
  deriving DecidableEq, Repr

inductive Action where
  | getConnection (client : Nat)
  | resume (client : Nat)
  | timeout (client : Nat)
  | release (client conn : Nat) (now : Int)
  | produce (conn : Nat) (now : Int)
  | wakeProducer
  | recycle (readings : Nat → Int)

def notifyAll (s : State) : State :=
  { s with
    parked := []
    awake := s.awake ++ s.parked.map Prod.fst
    producerParked := false
    notified := s.pushes }

def lookAtQueue (s : State) (client : Nat) : Option State :=
  if s.base.pool.connectionQueue.isEmpty then some { s with parked := (client, s.pushes) :: s.parked }
  else do
    let base ← PoolLeases.step s.base (.getConnection client)
    some (notifyAll { s with base })

def step (s : State) : Action → Option State
  | .getConnection client => lookAtQueue s client
  | .resume client => lookAtQueue { s with awake := s.awake.erase client } client
  | .timeout client =>
      some { s with parked := s.parked.filter (fun c => c.1 ≠ client), awake := s.awake ++ [client] }
  | .release client conn now => do
      let base ← PoolLeases.step s.base (.release client conn now)
      some { s with base, pushes := s.pushes + 1 }
  | .produce conn now =>
      if !s.base.pool.connectionQueue.isEmpty then some { s with producerParked := true }
      else if s.base.pool.currentSize < s.base.pool.maxSize then do
        let base ← PoolLeases.step s.base (.produce conn now)
        some (notifyAll { s with base, pushes := s.pushes + 1 })
      else some s
  | .wakeProducer => some { s with producerParked := false }
  | .recycle readings => do
      let base ← PoolLeases.step s.base (.recycle readings)
      some { s with base }

def Allowed (s : State) : Action → Prop
  | .getConnection client => client ∉ s.parked.map Prod.fst ∧ client ∉ s.awake
  | .resume client => client ∈ s.awake
  | .timeout client => client ∈ s.parked.map Prod.fst
  | .release client conn now => PoolLeases.Allowed s.base (.release client conn now)
  | .produce conn now => s.producerParked = false ∧ PoolLeases.Allowed s.base (.produce conn now)
  | .wakeProducer => s.producerParked = true
  | .recycle _ => True

instance (s : State) : (a : Action) → Decidable (Allowed s a)
  | .getConnection client =>
      inferInstanceAs (Decidable (client ∉ s.parked.map Prod.fst ∧ client ∉ s.awake))
  | .resume client => inferInstanceAs (Decidable (client ∈ s.awake))
  | .timeout client => inferInstanceAs (Decidable (client ∈ s.parked.map Prod.fst))
  | .release client conn now => inferInstanceAs (Decidable (PoolLeases.Allowed s.base (.release client conn now)))
  | .produce conn now =>
      inferInstanceAs (Decidable (s.producerParked = false ∧ PoolLeases.Allowed s.base (.produce conn now)))
  | .wakeProducer => inferInstanceAs (Decidable (s.producerParked = true))
  | .recycle _ => .isTrue trivial

def Stranded (s : State) : Prop :=
  s.base.pool.connectionQueue ≠ [] ∧ s.notified < s.pushes ∧ ∃ c ∈ s.parked, c.2 < s.pushes

instance (s : State) : Decidable (Stranded s) :=
  inferInstanceAs (Decidable (s.base.pool.connectionQueue ≠ [] ∧ s.notified < s.pushes ∧
    ∃ c ∈ s.parked, c.2 < s.pushes))

def Unheard (s : State) : Action → Prop
  | .release _ _ _ => s.parked = []
  | _ => True

instance (s : State) : (a : Action) → Decidable (Unheard s a)
  | .release _ _ _ => inferInstanceAs (Decidable (s.parked = []))
  | .getConnection _ | .resume _ | .timeout _ | .produce _ _ | .wakeProducer | .recycle _ => .isTrue trivial

def start (p : ConnectionPool) (made : Nat) : State := ⟨⟨p, [], made⟩, [], [], false, made, 0⟩

section
variable {s : State}

theorem releaseBase {s : PoolLeases.State} {client conn : Nat} (placed : Placed s.pool (s.leases.map Prod.snd))
    (member : (client, conn) ∈ s.leases) (now : Int) :
    PoolLeases.step s (.release client conn now) =
        some { s with pool := returned s.pool conn now, leases := s.leases.erase (client, conn) } ∧
      Placed (returned s.pool conn now) ((s.leases.erase (client, conn)).map Prod.snd) := by
  obtain ⟨ok, placed'⟩ := giveBackPlaced (leasePlaced placed member) now
  refine ⟨?_, placed'⟩
  simp only [PoolLeases.step, if_pos member, ok, bind, Option.bind]

theorem basePlaced {s : PoolLeases.State} {a : PoolLeases.Action} (placed : Placed s.pool (s.leases.map Prod.snd))
    (allowed : PoolLeases.Allowed s a) :
    ∃ t, PoolLeases.step s a = some t ∧ Placed t.pool (t.leases.map Prod.snd) := by
  cases a with
  | getConnection client =>
    simp only [PoolLeases.step]
    split
    · exact ⟨s, rfl, placed⟩
    · rename_i took
      exact ⟨_, rfl, (takePlaced placed took).2.2⟩
  | release client conn now => exact ⟨_, releaseBase placed allowed now⟩
  | produce conn now =>
    obtain ⟨pool, ok, placed', _⟩ := producePlaced placed allowed now
    refine ⟨{ s with pool, created := s.created + (pool.objects.length - s.pool.objects.length) }, ?_, placed'⟩
    simp only [PoolLeases.step, ok, bind, Option.bind]
  | recycle readings =>
    obtain ⟨gone, rest, _, ok, _, _, placed'⟩ := recyclePlaced placed readings
    refine ⟨{ s with pool := removed s.pool gone rest }, ?_, placed'⟩
    simp only [PoolLeases.step, ok, bind, Option.bind]

structure Inv (s : State) : Prop where
  placed : Placed s.base.pool (s.base.leases.map Prod.snd)
  notified : s.notified ≤ s.pushes
  before : ∀ c ∈ s.parked, c.2 ≤ s.pushes

def Since (s : State) : Prop := ∀ c ∈ s.parked, c.2 = s.pushes

theorem notStranded (since : Since s) : ¬ Stranded s := by
  rintro ⟨_, _, c, member, before⟩
  rw [since c member] at before
  exact Nat.lt_irrefl _ before

theorem notifiedInv (placed : Placed s.base.pool (s.base.leases.map Prod.snd)) :
    Inv (notifyAll s) ∧ Since (notifyAll s) := by
  refine ⟨⟨placed, Nat.le_refl _, ?_⟩, ?_⟩
  · simp [notifyAll]
  · simp [Since, notifyAll]

theorem lookAtQueueInv (inv : Inv s) (client : Nat) :
    ∃ t, lookAtQueue s client = some t ∧ Inv t ∧ (Since s → Since t) := by
  unfold lookAtQueue
  split
  · refine ⟨_, rfl, ⟨inv.placed, inv.notified, ?_⟩, fun since => ?_⟩
    · exact List.forall_mem_cons.mpr ⟨Nat.le_refl _, inv.before⟩
    · exact List.forall_mem_cons.mpr ⟨rfl, since⟩
  · obtain ⟨base, ok, placed⟩ := basePlaced (a := .getConnection client) inv.placed trivial
    obtain ⟨inv', since⟩ := notifiedInv (s := { s with base }) placed
    exact ⟨notifyAll { s with base }, by simp only [ok, bind, Option.bind], inv', fun _ => since⟩

theorem stepInv {a : Action} (inv : Inv s) (allowed : Allowed s a) :
    ∃ t, step s a = some t ∧ Inv t ∧ (Since s → Unheard s a → Since t) := by
  cases a with
  | getConnection client =>
    obtain ⟨t, ok, inv', since⟩ := lookAtQueueInv inv client
    exact ⟨t, ok, inv', fun before _ => since before⟩
  | resume client =>
    obtain ⟨t, ok, inv', since⟩ := lookAtQueueInv (s := { s with awake := s.awake.erase client })
      ⟨inv.placed, inv.notified, inv.before⟩ client
    exact ⟨t, ok, inv', fun before _ => since before⟩
  | timeout client =>
    refine ⟨_, rfl, ⟨inv.placed, inv.notified, fun c member => ?_⟩, fun since _ c member => ?_⟩
    · exact inv.before c (List.mem_filter.mp member).1
    · exact since c (List.mem_filter.mp member).1
  | release client conn now =>
    obtain ⟨ok, placed⟩ := releaseBase inv.placed allowed now
    refine ⟨_, by simp only [step, ok, bind, Option.bind]; rfl, ⟨placed, Nat.le_succ_of_le inv.notified, ?_⟩,
      fun _ quiet => ?_⟩
    · exact fun c member => Nat.le_succ_of_le (inv.before c member)
    · have none : s.parked = [] := quiet
      simp [Since, none]
  | produce conn now =>
    simp only [step]
    split
    · exact ⟨_, rfl, ⟨inv.placed, inv.notified, inv.before⟩, fun since _ => since⟩
    · split
      · obtain ⟨base, ok, placed⟩ := basePlaced inv.placed allowed.2
        obtain ⟨inv', since⟩ := notifiedInv (s := { s with base, pushes := s.pushes + 1 }) placed
        exact ⟨_, by simp only [ok, bind, Option.bind], inv', fun _ _ => since⟩
      · exact ⟨s, rfl, inv, fun since _ => since⟩
  | wakeProducer => exact ⟨_, rfl, ⟨inv.placed, inv.notified, inv.before⟩, fun since _ => since⟩
  | recycle readings =>
    obtain ⟨base, ok, placed⟩ := basePlaced (a := .recycle readings) inv.placed trivial
    exact ⟨{ s with base }, by simp only [step, ok, bind, Option.bind], ⟨placed, inv.notified, inv.before⟩,
      fun since _ => since⟩

theorem heardStranded {a : Action} {t : State} (inv : Inv s) (allowed : Allowed s a) (heard : ¬ Unheard s a)
    (ok : step s a = some t) : Stranded t := by
  cases a with
  | release client conn now =>
    obtain ⟨c, member⟩ := List.exists_mem_of_ne_nil _ heard
    obtain ⟨released, _⟩ := releaseBase inv.placed allowed now
    simp only [step, released, bind, Option.bind] at ok
    rw [← Option.some.inj ok]
    refine ⟨by simp [returned], Nat.lt_succ_of_le inv.notified, c, member, ?_⟩
    exact Nat.lt_succ_of_le (inv.before c member)
  | _ => exact absurd trivial heard

theorem strandedIff {minSize : Int} (maxSize maxIdleTime : Int) {made : List (Nat × Int)}
    (new : PoolLeases.Made minSize made) :
    ∃ p, construct minSize maxSize maxIdleTime made = some p ∧ ¬ Stranded (start p made.length) ∧
      ∀ actions, Along step Allowed (start p made.length) actions →
        (∃ s, run step (start p made.length) actions = some s) ∧
        (Along step (fun s a => ∀ t, step s a = some t → ¬ Stranded t) (start p made.length) actions ↔
          Along step Unheard (start p made.length) actions) := by
  have empty : Placed ⟨minSize, maxSize, 0, maxIdleTime, [], []⟩ [] := ⟨.refl _, by simp [existing]⟩
  obtain ⟨p, ok, placed⟩ := runAddPlaced empty new.distinct (by simp [existing])
  have inv : Inv (start p made.length) := ⟨placed, Nat.zero_le _, by simp [start]⟩
  have since : Since (start p made.length) := by simp [Since, start]
  refine ⟨p, by rw [construct, if_pos new.number, ok], notStranded since, fun actions allowed => ⟨?_, ?_⟩⟩
  · obtain ⟨s, ran, _⟩ := runProgress (fun inv allowed => by
      obtain ⟨t, ok, inv', _⟩ := stepInv inv allowed
      exact ⟨t, ok, inv'⟩) inv allowed
    exact ⟨s, ran⟩
  · have each {s : State} {a : Action} (both : Inv s ∧ Since s) (allowed : Allowed s a) :
        ∃ t, step s a = some t ∧ (Unheard s a ↔ ¬ Stranded t) ∧ (¬ Stranded t → Inv t ∧ Since t) := by
      obtain ⟨t, ok, inv', kept⟩ := stepInv both.1 allowed
      have unheardOf (good : ¬ Stranded t) : Unheard s a := by
        by_contra heard
        exact good (heardStranded both.1 allowed heard ok)
      exact ⟨t, ok, ⟨fun unheard => notStranded (kept both.2 unheard), unheardOf⟩,
        fun good => ⟨inv', kept both.2 (unheardOf good)⟩⟩
    exact alongIff each ⟨inv, since⟩ allowed

/- One connection for two clients: the second waits, the first gives it back, and the
second sleeps on beside it. -/
theorem releaseUnheard :
    construct 1 1 5 [(16, 0)] = some ⟨1, 1, 2, 5, [16], [(16, ⟨0⟩)]⟩ ∧
      Along step Allowed (start ⟨1, 1, 2, 5, [16], [(16, ⟨0⟩)]⟩ 1)
        [.getConnection 0, .getConnection 1, .release 0 16 7] ∧
      ∃ s, run step (start ⟨1, 1, 2, 5, [16], [(16, ⟨0⟩)]⟩ 1)
          [.getConnection 0, .getConnection 1, .release 0 16 7] = some s ∧
        s.base.pool.connectionQueue = [16] ∧ s.parked = [(1, 1)] ∧ Stranded s := by
  refine ⟨by decide, by decide, ⟨⟨⟨1, 1, 2, 5, [16], [(16, ⟨7⟩)]⟩, [], 1⟩, [(1, 1)], [], false, 2, 1⟩, ?_⟩
  decide

theorem strandedIffSample :
    ∃ p, construct 1 1 5 [(16, 0)] = some p ∧
      Along step (fun s a => ∀ t, step s a = some t → ¬ Stranded t) (start p 1)
        [.getConnection 0, .getConnection 1, .timeout 1, .release 0 16 7, .resume 1] := by
  obtain ⟨p, ok, _, each⟩ := strandedIff 1 5 (show PoolLeases.Made 1 [(16, 0)] from ⟨rfl, by decide⟩)
  have built : construct 1 1 5 [(16, 0)] = some ⟨1, 1, 2, 5, [16], [(16, ⟨0⟩)]⟩ := by decide
  cases Option.some.inj (built.symm.trans ok)
  refine ⟨_, built, (each _ (by decide)).2.mpr ?_⟩
  decide

end

end TinyNetwork.PoolNotify
