import TinyNetwork.Runs
import TinyNetwork.TcpConnection

/-! Who owns a connection while its functors wait. Some functors bind a shared pointer
and keep the connection alive, those of send() and shutdown() bind `this` only. One
connection is followed through the user threads that call it, its own loop and the base
loop of the server; a connection without owners has been deleted. -/
namespace TinyNetwork.FunctorOwners
open Runs

/- The functors in the connection's loop. `callback` is a write-complete or high-water
callback, `other` belongs to something else. -/
inductive Functor where
  | connectEstablished
  | connectDestroyed
  | callback
  | sendInLoop
  | shutdownInLoop
  | other
  deriving DecidableEq, Repr

/- Bound with `this`. -/
def Functor.raw : Functor → Bool
  | .sendInLoop | .shutdownInLoop => true
  | _ => false

/- Bound with a TcpConnectionPtr. -/
def Functor.shared : Functor → Bool
  | .connectEstablished | .connectDestroyed | .callback => true
  | _ => false

inductive Op where
  | send
  | shutdown
  deriving DecidableEq, Repr

def Op.functor : Op → Functor
  | .send => .sendInLoop
  | .shutdown => .shutdownInLoop

inductive Stage where
  | entered
  | tested
  | stored
  | returning
  deriving DecidableEq, Repr

/- A user thread inside a call, with a TcpConnectionPtr of its own. -/
structure Caller where
  op : Op
  stage : Stage
  deriving DecidableEq, Repr

/- `removals` are removeConnectionInLoop functors in the base loop, `removed` those that
have run and are not yet deleted with their batch; `closing` is an event in handleClose,
which holds the connection through the guard of its channel. doPendingFunctors has run
`ran` of its batch and `rest` not yet, and deletes them all at its end. `executed` has
the number of owners at each execution of a raw functor. -/
structure State where
  sameLoop : Bool
  state : StateE
  registered : Bool
  callers : List Caller
  closing : Bool
  removals : Nat
  removed : Nat
  pendingFunctors : List Functor
  rest : List Functor
  ran : List Functor
  executed : List Nat
  deriving DecidableEq, Repr

def owners (s : State) : Nat :=
  s.registered.toNat + s.callers.length + s.closing.toNat + s.removals + s.removed +
    (s.pendingFunctors ++ s.rest ++ s.ran).countP Functor.shared

inductive Action where
  | enter (op : Op)
  | test (i : Nat)
  | store (i : Nat)
  | push (i : Nat)
  | leave (i : Nat)
  | handleClose
  | closeCallback
  | removeConnectionInLoop
  | endBaseBatch
  | swap
  | functor
  | endBatch
  | shutdownHere
  | queueCallback
  | queueOther
  deriving DecidableEq, Repr

def queueInLoop (s : State) (f : Functor) : State := { s with pendingFunctors := s.pendingFunctors ++ [f] }

def moved (s : State) (i : Nat) (c : Caller) (stage : Stage) : State :=
  { s with callers := s.callers.set i { c with stage } }

def removeConnectionInLoop (s : State) : State := queueInLoop { s with registered := false } .connectDestroyed

def execute (s : State) (f : Functor) : State :=
  match f with
  | .connectEstablished => { s with state := .kConnected }
  | .connectDestroyed => if s.state = .kConnected then { s with state := .kDisconnected } else s
  | .callback | .other => s
  | .sendInLoop | .shutdownInLoop => { s with executed := s.executed ++ [owners s] }

/- What a callback of the user, an event or a functor does in the loop thread besides
(`shutdownHere`, `queueCallback`) needs a connection that is still there. -/
def step (s : State) : Action → Option State
  | .enter op => if 0 < owners s then some { s with callers := s.callers ++ [⟨op, .entered⟩] } else none
  | .test i => do
      let c ← s.callers[i]?
      if c.stage = .entered then
        some (moved s i c (if s.state = .kConnected then .tested else .returning))
      else none
  | .store i => do
      let c ← s.callers[i]?
      if c.op = .shutdown ∧ c.stage = .tested then some (moved { s with state := .kDisconnecting } i c .stored)
      else none
  | .push i => do
      let c ← s.callers[i]?
      if (c.op = .send ∧ c.stage = .tested) ∨ c.stage = .stored then
        some (queueInLoop (moved s i c .returning) c.op.functor)
      else none
  | .leave i => do
      let c ← s.callers[i]?
      if c.stage = .returning then some { s with callers := s.callers.eraseIdx i } else none
  | .handleClose =>
      -- the poller knows the channel since connectEstablished
      if 0 < owners s ∧ s.state ≠ .kConnecting ∧ s.closing = false then
        some { s with state := .kDisconnected, closing := true }
      else none
  | .closeCallback =>
      if s.closing then
        let s := { s with closing := false }
        -- runInLoop of the base loop: at once in its own thread
        if s.sameLoop then some (removeConnectionInLoop s) else some { s with removals := s.removals + 1 }
      else none
  | .removeConnectionInLoop =>
      if 0 < s.removals then
        some (removeConnectionInLoop { s with removals := s.removals - 1, removed := s.removed + 1 })
      else none
  | .endBaseBatch => some { s with removed := 0 }
  | .swap =>
      if s.rest = [] ∧ s.ran = [] then some { s with pendingFunctors := [], rest := s.pendingFunctors } else none
  | .functor =>
      match s.rest with
      | [] => none
      | f :: rest => some { execute s f with rest, ran := s.ran ++ [f] }
  | .endBatch => if s.rest = [] then some { s with ran := [] } else none
  | .shutdownHere =>
      if 0 < owners s ∧ s.state = .kConnected then some { s with state := .kDisconnecting } else none
  | .queueCallback => if 0 < owners s then some (queueInLoop s .callback) else none
  | .queueOther => some (queueInLoop s .other)

def start (sameLoop : Bool) : State :=
  ⟨sameLoop, if sameLoop then .kConnected else .kConnecting, true, [], false, 0, 0,
    if sameLoop then [] else [.connectEstablished], [], [], []⟩

def Awaited (s : State) : Prop := s.registered = true ∨ 0 < s.removals
instance (s : State) : Decidable (Awaited s) := by unfold Awaited; infer_instance

def InTime (s : State) : Action → Prop
  | .push _ => Awaited s ∨ .connectDestroyed ∈ s.pendingFunctors
  | _ => True

instance (s : State) : (a : Action) → Decidable (InTime s a)
  | .push _ => inferInstanceAs (Decidable (Awaited s ∨ .connectDestroyed ∈ s.pendingFunctors))
  | .enter _ | .test _ | .store _ | .leave _ | .handleClose | .closeCallback | .removeConnectionInLoop
  | .endBaseBatch | .swap | .functor | .endBatch | .shutdownHere | .queueCallback | .queueOther => .isTrue trivial

/- Beside every raw functor there is a connectDestroyed: in the queue, or for one of the
batch in the batch or in the queue. The batch is deleted as a whole. -/
structure Guarded (s : State) : Prop where
  queued : ∀ f ∈ s.pendingFunctors, f.raw = true → .connectDestroyed ∈ s.pendingFunctors
  batch : ∀ f ∈ s.rest, f.raw = true → .connectDestroyed ∈ s.pendingFunctors ++ s.rest ++ s.ran

structure Inv (s : State) : Prop where
  covered : Awaited s ∨ Guarded s
  executed : ∀ n ∈ s.executed, 0 < n

theorem ownedAwaited {s : State} (awaited : Awaited s) : 0 < owners s := by
  unfold owners
  rcases awaited with registered | removals
  · rw [registered, Bool.toNat_true]
    omega
  · omega

theorem ownedShared {s : State} {f : Functor} (shared : f.shared = true)
    (member : f ∈ s.pendingFunctors ++ s.rest ++ s.ran) : 0 < owners s := by
  have counted := List.countP_pos_iff.mpr ⟨f, member, shared⟩
  unfold owners
  omega

theorem headOwned {s : State} (inv : Inv s) {f : Functor} {rest : List Functor} (head : s.rest = f :: rest)
    (bare : f.raw = true) : 0 < owners s := by
  rcases inv.covered with awaited | guarded
  · exact ownedAwaited awaited
  · exact ownedShared rfl (guarded.batch f (by simp [head]) bare)

theorem queueInv {s : State} (inv : Inv s) {f : Functor}
    (inTime : f.raw = false ∨ Awaited s ∨ .connectDestroyed ∈ s.pendingFunctors) : Inv (queueInLoop s f) := by
  refine ⟨?_, inv.executed⟩
  rcases inv.covered with awaited | guarded
  · exact .inl awaited
  · rcases inTime with owning | awaited | queued
    · refine .inr ⟨?_, fun g member bare => ?_⟩
      · simp only [queueInLoop, List.forall_mem_append, List.forall_mem_singleton]
        refine ⟨fun g member bare => List.mem_append_left _ (guarded.queued g member bare), fun bare => ?_⟩
        simp [owning] at bare
      · have behind := guarded.batch g member bare
        simp only [queueInLoop, List.mem_append] at behind ⊢
        tauto
    · exact .inl awaited
    · refine .inr ⟨fun _ _ _ => List.mem_append_left _ queued, fun _ _ _ => ?_⟩
      exact List.mem_append_left _ (List.mem_append_left _ (List.mem_append_left _ queued))

theorem removeInv {s : State} (inv : Inv s) (removals removed : Nat) (closing : Bool) :
    Inv (removeConnectionInLoop { s with removals, removed, closing }) := by
  have queued : .connectDestroyed ∈ s.pendingFunctors ++ [.connectDestroyed] := by simp
  refine ⟨.inr ⟨fun _ _ _ => queued, fun _ _ _ => ?_⟩, inv.executed⟩
  exact List.mem_append_left _ (List.mem_append_left _ queued)

theorem sameInv {s t : State} (inv : Inv s) (registered : t.registered = s.registered)
    (removals : s.removals ≤ t.removals) (pending : t.pendingFunctors = s.pendingFunctors) (rest : t.rest = s.rest)
    (ran : t.ran = s.ran) (executed : t.executed = s.executed) : Inv t := by
  refine ⟨?_, executed ▸ inv.executed⟩
  rcases inv.covered with awaited | guarded
  · refine .inl ?_
    rw [Awaited, registered]
    exact awaited.imp_right (Nat.lt_of_lt_of_le · removals)
  · refine .inr ⟨?_, ?_⟩
    · rw [pending]
      exact guarded.queued
    · rw [pending, rest, ran]
      exact guarded.batch

theorem functorInv {s : State} (inv : Inv s) {f : Functor} {rest : List Functor} (head : s.rest = f :: rest) :
    Inv { execute s f with rest, ran := s.ran ++ [f] } := by
  have guarded (g : Guarded s) : Guarded { s with rest, ran := s.ran ++ [f] } := by
    refine ⟨g.queued, fun later member bare => ?_⟩
    have behind := g.batch later (by rw [head]; exact List.mem_cons_of_mem _ member) bare
    rw [head] at behind
    simp only [List.mem_append, List.mem_cons, List.not_mem_nil, or_false] at behind ⊢
    tauto
  have covered : Awaited s ∨ Guarded { s with rest, ran := s.ran ++ [f] } := inv.covered.imp_right guarded
  have owned (bare : f.raw = true) : ∀ n ∈ s.executed ++ [owners s], 0 < n := by
    simp only [List.forall_mem_append, List.forall_mem_singleton]
    exact ⟨inv.executed, headOwned inv head bare⟩
  have keeps (state : StateE) (executed : List Nat) (positive : ∀ n ∈ executed, 0 < n) :
      Inv { s with rest, ran := s.ran ++ [f], state, executed } :=
    ⟨covered.imp_right fun g => ⟨g.queued, g.batch⟩, positive⟩
  cases f with
  | connectEstablished | callback | other => exact keeps _ _ inv.executed
  | connectDestroyed =>
    unfold execute
    simp only
    split <;> exact keeps _ _ inv.executed
  | sendInLoop | shutdownInLoop => exact keeps _ _ (owned rfl)

theorem stepInv {s t : State} {a : Action} (inv : Inv s) (inTime : InTime s a) (ok : step s a = some t) : Inv t := by
  cases a with
  | enter | handleClose | shutdownHere =>
    obtain ⟨_, last⟩ := Option.ite_none_right_eq_some.mp ok
    rw [← Option.some.inj last]
    exact sameInv inv rfl (Nat.le_refl _) rfl rfl rfl rfl
  | test | store | leave =>
    obtain ⟨c, _, ok⟩ := Option.bind_eq_some_iff.mp ok
    obtain ⟨_, last⟩ := Option.ite_none_right_eq_some.mp ok
    rw [← Option.some.inj last]
    exact sameInv inv rfl (Nat.le_refl _) rfl rfl rfl rfl
  | push i =>
    obtain ⟨c, _, ok⟩ := Option.bind_eq_some_iff.mp ok
    obtain ⟨_, last⟩ := Option.ite_none_right_eq_some.mp ok
    rw [← Option.some.inj last]
    have returning : Inv (moved s i c .returning) := sameInv inv rfl (Nat.le_refl _) rfl rfl rfl rfl
    exact queueInv returning (.inr inTime)
  | closeCallback =>
    obtain ⟨_, ok⟩ := Option.ite_none_right_eq_some.mp ok
    simp only at ok
    split at ok
    · rw [← Option.some.inj ok]
      exact removeInv inv s.removals s.removed false
    · rw [← Option.some.inj ok]
      exact sameInv inv rfl (Nat.le_succ _) rfl rfl rfl rfl
  | removeConnectionInLoop =>
    obtain ⟨_, last⟩ := Option.ite_none_right_eq_some.mp ok
    rw [← Option.some.inj last]
    exact removeInv inv (s.removals - 1) (s.removed + 1) s.closing
  | endBaseBatch =>
    rw [← Option.some.inj ok]
    exact sameInv inv rfl (Nat.le_refl _) rfl rfl rfl rfl
  | swap =>
    obtain ⟨_, last⟩ := Option.ite_none_right_eq_some.mp ok
    rw [← Option.some.inj last]
    refine ⟨inv.covered.imp_right fun guarded => ⟨nofun, fun f member bare => ?_⟩, inv.executed⟩
    exact List.mem_append_left _ (guarded.queued f member bare)
  | functor =>
    simp only [step] at ok
    split at ok
    · contradiction
    · rename_i f rest head
      rw [← Option.some.inj ok]
      exact functorInv inv head
  | endBatch =>
    obtain ⟨empty, last⟩ := Option.ite_none_right_eq_some.mp ok
    rw [← Option.some.inj last]
    exact ⟨inv.covered.imp_right fun guarded => ⟨guarded.queued, by simp [empty]⟩, inv.executed⟩
  | queueCallback =>
    obtain ⟨_, last⟩ := Option.ite_none_right_eq_some.mp ok
    rw [← Option.some.inj last]
    exact queueInv inv (.inl rfl)
  | queueOther =>
    rw [← Option.some.inj ok]
    exact queueInv inv (.inl rfl)

theorem rawFunctorsOwned (sameLoop : Bool) {actions : List Action} {last : State}
    (inTime : Along step InTime (start sameLoop) actions) (done : run step (start sameLoop) actions = some last) :
    ∀ n ∈ last.executed, 0 < n := by
  have first : Inv (start sameLoop) := ⟨.inl (.inl rfl), by simp [start]⟩
  exact (runInvariantAlong stepInv first inTime done).executed

def sampleTested : List Action := [.swap, .functor, .endBatch, .enter .send, .test 0]

def sampleClosed : List Action :=
  [.handleClose, .closeCallback, .removeConnectionInLoop, .endBaseBatch, .swap, .functor, .endBatch]

theorem rawFunctorsOwnedSample :
    ∃ last, run step (start false) (sampleTested ++ [.push 0, .leave 0, .swap, .functor]) = some last ∧
      last.executed = [1] ∧ ∀ n ∈ last.executed, 0 < n := by
  have inTime : Along step InTime (start false) (sampleTested ++ [.push 0, .leave 0, .swap, .functor]) := by decide
  refine ⟨_, rfl, by decide, rawFunctorsOwned false inTime rfl⟩

theorem rawFunctorOrphaned :
    ∃ last, run step (start false) (sampleTested ++ sampleClosed ++ [.push 0, .leave 0, .swap, .functor]) = some last ∧
      last.executed = [0] := by
  exact ⟨_, rfl, by decide⟩

end TinyNetwork.FunctorOwners
