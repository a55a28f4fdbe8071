import TinyNetwork.FunctorQueue
import TinyNetwork.OutgoingStream

/-! Messages of several threads on one connection. A thread of its own tests the state,
binds its message and queues it; the loop thread sends at once. Whatever the interleaving
and the writes are, messages are never mixed, and those of one thread stay in their order. -/
namespace TinyNetwork.MessageOrder
open Runs EventLoop FunctorQueue OutgoingStream

variable {τ : Type}

structure Message (τ : Type) where
  sender : Option τ
  data : Bytes
  deriving DecidableEq, Repr

/- `flights` are the calls of other threads between the test of state_ and the push, `sent`
the calls that passed the test, `delivered` the messages in the order of their sendInLoop.
A functor that is no message of this connection is `none`. -/
structure State (τ : Type) where
  queue : FunctorQueue.State (Option (Message τ))
  world : World
  flights : List (Message τ)
  sent : List (Message τ)
  delivered : List (Message τ)

inductive Action (τ : Type) where
  | send (sender : τ) (data : Bytes)
  | push (position : Nat)
  | wake
  | queueOther
  | queueOtherInLoop
  | wakeInLoop
  | quit (inLoopThread : Bool)
  | advance (reported : List Active) (outcome : WriteOutcome)
  | sendHere (data : Bytes) (outcome : WriteOutcome)
  | handleWrite (outcome : WriteOutcome)
  | shutdown
  deriving DecidableEq, Repr

def moved (s : State τ) (a : FunctorQueue.Action (Option (Message τ))) : Option (State τ) := do
  let queue ← FunctorQueue.step s.queue a
  some { s with queue }

def deliver (s : State τ) (m : Message τ) (outcome : WriteOutcome) : Option (State τ) := do
  let world ← OutgoingStream.step s.world (.sendInLoop m.data outcome)
  some { s with world, delivered := s.delivered ++ [m] }

def step [DecidableEq τ] (s : State τ) : Action τ → Option (State τ)
  | .send sender data =>
      -- a thread makes one call after the other
      if s.flights.any (fun m => m.sender = some sender) then none
      else if s.world.conn.state = .kConnected then
        some { s with flights := s.flights ++ [⟨some sender, data⟩], sent := s.sent ++ [⟨some sender, data⟩] }
      else some s
  | .push position => do
      let m ← s.flights[position]?
      let s ← moved s (.push (some m))
      some { s with flights := s.flights.eraseIdx position }
  | .wake => moved s .wake
  | .queueOther => moved s (.push none)
  | .queueOtherInLoop => moved s (.pushInLoop none)
  | .wakeInLoop => moved s .wakeInLoop
  | .quit inLoopThread => moved s (.quit inLoopThread)
  | .advance reported outcome => do
      let t ← moved s (.advance reported)
      match called s.queue.loop with
      | [some m] => deliver t m outcome
      | _ => some t
  | .sendHere data outcome =>
      if s.queue.loop.inUserCode then
        if s.world.conn.state = .kConnected then
          deliver { s with sent := s.sent ++ [⟨none, data⟩] } ⟨none, data⟩ outcome
        else some s
      else none
  | .handleWrite outcome =>
      if s.queue.loop.inUserCode then do
        let world ← OutgoingStream.step s.world (.handleWrite outcome)
        some { s with world }
      else none
  | .shutdown =>
      if s.queue.loop.inUserCode then do
        let world ← OutgoingStream.step s.world .shutdown
        some { s with world }
      else none

def start (fd : Nat) (writeComplete highWater : Bool) (mark : Nat) : State τ :=
  ⟨FunctorQueue.start, established fd writeComplete highWater mark, [], [], []⟩

def ahead {α : Type} (q : FunctorQueue.State α) : List α := remaining q.loop ++ q.loop.pendingFunctors

def waiting (q : FunctorQueue.State (Option (Message τ))) : List (Message τ) := (ahead q).filterMap id

def bySender [DecidableEq τ] (sender : Option τ) (messages : List (Message τ)) : List (Message τ) :=
  messages.filter (fun m => m.sender = sender)

section
variable [DecidableEq τ] {s t : State τ} {sender : Option τ}

@[simp] theorem bySenderAppend (sender : Option τ) (first second : List (Message τ)) :
    bySender sender (first ++ second) = bySender sender first ++ bySender sender second :=
  List.filter_append first second

theorem bySenderErase {flights : List (Message τ)} (apart : (flights.map Message.sender).Nodup) {position : Nat}
    {m : Message τ} (found : flights[position]? = some m) :
    bySender sender (m :: flights.eraseIdx position) = bySender sender flights := by
  induction flights generalizing position with
  | nil => simp at found
  | cons first rest ih =>
    obtain ⟨alone, apart⟩ := List.nodup_cons.mp apart
    cases position with
    | zero =>
      cases Option.some.inj found
      rfl
    | succ position =>
      rw [List.getElem?_cons_succ] at found
      have other : first.sender ≠ m.sender := by
        intro same
        exact alone (same ▸ List.mem_map_of_mem (List.mem_of_getElem? found))
      have rest := ih apart found
      rw [List.eraseIdx_cons_succ]
      simp only [bySender, List.filter_cons, decide_eq_true_eq] at rest ⊢
      by_cases mine : first.sender = sender
      · have notMine : m.sender ≠ sender := fun same => other (mine.trans same.symm)
        rw [if_neg notMine] at rest ⊢
        rw [rest]
      · rw [if_neg mine, if_neg mine, rest]

structure Inv (s : State τ) : Prop where
  queue : FunctorQueue.Inv s.queue
  world : OutgoingStream.Inv s.world
  handed : s.world.handed = s.delivered.flatMap Message.data
  apart : (s.flights.map Message.sender).Nodup
  foreign : ∀ m ∈ waiting s.queue ++ s.flights, m.sender ≠ none
  order : ∀ sender, bySender sender (s.delivered ++ waiting s.queue ++ s.flights) = bySender sender s.sent

theorem startInv (fd : Nat) (writeComplete highWater : Bool) (mark : Nat) :
    Inv (start fd writeComplete highWater mark : State τ) :=
  ⟨FunctorQueue.startInv, establishedInv .., rfl, .nil, fun _ member => absurd member List.not_mem_nil, fun _ => rfl⟩

end

def callsOf {α : Type} (q : FunctorQueue.State α) : FunctorQueue.Action α → List α
  | .advance _ => called q.loop
  | _ => []

def pushesOf {α : Type} : FunctorQueue.Action α → List α
  | .push cb => [cb]
  | .pushInLoop cb => [cb]
  | _ => []

section Queue
variable {α : Type} {q u : FunctorQueue.State α} {a : FunctorQueue.Action α}

theorem stepHistory (ok : FunctorQueue.step q a = some u) :
    u.executed = q.executed ++ callsOf q a ∧ u.pushed = q.pushed ++ pushesOf a := by
  cases a with
  | advance reported =>
    simp only [FunctorQueue.step] at ok
    split at ok <;> try contradiction
    obtain ⟨loop, -, same⟩ := Option.bind_eq_some_iff.mp ok
    rw [← Option.some.inj same]
    exact ⟨rfl, (List.append_nil _).symm⟩
  | push cb =>
    rw [← Option.some.inj ok]
    exact ⟨(List.append_nil _).symm, rfl⟩
  | pushInLoop cb =>
    simp only [FunctorQueue.step] at ok
    split at ok <;> try contradiction
    rw [← Option.some.inj ok]
    exact ⟨(List.append_nil _).symm, rfl⟩
  | wake | wakeInLoop =>
    simp only [FunctorQueue.step] at ok
    split at ok <;> try contradiction
    rw [← Option.some.inj ok]
    exact ⟨(List.append_nil _).symm, (List.append_nil _).symm⟩
  | quit inLoopThread =>
    rw [← Option.some.inj ok]
    exact ⟨(List.append_nil _).symm, (List.append_nil _).symm⟩

theorem stepAhead (inv : FunctorQueue.Inv q) (ok : FunctorQueue.step q a = some u) :
    FunctorQueue.Inv u ∧ callsOf q a ++ ahead u = ahead q ++ pushesOf a := by
  have next := FunctorQueue.stepInv inv ok
  obtain ⟨executed, pushed⟩ := stepHistory ok
  have whole : q.executed ++ (callsOf q a ++ ahead u) = q.executed ++ (ahead q ++ pushesOf a) :=
    calc q.executed ++ (callsOf q a ++ ahead u)
        = u.executed ++ remaining u.loop ++ u.loop.pendingFunctors := by simp [executed, ahead]
      _ = q.executed ++ remaining q.loop ++ q.loop.pendingFunctors ++ pushesOf a := by
        rw [next.order, pushed, inv.order]
      _ = q.executed ++ (ahead q ++ pushesOf a) := by simp [ahead]
  exact ⟨next, List.append_cancel_left whole⟩

end Queue

section Steps
variable {s t : State τ} {m : Message τ} {outcome : WriteOutcome}

theorem movedSpec (inv : FunctorQueue.Inv s.queue) {a : FunctorQueue.Action (Option (Message τ))}
    (ok : moved s a = some t) :
    ∃ queue, t = { s with queue } ∧ FunctorQueue.Inv queue ∧
      (callsOf s.queue a).filterMap id ++ waiting t.queue = waiting s.queue ++ (pushesOf a).filterMap id := by
  obtain ⟨queue, moved, same⟩ := Option.bind_eq_some_iff.mp ok
  obtain ⟨next, ahead⟩ := stepAhead inv moved
  refine ⟨queue, (Option.some.inj same).symm, next, ?_⟩
  rw [← Option.some.inj same, waiting, waiting, ← List.filterMap_append, ← List.filterMap_append, ahead]

theorem deliverSpec (world : OutgoingStream.Inv s.world) (ok : deliver s m outcome = some t) :
    ∃ after, t = { s with world := after, delivered := s.delivered ++ [m] } ∧ OutgoingStream.Inv after ∧
      after.handed = s.world.handed ++ m.data := by
  obtain ⟨after, sent, same⟩ := Option.bind_eq_some_iff.mp ok
  refine ⟨after, (Option.some.inj same).symm, OutgoingStream.stepInv world sent, ?_⟩
  obtain ⟨⟨conn, effects⟩, -, last⟩ := Option.bind_eq_some_iff.mp sent
  rw [← Option.some.inj last]

theorem calledOther {l : EventLoop (Option (Message τ))} (other : ∀ m, called l ≠ [some m]) :
    (called l).filterMap id = [] := by
  unfold called
  split
  · rename_i f _ phase
    cases f with
    | none => rfl
    | some m => exact absurd (by rw [called, phase]) (other m)
  · rfl

variable [DecidableEq τ]

theorem movedInv (inv : Inv s) {a : FunctorQueue.Action (Option (Message τ))} (ok : moved s a = some t)
    (calls : (callsOf s.queue a).filterMap id = []) (pushes : (pushesOf a).filterMap id = []) : Inv t := by
  obtain ⟨queue, rfl, next, waits⟩ := movedSpec inv.queue ok
  rw [calls, pushes, List.nil_append, List.append_nil] at waits
  refine ⟨next, inv.world, inv.handed, inv.apart, ?_, ?_⟩
  · rw [waits]
    exact inv.foreign
  · rw [waits]
    exact inv.order

theorem advanceInv (inv : Inv s) {reported : List Active}
    (ok : step s (.advance reported outcome) = some t) : Inv t := by
  obtain ⟨u, go, rest⟩ := Option.bind_eq_some_iff.mp ok
  split at rest
  · rename_i m calls
    obtain ⟨queue, rfl, next, waits⟩ := movedSpec inv.queue go
    obtain ⟨world, rfl, world', handed⟩ := deliverSpec (s := { s with queue }) inv.world rest
    have front : waiting s.queue = m :: waiting queue := by
      simpa [callsOf, pushesOf, calls] using waits.symm
    refine ⟨next, world', ?_, inv.apart, fun other member => ?_, fun sender => ?_⟩
    · simp [handed, inv.handed]
    · refine inv.foreign other ?_
      rw [front]
      exact List.mem_cons_of_mem _ member
    · have order := inv.order sender
      rw [front, List.append_cons] at order
      exact order
  · rename_i other
    cases Option.some.inj rest
    exact movedInv inv go (calledOther other) rfl

theorem sendInv (inv : Inv s) {sender : τ} {data : Bytes} (ok : step s (.send sender data) = some t) : Inv t := by
  simp only [step, Option.ite_none_left_eq_some, List.any_eq_true, decide_eq_true_eq, not_exists, not_and] at ok
  obtain ⟨idle, ok⟩ := ok
  split at ok
  · rw [← Option.some.inj ok]
    refine ⟨inv.queue, inv.world, inv.handed, ?_, ?_, fun other => ?_⟩
    · rw [List.map_append, List.nodup_append]
      refine ⟨inv.apart, List.pairwise_singleton _ _, fun a old b new same => ?_⟩
      obtain ⟨m, member, rfl⟩ := List.mem_map.mp old
      exact idle m member (same.trans (List.mem_singleton.mp new))
    · rw [← List.append_assoc]
      exact List.forall_mem_append.mpr ⟨inv.foreign, List.forall_mem_singleton.mpr (Option.some_ne_none _)⟩
    · have order := inv.order other
      simp only [bySenderAppend, List.append_assoc] at order ⊢
      simp only [← List.append_assoc] at order ⊢
      exact congrArg (· ++ _) order
  · cases Option.some.inj ok
    exact inv

theorem pushInv (inv : Inv s) {position : Nat} (ok : step s (.push position) = some t) : Inv t := by
  obtain ⟨m, found, rest⟩ := Option.bind_eq_some_iff.mp ok
  obtain ⟨u, go, same⟩ := Option.bind_eq_some_iff.mp rest
  obtain ⟨queue, rfl, next, waits⟩ := movedSpec inv.queue go
  rw [← Option.some.inj same]
  have waits : waiting queue = waiting s.queue ++ [m] := waits
  refine ⟨next, inv.world, inv.handed, inv.apart.sublist ((List.eraseIdx_sublist _ _).map _), ?_, fun sender => ?_⟩
  · rw [waits]
    intro other member
    simp only [List.mem_append, List.mem_singleton] at member
    refine inv.foreign other (List.mem_append.mpr ?_)
    rcases member with (old | rfl) | rest
    · exact .inl old
    · exact .inr (List.mem_of_getElem? found)
    · exact .inr (List.mem_of_mem_eraseIdx rest)
  · have order := inv.order sender
    rw [bySenderAppend, ← bySenderErase inv.apart found, ← bySenderAppend] at order
    rw [waits]
    simpa using order

theorem sendHereInv (inv : Inv s) {data : Bytes} (ok : step s (.sendHere data outcome) = some t) : Inv t := by
  simp only [step] at ok
  split at ok <;> try contradiction
  split at ok
  · obtain ⟨world, rfl, next, handed⟩ := deliverSpec (s := { s with sent := s.sent ++ [_] }) inv.world ok
    refine ⟨inv.queue, next, by simp [handed, inv.handed], inv.apart, inv.foreign, fun sender => ?_⟩
    obtain ⟨queued, flying⟩ := List.forall_mem_append.mp inv.foreign
    have order := inv.order sender
    simp only [bySenderAppend] at order ⊢
    by_cases mine : none = sender
    · have others (messages : List (Message τ)) (foreign : ∀ m ∈ messages, m.sender ≠ none) :
          bySender sender messages = [] := by
        refine List.filter_eq_nil_iff.mpr fun m member => ?_
        rw [← mine, decide_eq_true_eq]
        exact foreign m member
      rw [others _ queued, others _ flying, List.append_nil, List.append_nil] at order ⊢
      rw [order]
    · have elsewhere : bySender sender [(⟨none, data⟩ : Message τ)] = [] := by
        simp [bySender, mine]
      rw [elsewhere, List.append_nil, List.append_nil]
      exact order
  · cases Option.some.inj ok
    exact inv

theorem worldInv (inv : Inv s) {a : OutgoingStream.Action} {world : World}
    (ok : OutgoingStream.step s.world a = some world) (handed : world.handed = s.world.handed) :
    Inv { s with world } :=
  ⟨inv.queue, OutgoingStream.stepInv inv.world ok, handed.trans inv.handed, inv.apart, inv.foreign, inv.order⟩

theorem stepInv {a : Action τ} (inv : Inv s) (ok : step s a = some t) : Inv t := by
  cases a with
  | send sender data => exact sendInv inv ok
  | push position => exact pushInv inv ok
  | advance reported outcome => exact advanceInv inv ok
  | sendHere data outcome => exact sendHereInv inv ok
  | wake | queueOther | queueOtherInLoop | wakeInLoop | quit => exact movedInv inv ok rfl rfl
  | handleWrite outcome =>
    simp only [step] at ok
    split at ok <;> try contradiction
    obtain ⟨world, written, same⟩ := Option.bind_eq_some_iff.mp ok
    cases Option.some.inj same
    refine worldInv inv written ?_
    obtain ⟨⟨conn, effects⟩, -, last⟩ := Option.bind_eq_some_iff.mp written
    rw [← Option.some.inj last]
  | shutdown =>
    simp only [step] at ok
    split at ok <;> try contradiction
    cases Option.some.inj ok
    exact worldInv inv (a := .shutdown) rfl rfl

end Steps

/- What the peer gets is whole messages one after the other. Of each thread they are the
messages it sent, in its order, from the first one on; what is missing is in the queue or
in the thread's hands, and a queue with messages is never left to sleep. -/
structure Ordered [DecidableEq τ] (s : State τ) : Prop where
  whole : ¬ Broken s.world.trace →
    accepted s.world.trace ++ s.world.conn.outputBuffer.readable = s.delivered.flatMap Message.data
  order : ∀ sender, bySender sender (s.delivered ++ waiting s.queue ++ s.flights) = bySender sender s.sent
  front : ∀ sender, bySender sender s.delivered <+: bySender sender s.sent
  awake : s.queue.loop.phase = .polling → waiting s.queue ≠ [] →
    0 < s.queue.loop.wakeupFd ∨ 0 < s.queue.producers

theorem invOrdered [DecidableEq τ] {s : State τ} (inv : Inv s) : Ordered s where
  whole intact := (inv.world.stream intact).trans inv.handed
  order := inv.order
  front sender := by
    rw [← inv.order sender, List.append_assoc, bySenderAppend]
    exact List.prefix_append _ _
  awake polling some_ := by
    have free := pollingFree inv.queue polling
    have queued : s.queue.loop.pendingFunctors ≠ [] := by
      intro empty
      refine some_ ?_
      rw [waiting, ahead, empty, remaining, polling]
      rfl
    rcases inv.queue.awake (by rw [swapped, polling]) queued with counter | producer | owing
    · exact .inl counter
    · exact .inr producer
    · rw [free] at owing
      contradiction

theorem messagesOrdered [DecidableEq τ] {fd : Nat} {writeComplete highWater : Bool} {mark : Nat}
    {actions : List (Action τ)} {s : State τ}
    (ok : run step (start fd writeComplete highWater mark) actions = some s) : Ordered s :=
  invOrdered (runInvariant stepInv (startInv fd writeComplete highWater mark) ok)

def sampleRun : List (Action Nat) :=
  [.advance [] (.wrote 0), .send 1 (ascii "one"), .send 2 (ascii "two"), .push 1, .wake,
    .advance [.wakeup, .callback] (.wrote 0), .advance [] (.wrote 0), .sendHere (ascii "here") (.wrote 1), .push 0,
    .wake] ++ List.replicate 7 (.advance [] (.wrote 0))

theorem messagesOrderedSample :
    ∃ s, run step (start 5 false false 64) sampleRun = some s ∧
      (accepted s.world.trace, s.delivered.map Message.sender) = (ascii "h", [none, some 2, some 1]) ∧ Ordered s := by
  have seen : (run step (start 5 false false 64) sampleRun).map
      (fun s => (accepted s.world.trace, s.delivered.map Message.sender)) =
        some (ascii "h", [none, some 2, some 1]) := by decide +kernel
  obtain ⟨s, ok, same⟩ := Option.map_eq_some_iff.mp seen
  exact ⟨s, ok, same, messagesOrdered ok⟩

end TinyNetwork.MessageOrder
