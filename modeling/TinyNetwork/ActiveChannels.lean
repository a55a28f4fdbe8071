import TinyNetwork.ServerDescriptors

/-! The active channels of the loops. A poll fills a list of bare pointers, and the loop
handles them one by one before it calls its functors. A connection loses its channel in a
functor of its own loop only, so no pointer of the list is ever left dangling. -/
namespace TinyNetwork.ActiveChannels
open Runs TcpServer ServerDescriptors

/- `active` are the channels of a poll that are still to be handled, by their connections,
`current` the one that handleEvent was called on. -/
structure State where
  server : ServerDescriptors.State
  active : Nat → List Nat
  current : Nat → Option Nat

inductive Action where
  | poll (loop : Nat) (channels : List Nat)
  | handleEvent (loop : Nat)
  | removeConnection (loop : Nat)
  | finish (loop : Nat)
  | runFunctor (loop : Nat)
  | handleRead (connfd : Option Nat)
  | destroy
  | destroyNext (conn : Nat)
  deriving DecidableEq, Repr

def registered (s : TcpServer) (loop conn : Nat) : Bool :=
  s.trace.contains (loop, .connectEstablished conn) && !s.trace.contains (loop, .connectDestroyed conn)

def idle (s : State) (loop : Nat) : Bool := (s.active loop).isEmpty && (s.current loop).isNone

def free (s : State) (loop : Nat) : Bool := loop != 0 || s.server.server.ending.isEmpty

def serve (s : State) (a : ServerDescriptors.Action) : Option State := do
  let server ← ServerDescriptors.step s.server a
  some { s with server }

def step (s : State) : Action → Option State
  | .poll loop channels =>
      if idle s loop && free s loop && channels.all (registered s.server.server loop) then
        some { s with active := Function.update s.active loop channels }
      else none
  | .handleEvent loop =>
      match s.active loop, s.current loop with
      | conn :: rest, none =>
          if free s loop then
            some { s with
              active := Function.update s.active loop rest
              current := Function.update s.current loop (some conn) }
          else none
      | _, _ => none
  | .removeConnection loop =>
      match s.current loop with
      | some conn => serve s (.server (.removeConnection loop conn))
      | none => none
  | .finish loop => some { s with current := Function.update s.current loop none }
  | .runFunctor loop => if idle s loop then serve s (.server (.runFunctor loop)) else none
  | .handleRead connfd => if (s.current 0).isNone then serve s (.handleRead connfd) else none
  | .destroy => serve s (.server .destroy)
  | .destroyNext conn => serve s (.server (.destroyNext conn))

def start (listenAddr : InetAddress) (name : Bytes) (numThreads : Nat) : State :=
  ⟨ServerDescriptors.start listenAddr name numThreads, fun _ => [], fun _ => none⟩

/- A server without a pool is not destroyed by a callback of its own loop's channels. -/
def Outside (s : State) : Action → Prop
  | .destroy => s.server.server.threadPool.loops = 0 → idle s 0 = true
  | _ => True

instance (s : State) (a : Action) : Decidable (Outside s a) := by
  cases a <;> unfold Outside <;> infer_instance

section Server
variable {s t : TcpServer} {a : ServerRegistry.Action} {loop conn : Nat}

theorem traceKept (ok : ServerRegistry.step s a = some t) : s.trace ⊆ t.trace := by
  by_cases accepts : a = .newConnection
  · subst accepts
    obtain ⟨-, last⟩ := Option.ite_none_right_eq_some.mp ok
    rw [← Option.some.inj last, ServerRegistry.newConnectionEq]
    rcases runInLoopTrace (ServerRegistry.register s) 0 s.threadPool.getNextLoop.1
      (.connectEstablished s.accepted.length) with same | more
    · exact same ▸ List.Subset.refl _
    · exact more ▸ List.subset_append_left _ _
  · rcases (stepSame accepts ok).trace with same | ⟨event, more⟩
    · exact same ▸ List.Subset.refl _
    · exact more ▸ List.subset_append_left _ _

theorem endedBy (ok : ServerRegistry.step s a = some t) (ended : (loop, .connectDestroyed conn) ∈ t.trace) :
    (loop, .connectDestroyed conn) ∈ s.trace ∨ a = .runFunctor loop ∨
      loop = 0 ∧ conn ∈ s.ending ∧ ∃ c, s.accepted[conn]? = some c ∧ c.loop = 0 := by
  have run (u : TcpServer) (here other : Nat) (f : Functor)
      (ended : (loop, .connectDestroyed conn) ∈ (u.runInLoop here other f).trace) :
      (loop, .connectDestroyed conn) ∈ u.trace ∨ here = other ∧ (loop, .connectDestroyed conn) = (here, f) := by
    unfold runInLoop at ended
    split at ended
    · rename_i here_
      rw [callTrace] at ended
      exact (List.mem_append.mp ended).imp_right fun new => ⟨here_, List.mem_singleton.mp new⟩
    · exact .inl ended
  cases a with
  | newConnection =>
    obtain ⟨-, last⟩ := Option.ite_none_right_eq_some.mp ok
    rw [← Option.some.inj last, ServerRegistry.newConnectionEq] at ended
    exact .inl ((run _ _ _ _ ended).resolve_right (by simp))
  | removeConnection here other =>
    obtain ⟨-, last⟩ := Option.ite_none_right_eq_some.mp ok
    rw [← Option.some.inj last, TcpServer.removeConnection] at ended
    exact .inl ((run _ _ _ _ ended).resolve_right (by simp))
  | runFunctor other =>
    simp only [ServerRegistry.step, TcpServer.runFunctor] at ok
    split at ok <;> try contradiction
    split at ok <;> try contradiction
    rw [← Option.some.inj ok, callTrace] at ended
    rcases List.mem_append.mp ended with old | new
    · exact .inl old
    · cases List.mem_singleton.mp new
      exact .inr (.inl rfl)
  | destroy =>
    obtain ⟨-, last⟩ := Option.ite_none_right_eq_some.mp ok
    rw [← Option.some.inj last] at ended
    exact .inl ended
  | destroyNext other =>
    simp only [ServerRegistry.step, TcpServer.destroyNext] at ok
    split at ok <;> try contradiction
    rename_i c there
    split at ok <;> try contradiction
    rename_i member
    rw [← Option.some.inj ok] at ended
    refine (run _ _ _ _ ended).imp_right fun both => ?_
    obtain ⟨base, same⟩ := both
    cases same
    exact .inr ⟨rfl, member, c, there, base.symm⟩

theorem endingKept (other : a ≠ .destroy) (ok : ServerRegistry.step s a = some t) : t.ending ⊆ s.ending := by
  cases a with
  | newConnection =>
    obtain ⟨-, last⟩ := Option.ite_none_right_eq_some.mp ok
    rw [← Option.some.inj last, ServerRegistry.newConnectionEq, (runInLoopFrame ..).ending]
    exact List.Subset.refl _
  | removeConnection here other =>
    obtain ⟨-, last⟩ := Option.ite_none_right_eq_some.mp ok
    rw [← Option.some.inj last, TcpServer.removeConnection, (runInLoopFrame ..).ending]
    exact List.Subset.refl _
  | runFunctor loop =>
    simp only [ServerRegistry.step, TcpServer.runFunctor] at ok
    split at ok <;> try contradiction
    split at ok <;> try contradiction
    rw [← Option.some.inj ok, (callFrame ..).ending]
    exact List.Subset.refl _
  | destroy => exact absurd rfl other
  | destroyNext conn =>
    simp only [ServerRegistry.step, TcpServer.destroyNext] at ok
    split at ok <;> try contradiction
    split at ok <;> try contradiction
    rw [← Option.some.inj ok, (runInLoopFrame ..).ending]
    exact List.erase_subset ..

end Server

theorem registeredIff {s : TcpServer} {loop conn : Nat} :
    registered s loop conn = true ↔
      (loop, .connectEstablished conn) ∈ s.trace ∧ (loop, .connectDestroyed conn) ∉ s.trace := by
  simp [registered]

def Pending (s : State) (loop conn : Nat) : Prop := conn ∈ s.active loop ∨ s.current loop = some conn

theorem idlePending {s : State} {loop conn : Nat} (idle : idle s loop = true) : ¬Pending s loop conn := by
  simp only [ActiveChannels.idle, Bool.and_eq_true, List.isEmpty_iff, Option.isNone_iff_eq_none] at idle
  simp [Pending, idle.1, idle.2]

structure Inv (name ipPort : Bytes) (numThreads : Nat) (s : State) : Prop where
  server : ServerDescriptors.Inv name ipPort numThreads s.server
  registered : ∀ loop conn, Pending s loop conn → registered s.server.server loop conn = true
  outside : s.server.server.ending ≠ [] → numThreads = 0 → idle s 0 = true

theorem startInv (listenAddr : InetAddress) (name : Bytes) (numThreads : Nat) :
    Inv name listenAddr.toIpPort numThreads (start listenAddr name numThreads) where
  server := ServerDescriptors.startInv listenAddr name numThreads
  registered loop conn pending := by simp [Pending, start] at pending
  outside ending := absurd rfl ending

section Steps
variable {name ipPort : Bytes} {numThreads loop conn : Nat} {s t : State}

theorem serverStep {s t : ServerDescriptors.State} {a : ServerDescriptors.Action}
    (ok : ServerDescriptors.step s a = some t) :
    t.server = s.server ∨ ∃ b, ServerRegistry.step s.server b = some t.server ∧ (b = .newConnection ∨ a = .server b) := by
  cases a with
  | handleRead connfd =>
    obtain ⟨alive, last⟩ := Option.ite_none_right_eq_some.mp ok
    cases connfd with
    | none => exact .inl (by rw [← Option.some.inj last])
    | some connfd =>
      obtain ⟨-, last⟩ := Option.ite_none_right_eq_some.mp last
      rw [← Option.some.inj last]
      exact .inr ⟨.newConnection, by simp only [ServerRegistry.step, alive, if_true], .inl rfl⟩
  | server b =>
    have went : (ServerRegistry.step s.server b).bind (fun server => some { s with server }) = some t := by
      cases b <;> first | exact ok | contradiction
    obtain ⟨server, moved, last⟩ := Option.bind_eq_some_iff.mp went
    rw [← Option.some.inj last]
    exact .inr ⟨b, moved, .inr rfl⟩

theorem serveInv (short : ipPort.length ≤ 21) (inv : Inv name ipPort numThreads s) {a : ServerDescriptors.Action}
    (ok : serve s a = some t) (functor : ∀ loop, a = .server (.runFunctor loop) → idle s loop = true)
    (destroy : a = .server .destroy → numThreads = 0 → idle s 0 = true) : Inv name ipPort numThreads t := by
  obtain ⟨server, moved, same⟩ := Option.bind_eq_some_iff.mp ok
  rw [← Option.some.inj same]
  have next := ServerDescriptors.stepInv short inv.server moved
  rcases serverStep moved with nothing | ⟨b, went, kind⟩
  · exact ⟨next, fun loop conn pending => nothing ▸ inv.registered loop conn pending,
      fun ending => inv.outside (nothing ▸ ending)⟩
  refine ⟨next, fun loop conn pending => ?_, fun ending alone => ?_⟩
  · obtain ⟨established, alive⟩ := registeredIff.mp (inv.registered loop conn pending)
    refine registeredIff.mpr ⟨traceKept went established, fun ended => ?_⟩
    rcases endedBy went ended with before | ran | ⟨rfl, ending, c, there, base⟩
    · exact alive before
    · subst ran
      rcases kind with new | same
      · contradiction
      · exact idlePending (functor loop same) pending
    · -- the destructor ends it here and now: the server has no pool
      have alone : numThreads = 0 := by
        have turn := inv.server.turns.loop conn c there
        rw [base] at turn
        by_contra some_
        rw [if_neg some_] at turn
        omega
      exact idlePending (inv.outside (List.ne_nil_of_mem ending) alone) pending
  · by_cases last : b = .destroy
    · subst last
      rcases kind with new | same
      · contradiction
      · exact destroy same alone
    · refine inv.outside (fun empty => ending ?_) alone
      exact List.subset_nil.mp (empty ▸ endingKept last went)

theorem pollInv (inv : Inv name ipPort numThreads s) {channels : List Nat}
    (ok : step s (.poll loop channels) = some t) : Inv name ipPort numThreads t := by
  simp only [step, Option.ite_none_right_eq_some, Bool.and_eq_true, List.all_eq_true] at ok
  obtain ⟨⟨⟨quiet, free⟩, watched⟩, last⟩ := ok
  rw [← Option.some.inj last]
  refine ⟨inv.server, fun other conn pending => ?_, fun ending alone => ?_⟩
  · by_cases here : other = loop
    · subst here
      simp only [Pending, Function.update_self] at pending
      rcases pending with listed | current
      · exact watched conn listed
      · exact inv.registered other conn (.inr current)
    · simp only [Pending, Function.update_of_ne here] at pending
      exact inv.registered other conn pending
  · have away : loop ≠ 0 := by
      simpa [ActiveChannels.free, ending] using free
    have before := inv.outside ending alone
    simpa only [ActiveChannels.idle, Function.update_of_ne away.symm] using before

theorem handleEventInv (inv : Inv name ipPort numThreads s) (ok : step s (.handleEvent loop) = some t) :
    Inv name ipPort numThreads t := by
  simp only [step] at ok
  split at ok <;> try contradiction
  rename_i conn rest listed none_
  obtain ⟨free, last⟩ := Option.ite_none_right_eq_some.mp ok
  rw [← Option.some.inj last]
  refine ⟨inv.server, fun other conn' pending => ?_, fun ending alone => ?_⟩
  · refine inv.registered other conn' ?_
    by_cases here : other = loop
    · subst here
      simp only [Pending, Function.update_self, Option.some.injEq] at pending
      rcases pending with later | first
      · exact .inl (listed ▸ List.mem_cons_of_mem _ later)
      · exact .inl (listed ▸ first ▸ List.mem_cons_self)
    · simp only [Pending, Function.update_of_ne here] at pending
      exact pending
  · have away : loop ≠ 0 := by
      simpa [ActiveChannels.free, ending] using free
    have before := inv.outside ending alone
    simpa only [ActiveChannels.idle, Function.update_of_ne away.symm] using before

theorem finishInv (inv : Inv name ipPort numThreads s) (ok : step s (.finish loop) = some t) :
    Inv name ipPort numThreads t := by
  rw [← Option.some.inj ok]
  refine ⟨inv.server, fun other conn pending => ?_, fun ending alone => ?_⟩
  · refine inv.registered other conn (pending.imp_right fun current => ?_)
    by_cases here : other = loop
    · subst here
      simp at current
    · simpa only [Function.update_of_ne here] using current
  · have before := inv.outside ending alone
    simp only [ActiveChannels.idle, Bool.and_eq_true, Function.update_apply] at before ⊢
    refine ⟨before.1, ?_⟩
    split
    · rfl
    · exact before.2

theorem stepInv (short : ipPort.length ≤ 21) {a : Action} (inv : Inv name ipPort numThreads s) (outside : Outside s a)
    (ok : step s a = some t) : Inv name ipPort numThreads t := by
  cases a with
  | poll loop channels => exact pollInv inv ok
  | handleEvent loop => exact handleEventInv inv ok
  | finish loop => exact finishInv inv ok
  | removeConnection loop =>
    simp only [step] at ok
    split at ok <;> try contradiction
    exact serveInv short inv ok (by simp) (by simp)
  | runFunctor loop =>
    obtain ⟨quiet, went⟩ := Option.ite_none_right_eq_some.mp ok
    refine serveInv short inv went (fun other same => ?_) (by simp)
    cases same
    exact quiet
  | handleRead connfd =>
    obtain ⟨-, went⟩ := Option.ite_none_right_eq_some.mp ok
    exact serveInv short inv went (by simp) (by simp)
  | destroy => exact serveInv short inv ok (by simp) fun _ alone => outside (inv.server.turns.loops.trans alone)
  | destroyNext conn => exact serveInv short inv ok (by simp) (by simp)

end Steps

structure Alive (s : ServerDescriptors.State) (loop conn : Nat) : Prop where
  owned : owned s.server conn = true
  watched : registered s.server loop conn = true
  opened : ∃ fd, s.fds[conn]? = some fd ∧ fd ∈ openFds s

theorem handledAlive {listenAddr : InetAddress} {name : Bytes} {numThreads : Nat} {actions : List Action} {s : State}
    (outside : Along step Outside (start listenAddr name numThreads) actions)
    (ok : run step (start listenAddr name numThreads) actions = some s)
    (few : s.server.server.accepted.length < 2 ^ 31) :
    ∀ loop conn, Pending s loop conn → Alive s.server loop conn := by
  have inv := runInvariantAlong (stepInv (ServerRegistry.ipPortLength listenAddr)) (startInv listenAddr name numThreads)
    outside ok
  intro loop conn pending
  have watched := inv.registered loop conn pending
  obtain ⟨established, alive⟩ := registeredIff.mp watched
  obtain ⟨c, there, rfl⟩ := inv.server.registry.placed.called _ established
  have cared := (inv.server.descriptors few).cared conn c there
  have owned := caringOwned inv.server.turns there cared alive
  have below : conn < s.server.fds.length := by
    rw [inv.server.length]
    exact (List.getElem?_eq_some_iff.mp there).1
  have place := List.getElem?_eq_getElem below
  exact ⟨owned, watched, _, place, openFdsMember place owned⟩

def closingRun : List Action :=
  [.handleRead (some 9), .handleRead (some 10), .poll 0 [0, 1], .handleEvent 0, .removeConnection 0]

theorem handledAliveSample :
    ∃ s, run step (start ⟨127, 0, 0, 1, 8080⟩ (ascii "echo") 0) closingRun = some s ∧
      s.current 0 = some 0 ∧ s.active 0 = [1] ∧ Alive s.server 0 0 ∧ Alive s.server 0 1 := by
  have ends : (run step (start ⟨127, 0, 0, 1, 8080⟩ (ascii "echo") 0) closingRun).map
      (fun s => (s.current 0, s.active 0, s.server.server.accepted.length)) = some (some 0, [1], 2) := by decide
  obtain ⟨s, ok, fields⟩ := Option.map_eq_some_iff.mp ends
  simp only [Prod.mk.injEq] at fields
  obtain ⟨current, active, two⟩ := fields
  have alive := handledAlive (by decide) ok (by omega)
  exact ⟨s, ok, current, active, alive 0 0 (.inr current), alive 0 1 (.inl (by rw [active]; exact List.mem_cons_self))⟩

/- A callback that destroys the server instead leaves a pointer to nothing in the list. -/
example : (run step (start ⟨127, 0, 0, 1, 8080⟩ (ascii "echo") 0)
    [.handleRead (some 9), .handleRead (some 10), .poll 0 [0, 1], .handleEvent 0, .destroy, .destroyNext 1]).map
      (fun s => (s.active 0, owned s.server.server 1)) = some ([1], false) := by decide

end TinyNetwork.ActiveChannels
