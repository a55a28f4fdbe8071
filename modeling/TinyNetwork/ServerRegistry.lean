import TinyNetwork.Runs
import TinyNetwork.TcpServer

/-! The registry of the server under every interleaving of its loops. A removal is
called in the base loop only, and what ends a connection is queued behind what
established it, in the one loop that the connection has for its whole life. The names
differ because the number at the end of each is never cut off. -/
namespace TinyNetwork.Precedence

variable {α : Type} {needs : α → α → Prop} {past events : List α} {e : α}

/- Events that may come only after certain others. `needs e d` says that `d` has to
come before `e`; a list of events is preceded, after a past, when each of its events
has what it needs in the past or earlier in the list. -/
def Preceded (needs : α → α → Prop) : List α → List α → Prop
  | _, [] => True
  | past, e :: rest => (∀ d, needs e d → d ∈ past) ∧ Preceded needs (past ++ [e]) rest

theorem precededAppend (later : List α) :
    Preceded needs past (events ++ later) ↔ Preceded needs past events ∧ Preceded needs (past ++ events) later := by
  induction events generalizing past with
  | nil => simp [Preceded]
  | cons e rest ih => simp [Preceded, ih, and_assoc]

theorem precededLast (holds : Preceded needs past events) (ready : ∀ d, needs e d → d ∈ past ++ events) :
    Preceded needs past (events ++ [e]) :=
  (precededAppend [e]).mpr ⟨holds, ready, trivial⟩

theorem precededWeaken {past' : List α} (more : past ⊆ past') (holds : Preceded needs past events) :
    Preceded needs past' events := by
  induction events generalizing past past' with
  | nil => trivial
  | cons e rest ih =>
    have further : past ++ [e] ⊆ past' ++ [e] :=
      List.append_subset.mpr ⟨List.Subset.trans more (List.subset_append_left _ _), List.subset_append_right _ _⟩
    exact ⟨fun d need => more (holds.1 d need), ih further holds.2⟩

theorem precededFewer {needs' : α → α → Prop} (fewer : ∀ e ∈ events, ∀ d, needs' e d → needs e d)
    (holds : Preceded needs past events) : Preceded needs' past events := by
  induction events generalizing past with
  | nil => trivial
  | cons e rest ih =>
    obtain ⟨first, others⟩ := List.forall_mem_cons.mp fewer
    exact ⟨fun d need => holds.1 d (first d need), ih others holds.2⟩

theorem precededBefore {before after : List α} {d : α} (holds : Preceded needs [] events)
    (there : events = before ++ e :: after) (need : needs e d) : d ∈ before := by
  rw [there] at holds
  simpa using ((precededAppend (e :: after)).mp holds).2.1 d need

end TinyNetwork.Precedence

namespace TinyNetwork.ServerRegistry
open Runs Precedence Decimals TcpServer

inductive Action where
  | newConnection
  | removeConnection (here conn : Nat)
  | runFunctor (loop : Nat)
  | destroy
  | destroyNext (conn : Nat)
  deriving DecidableEq, Repr

/- The acceptor goes with the server; a close callback has its connection. -/
def step (s : TcpServer) : Action → Option TcpServer
  | .newConnection => if s.alive then some s.newConnection else none
  | .removeConnection here conn => if conn < s.accepted.length then some (s.removeConnection here conn) else none
  | .runFunctor loop => s.runFunctor loop
  | .destroy => if s.alive then some s.destroy else none
  | .destroyNext conn => s.destroyNext conn

inductive Needs : Nat × Functor → Nat × Functor → Prop where
  | ended (loop conn : Nat) : Needs (loop, .connectDestroyed conn) (loop, .connectEstablished conn)

def Home (accepted : List Connection) : Nat × Functor → Prop
  | (loop, .connectEstablished conn) | (loop, .connectDestroyed conn) =>
      ∃ c, accepted[conn]? = some c ∧ c.loop = loop
  | (loop, .removeConnectionInLoop conn) => loop = 0 ∧ conn < accepted.length

structure Placed (accepted : List Connection) (queues : Nat → List Functor) (trace : List (Nat × Functor)) :
    Prop where
  called : ∀ event ∈ trace, Home accepted event
  queued : ∀ loop, ∀ f ∈ queues loop, Home accepted (loop, f)

structure Ordered (accepted : List Connection) (queues : Nat → List Functor) (trace : List (Nat × Functor)) :
    Prop where
  called : Preceded Needs [] trace
  queued : ∀ loop, Preceded Needs trace ((queues loop).map (Prod.mk loop))
  established : ∀ conn c, accepted[conn]? = some c →
    (c.loop, .connectEstablished conn) ∈ trace ∨ .connectEstablished conn ∈ queues c.loop
  atOnce : ∀ conn c, accepted[conn]? = some c → c.loop = 0 → (0, .connectEstablished conn) ∈ trace

section Events

variable {accepted : List Connection} {queues : Nat → List Functor} {trace : List (Nat × Functor)}
  {here loop conn : Nat} {c : Connection} {f : Functor} {rest : List Functor} {event : Nat × Functor}

theorem acceptedCases {d : Connection} (there : (accepted ++ [c])[conn]? = some d) :
    accepted[conn]? = some d ∨ conn = accepted.length ∧ d = c := by
  by_cases below : conn < accepted.length
  · rw [List.getElem?_append_left below] at there
    exact .inl there
  · rw [List.getElem?_append_right (by omega), List.getElem?_singleton] at there
    split at there
    · exact .inr ⟨by omega, (Option.some.inj there).symm⟩
    · contradiction

theorem homeGrows (c : Connection) (home : Home accepted event) : Home (accepted ++ [c]) event := by
  obtain ⟨loop, f⟩ := event
  have same {conn : Nat} {d : Connection} (there : accepted[conn]? = some d) :
      (accepted ++ [c])[conn]? = some d := by
    obtain ⟨below, -⟩ := List.getElem?_eq_some_iff.mp there
    rwa [List.getElem?_append_left below]
  cases f with
  | connectEstablished conn | connectDestroyed conn =>
    obtain ⟨d, there, own⟩ := home
    exact ⟨d, same there, own⟩
  | removeConnectionInLoop conn =>
    refine ⟨home.1, ?_⟩
    rw [List.length_append]
    exact Nat.lt_add_right _ home.2

theorem placedGrows (c : Connection) (placed : Placed accepted queues trace) :
    Placed (accepted ++ [c]) queues trace where
  called event member := homeGrows c (placed.called event member)
  queued loop f member := homeGrows c (placed.queued loop f member)

theorem placedCall (placed : Placed accepted queues trace) (home : Home accepted event) :
    Placed accepted queues (trace ++ [event]) where
  called := by
    intro other member
    rcases List.mem_append.mp member with old | new
    · exact placed.called other old
    · exact List.mem_singleton.mp new ▸ home
  queued := placed.queued

theorem placedQueue (placed : Placed accepted queues trace) (home : Home accepted (loop, f)) :
    Placed accepted (Function.update queues loop (queues loop ++ [f])) trace where
  called := placed.called
  queued := by
    refine (Function.forall_update_iff queues fun other fs => ∀ g ∈ fs, Home accepted (other, g)).mpr
      ⟨fun g member => ?_, fun other _ => placed.queued other⟩
    rcases List.mem_append.mp member with old | new
    · exact placed.queued loop g old
    · exact List.mem_singleton.mp new ▸ home

theorem placedPop (placed : Placed accepted queues trace) (front : queues loop = f :: rest) :
    Placed accepted (Function.update queues loop rest) trace where
  called := placed.called
  queued := by
    refine (Function.forall_update_iff queues fun other fs => ∀ g ∈ fs, Home accepted (other, g)).mpr
      ⟨fun g member => ?_, fun other _ => placed.queued other⟩
    exact placed.queued loop g (front ▸ List.mem_cons_of_mem f member)

theorem orderedCall (ordered : Ordered accepted queues trace) (ready : ∀ d, Needs event d → d ∈ trace) :
    Ordered accepted queues (trace ++ [event]) where
  called := precededLast ordered.called ready
  queued other := precededWeaken (List.subset_append_left _ _) (ordered.queued other)
  established conn c there := (ordered.established conn c there).imp_left (List.mem_append_left _)
  atOnce conn c there base := List.mem_append_left _ (ordered.atOnce conn c there base)

theorem orderedQueue (ordered : Ordered accepted queues trace)
    (ready : ∀ d, Needs (loop, f) d → d ∈ trace ++ (queues loop).map (Prod.mk loop)) :
    Ordered accepted (Function.update queues loop (queues loop ++ [f])) trace where
  called := ordered.called
  queued := by
    refine (Function.forall_update_iff queues fun other fs =>
      Preceded Needs trace (fs.map (Prod.mk other))).mpr ⟨?_, fun other _ => ordered.queued other⟩
    rw [List.map_append]
    exact precededLast (ordered.queued loop) ready
  established := by
    intro conn c there
    refine (ordered.established conn c there).imp_right fun queued => ?_
    by_cases same : c.loop = loop
    · rw [same] at queued ⊢
      rw [Function.update_self]
      exact List.mem_append_left _ queued
    · rwa [Function.update_of_ne same]
  atOnce := ordered.atOnce

theorem orderedPop (ordered : Ordered accepted queues trace) (front : queues loop = f :: rest) :
    Ordered accepted (Function.update queues loop rest) (trace ++ [(loop, f)]) := by
  have preceded := ordered.queued loop
  rw [front] at preceded
  exact {
    called := precededLast ordered.called preceded.1
    queued := by
      refine (Function.forall_update_iff queues fun other fs =>
        Preceded Needs (trace ++ [(loop, f)]) (fs.map (Prod.mk other))).mpr ⟨preceded.2, fun other _ => ?_⟩
      exact precededWeaken (List.subset_append_left _ _) (ordered.queued other)
    established := by
      intro conn c there
      rcases ordered.established conn c there with called | queued
      · exact .inl (List.mem_append_left _ called)
      · by_cases same : c.loop = loop
        · rw [same] at queued ⊢
          rw [front] at queued
          rcases List.mem_cons.mp queued with rfl | behind
          · exact .inl (List.mem_append_right _ (List.mem_singleton.mpr rfl))
          · rw [Function.update_self]
            exact .inr behind
        · rw [Function.update_of_ne same]
          exact .inr queued
    atOnce := fun conn c there base => List.mem_append_left _ (ordered.atOnce conn c there base) }

theorem orderedAccept (ordered : Ordered accepted queues trace)
    (established : (c.loop, .connectEstablished accepted.length) ∈ trace ∨
      .connectEstablished accepted.length ∈ queues c.loop)
    (atOnce : c.loop = 0 → (0, .connectEstablished accepted.length) ∈ trace) :
    Ordered (accepted ++ [c]) queues trace where
  called := ordered.called
  queued := ordered.queued
  established := by
    intro conn d there
    rcases acceptedCases there with old | ⟨rfl, rfl⟩
    · exact ordered.established conn d old
    · exact established
  atOnce := by
    intro conn d there base
    rcases acceptedCases there with old | ⟨rfl, rfl⟩
    · exact ordered.atOnce conn d old base
    · exact atOnce base

theorem orderedEnd (ordered : Ordered accepted queues trace) (there : accepted[conn]? = some c) :
    ∀ d, Needs (c.loop, .connectDestroyed conn) d → d ∈ trace ++ (queues c.loop).map (Prod.mk c.loop) := by
  rintro d ⟨⟩
  rcases ordered.established conn c there with called | queued
  · exact List.mem_append_left _ called
  · exact List.mem_append_right _ (List.mem_map_of_mem queued)

end Events

section Names

/- The longest text is "-255.255.255.255:65535#2147483647". -/
theorem ipPortLength (address : InetAddress) : address.toIpPort.length ≤ 21 := by
  have byte (b : UInt8) : (natural b.toNat).length ≤ 3 := naturalLength (by decide) (by have := b.toNat_lt; omega)
  have a := byte address.a
  have b := byte address.b
  have c := byte address.c
  have d := byte address.d
  have port : (natural address.port.toNat).length ≤ 5 :=
    naturalLength (by decide) (by have := address.port.toNat_lt; omega)
  simp only [InetAddress.toIpPort, InetAddress.toIp, List.length_append]
  have dot : (ascii ".").length = 1 := rfl
  have colon : (ascii ":").length = 1 := rfl
  omega

theorem connNameWhole {name ipPort : Bytes} {n : Nat} (short : ipPort.length ≤ 21) (small : n < 2 ^ 31) :
    connName name ipPort n = name ++ (ascii "-" ++ ipPort ++ ascii "#" ++ natural n) := by
  have digits : (natural n).length ≤ 10 := naturalLength (by decide) (by omega)
  have dash : (ascii "-").length = 1 := rfl
  have hash : (ascii "#").length = 1 := rfl
  have number : integer n = natural n := by simp [integer]
  rw [connName, number, List.take_of_length_le]
  simp only [List.length_append]
  omega

theorem connNameInjective {name ipPort : Bytes} {m n : Nat} (short : ipPort.length ≤ 21) (first : m < 2 ^ 31)
    (second : n < 2 ^ 31) (same : connName name ipPort m = connName name ipPort n) : m = n := by
  rw [connNameWhole short first, connNameWhole short second] at same
  exact naturalInjective (List.append_cancel_left (List.append_cancel_left same))

end Names

def Distinct (accepted : List Connection) : Prop :=
  ∀ (i j : Nat) (x y : Connection), accepted[i]? = some x → accepted[j]? = some y → x.name = y.name → i = j

def Mirrors (accepted : List Connection) (connections : AList (fun _ : Bytes => Nat))
    (trace : List (Nat × Functor)) : Prop :=
  ∀ name conn, connections.lookup name = some conn ↔
    (∃ c, accepted[conn]? = some c ∧ c.name = name) ∧ (0, .removeConnectionInLoop conn) ∉ trace

section Registry

variable {accepted : List Connection} {connections : AList (fun _ : Bytes => Nat)}
  {trace : List (Nat × Functor)} {c : Connection} {conn : Nat} {event : Nat × Functor}

theorem mirrorsCall (mirrors : Mirrors accepted connections trace)
    (other : ∀ conn, event ≠ (0, .removeConnectionInLoop conn)) :
    Mirrors accepted connections (trace ++ [event]) := by
  intro name conn
  rw [mirrors name conn, List.mem_append, List.mem_singleton, not_or]
  exact ⟨fun both => ⟨both.1, both.2, (other conn).symm⟩, fun both => ⟨both.1, both.2.1⟩⟩

theorem mirrorsErase (distinct : Distinct accepted) (mirrors : Mirrors accepted connections trace)
    (there : accepted[conn]? = some c) :
    Mirrors accepted (connections.erase c.name) (trace ++ [(0, .removeConnectionInLoop conn)]) := by
  intro name other
  rw [List.mem_append, List.mem_singleton, not_or]
  by_cases same : name = c.name
  · -- whoever has this name is the connection that goes
    rw [same, AList.lookup_erase]
    refine ⟨nofun, fun ⟨⟨d, found, named⟩, _, kept⟩ => ?_⟩
    rw [distinct other conn d c found there named] at kept
    contradiction
  · rw [AList.lookup_erase_ne same, mirrors name other]
    refine ⟨fun ⟨⟨d, found, named⟩, stays⟩ => ⟨⟨d, found, named⟩, stays, fun removed => ?_⟩,
      fun ⟨found, stays, _⟩ => ⟨found, stays⟩⟩
    cases removed
    rw [there] at found
    cases found
    exact same named.symm

theorem mirrorsInsert (distinct : Distinct (accepted ++ [c])) (mirrors : Mirrors accepted connections trace)
    (fresh : (0, .removeConnectionInLoop accepted.length) ∉ trace) :
    Mirrors (accepted ++ [c]) (connections.insert c.name accepted.length) trace := by
  have newest : (accepted ++ [c])[accepted.length]? = some c := by simp
  intro name other
  by_cases same : name = c.name
  · rw [same, AList.lookup_insert, Option.some.injEq]
    constructor
    · rintro rfl
      exact ⟨⟨c, newest, rfl⟩, fresh⟩
    · rintro ⟨⟨d, found, named⟩, -⟩
      exact distinct _ _ c d newest found named.symm
  · rw [AList.lookup_insert_ne same, mirrors name other]
    refine and_congr_left fun _ => ⟨fun ⟨d, found, named⟩ => ?_, fun ⟨d, found, named⟩ => ?_⟩
    · obtain ⟨below, -⟩ := List.getElem?_eq_some_iff.mp found
      exact ⟨d, by rwa [List.getElem?_append_left below], named⟩
    · rcases acceptedCases found with old | ⟨-, rfl⟩
      · exact ⟨d, old, named⟩
      · exact absurd named.symm same

end Registry

structure Registered (name ipPort : Bytes) (s : TcpServer) : Prop where
  named : s.name = name
  listening : s.ipPort = ipPort
  ids : s.accepted.length + 1 < 2 ^ 31 → s.nextConnId = (s.accepted.length + 1 : Nat)
  names : ∀ conn c, s.accepted[conn]? = some c → conn + 1 < 2 ^ 31 →
    c.name = connName name ipPort (conn + 1 : Nat)
  registry : s.accepted.length < 2 ^ 31 → s.alive = true → Mirrors s.accepted s.connections s.trace

structure Inv (name ipPort : Bytes) (s : TcpServer) : Prop where
  placed : Placed s.accepted s.queues s.trace
  ordered : Ordered s.accepted s.queues s.trace
  registered : Registered name ipPort s

section Steps

variable {name ipPort : Bytes} {s t : TcpServer} {here loop conn : Nat} {c : Connection} {f : Functor}

theorem distinctNames (short : ipPort.length ≤ 21) (few : s.accepted.length < 2 ^ 31)
    (names : ∀ conn c, s.accepted[conn]? = some c → conn + 1 < 2 ^ 31 →
      c.name = connName name ipPort (conn + 1 : Nat)) : Distinct s.accepted := by
  intro i j x y first second same
  obtain ⟨low, -⟩ := List.getElem?_eq_some_iff.mp first
  obtain ⟨high, -⟩ := List.getElem?_eq_some_iff.mp second
  rw [names i x first (by omega), names j y second (by omega)] at same
  exact Nat.succ.inj (connNameInjective short (by omega) (by omega) same)

theorem callRemoval (there : s.accepted[conn]? = some c) :
    s.call here (.removeConnectionInLoop conn) =
      { s with
        trace := s.trace ++ [(here, .removeConnectionInLoop conn)]
        connections := if s.alive then s.connections.erase c.name else s.connections
        queues := Function.update s.queues c.loop (s.queues c.loop ++ [.connectDestroyed conn]) } := by
  simp only [call, TcpServer.removeConnectionInLoop, there, queueInLoop]

theorem placedCalled (placed : Placed s.accepted s.queues s.trace) (home : Home s.accepted (here, f)) :
    Placed (s.call here f).accepted (s.call here f).queues (s.call here f).trace := by
  have called := placedCall placed home
  cases f with
  | connectEstablished conn | connectDestroyed conn => exact called
  | removeConnectionInLoop conn =>
    obtain ⟨c, there⟩ : ∃ c, s.accepted[conn]? = some c := ⟨_, List.getElem?_eq_getElem home.2⟩
    rw [callRemoval there]
    exact placedQueue called ⟨c, there, rfl⟩

theorem orderedCalled (home : Home s.accepted (here, f))
    (called : Ordered s.accepted s.queues (s.trace ++ [(here, f)])) :
    Ordered (s.call here f).accepted (s.call here f).queues (s.call here f).trace := by
  cases f with
  | connectEstablished conn | connectDestroyed conn => exact called
  | removeConnectionInLoop conn =>
    obtain ⟨c, there⟩ : ∃ c, s.accepted[conn]? = some c := ⟨_, List.getElem?_eq_getElem home.2⟩
    rw [callRemoval there]
    exact orderedQueue called (orderedEnd called there)

theorem registeredCalled (short : ipPort.length ≤ 21) (registered : Registered name ipPort s)
    (home : Home s.accepted (here, f)) : Registered name ipPort (s.call here f) := by
  have still (other : ∀ conn, (here, f) ≠ (0, .removeConnectionInLoop conn)) :
      Registered name ipPort { s with trace := s.trace ++ [(here, f)] } :=
    { registered with registry := fun few alive => mirrorsCall (registered.registry few alive) other }
  cases f with
  | connectEstablished conn | connectDestroyed conn => exact still nofun
  | removeConnectionInLoop conn =>
    obtain ⟨base, below⟩ := home
    subst base
    obtain ⟨c, there⟩ : ∃ c, s.accepted[conn]? = some c := ⟨_, List.getElem?_eq_getElem below⟩
    rw [callRemoval there]
    refine { registered with registry := fun few alive => ?_ }
    simp only [show s.alive = true from alive, if_true]
    exact mirrorsErase (distinctNames short few registered.names) (registered.registry few alive) there

theorem calledInv (short : ipPort.length ≤ 21) (inv : Inv name ipPort s) (home : Home s.accepted (here, f))
    (ready : ∀ d, Needs (here, f) d → d ∈ s.trace) : Inv name ipPort (s.call here f) where
  placed := placedCalled inv.placed home
  ordered := orderedCalled home (orderedCall inv.ordered ready)
  registered := registeredCalled short inv.registered home

theorem queuedInv (inv : Inv name ipPort s) (home : Home s.accepted (loop, f))
    (ready : ∀ d, Needs (loop, f) d → d ∈ s.trace ++ (s.queues loop).map (Prod.mk loop)) :
    Inv name ipPort (s.queueInLoop loop f) where
  placed := placedQueue inv.placed home
  ordered := orderedQueue inv.ordered ready
  registered := { inv.registered with }

def register (s : TcpServer) : TcpServer :=
  { s with
    threadPool := s.threadPool.getNextLoop.2
    nextConnId := succ s.nextConnId
    connections := s.connections.insert (connName s.name s.ipPort s.nextConnId) s.accepted.length
    accepted := s.accepted ++ [⟨connName s.name s.ipPort s.nextConnId, s.threadPool.getNextLoop.1⟩] }

theorem newConnectionEq :
    s.newConnection =
      (register s).runInLoop 0 s.threadPool.getNextLoop.1 (.connectEstablished s.accepted.length) := rfl

theorem registeredNew (short : ipPort.length ≤ 21) (placed : Placed s.accepted s.queues s.trace)
    (registered : Registered name ipPort s) : Registered name ipPort (register s) := by
  have length : (register s).accepted.length = s.accepted.length + 1 := by simp [register]
  have names : ∀ conn c, (register s).accepted[conn]? = some c → conn + 1 < 2 ^ 31 →
      c.name = connName name ipPort (conn + 1 : Nat) := by
    intro conn c there small
    rcases acceptedCases there with old | ⟨rfl, rfl⟩
    · exact registered.names conn c old small
    · simp only [registered.named, registered.listening, registered.ids small]
  refine ⟨registered.named, registered.listening, fun few => ?_, names, fun few alive => ?_⟩
  · rw [length] at few ⊢
    have id := registered.ids (by omega)
    simp only [register, id, succ]
    rw [if_neg (by omega)]
    push_cast
    rfl
  · have distinct := distinctNames short few names
    rw [length] at few
    refine mirrorsInsert distinct (registered.registry (by omega) alive) fun removed => ?_
    exact Nat.lt_irrefl _ (placed.called _ removed).2

theorem newConnectionInv (short : ipPort.length ≤ 21) (inv : Inv name ipPort s) :
    Inv name ipPort s.newConnection := by
  have registered := registeredNew short inv.placed inv.registered
  have placed : Placed (register s).accepted s.queues s.trace := placedGrows _ inv.placed
  have home : Home (register s).accepted (s.threadPool.getNextLoop.1, .connectEstablished s.accepted.length) :=
    ⟨_, List.getElem?_concat_length, rfl⟩
  rw [newConnectionEq, runInLoop]
  split
  case isTrue base =>
    rw [← base] at home
    have called : Ordered s.accepted s.queues (s.trace ++ [(0, .connectEstablished s.accepted.length)]) :=
      orderedCall inv.ordered nofun
    have newest : (0, .connectEstablished s.accepted.length) ∈
        s.trace ++ [(0, .connectEstablished s.accepted.length)] := by simp
    exact {
      placed := placedCalled placed home
      ordered := orderedAccept called (.inl (base ▸ newest)) fun _ => newest
      registered := registeredCalled short registered home }
  case isFalse other =>
    have queued : Ordered s.accepted ((register s).queueInLoop s.threadPool.getNextLoop.1
        (.connectEstablished s.accepted.length)).queues s.trace := orderedQueue inv.ordered nofun
    exact {
      placed := placedQueue placed home
      ordered := orderedAccept queued (.inr (by simp [queueInLoop])) fun base => absurd base.symm other
      registered := { registered with } }

theorem removeConnectionInv (short : ipPort.length ≤ 21) (inv : Inv name ipPort s)
    (below : conn < s.accepted.length) : Inv name ipPort (s.removeConnection here conn) := by
  rw [removeConnection, runInLoop]
  split
  case isTrue base => exact calledInv short inv ⟨base, below⟩ nofun
  case isFalse => exact queuedInv inv ⟨rfl, below⟩ nofun

theorem runFunctorInv (short : ipPort.length ≤ 21) (inv : Inv name ipPort s)
    (ok : s.runFunctor loop = some t) : Inv name ipPort t := by
  unfold runFunctor at ok
  split at ok
  · contradiction
  case h_2 f rest front =>
    split at ok
    · contradiction
    rw [← Option.some.inj ok]
    have home : Home s.accepted (loop, f) := inv.placed.queued loop f (front ▸ List.mem_cons_self)
    exact {
      placed := placedCalled (placedPop inv.placed front) home
      ordered := orderedCalled home (orderedPop inv.ordered front)
      registered := registeredCalled short { inv.registered with } home }

theorem destroyInv (inv : Inv name ipPort s) : Inv name ipPort s.destroy :=
  ⟨inv.placed, inv.ordered, { inv.registered with registry := nofun }⟩

theorem destroyNextInv (short : ipPort.length ≤ 21) (inv : Inv name ipPort s)
    (ok : s.destroyNext conn = some t) : Inv name ipPort t := by
  unfold destroyNext at ok
  split at ok
  · contradiction
  case h_2 c there =>
    split at ok
    case isFalse => contradiction
    rw [← Option.some.inj ok, runInLoop]
    have less : Inv name ipPort { s with ending := s.ending.erase conn } :=
      ⟨inv.placed, inv.ordered, { inv.registered with }⟩
    have home : Home s.accepted (c.loop, .connectDestroyed conn) := ⟨c, there, rfl⟩
    split
    case isTrue base =>
      rw [← base] at home
      refine calledInv short less home ?_
      rintro d ⟨⟩
      exact inv.ordered.atOnce conn c there base.symm
    case isFalse => exact queuedInv less home (orderedEnd inv.ordered there)

theorem stepInv (short : ipPort.length ≤ 21) {a : Action} (inv : Inv name ipPort s) (ok : step s a = some t) :
    Inv name ipPort t := by
  cases a with
  | newConnection =>
    obtain ⟨-, last⟩ := Option.ite_none_right_eq_some.mp ok
    rw [← Option.some.inj last]
    exact newConnectionInv short inv
  | removeConnection here conn =>
    obtain ⟨below, last⟩ := Option.ite_none_right_eq_some.mp ok
    rw [← Option.some.inj last]
    exact removeConnectionInv short inv below
  | runFunctor loop => exact runFunctorInv short inv ok
  | destroy =>
    obtain ⟨-, last⟩ := Option.ite_none_right_eq_some.mp ok
    rw [← Option.some.inj last]
    exact destroyInv inv
  | destroyNext conn => exact destroyNextInv short inv ok

end Steps

theorem nextNameFree {name ipPort : Bytes} {s : TcpServer} (short : ipPort.length ≤ 21)
    (registered : Registered name ipPort s) (room : s.accepted.length + 1 < 2 ^ 31) (alive : s.alive = true) :
    s.connections.lookup (connName s.name s.ipPort s.nextConnId) = none := by
  have mirrors := registered.registry (by omega) alive
  by_contra found
  obtain ⟨conn, taken⟩ := Option.ne_none_iff_exists'.mp found
  obtain ⟨⟨c, there, same⟩, -⟩ := (mirrors _ conn).mp taken
  obtain ⟨below, -⟩ := List.getElem?_eq_some_iff.mp there
  rw [registered.names conn c there (by omega), registered.named, registered.listening, registered.ids room] at same
  have equal := connNameInjective short (by omega) room same
  omega

structure Exact (s : TcpServer) : Prop where
  names : (s.accepted.map Connection.name).Nodup
  registry : s.alive = true → Mirrors s.accepted s.connections s.trace
  free : s.alive = true → s.accepted.length + 1 < 2 ^ 31 →
    s.connections.lookup (connName s.name s.ipPort s.nextConnId) = none
  home : ∀ event ∈ s.trace, Home s.accepted event
  order : ∀ before loop conn after, s.trace = before ++ (loop, .connectDestroyed conn) :: after →
    (loop, .connectEstablished conn) ∈ before

theorem constructInv (listenAddr : InetAddress) (name : Bytes) (numThreads : Nat) :
    Inv name listenAddr.toIpPort (construct listenAddr name numThreads) where
  placed := ⟨nofun, nofun⟩
  ordered := ⟨trivial, fun _ => trivial, nofun, nofun⟩
  registered := ⟨rfl, rfl, fun _ => rfl, nofun, fun _ _ name conn => by simp [construct]⟩

theorem registryExact {listenAddr : InetAddress} {name : Bytes} {numThreads : Nat} {actions : List Action}
    {s : TcpServer} (ok : run step (construct listenAddr name numThreads) actions = some s)
    (few : s.accepted.length < 2 ^ 31) : Exact s := by
  have short := ipPortLength listenAddr
  have inv := runInvariant (stepInv short) (constructInv listenAddr name numThreads) ok
  have distinct := distinctNames short few inv.registered.names
  exact {
    names := by
      refine List.nodup_iff_injective_get.mpr fun i j same => ?_
      have first : i < s.accepted.length := by simpa using i.isLt
      have second : j < s.accepted.length := by simpa using j.isLt
      simp only [List.get_eq_getElem, List.getElem_map] at same
      exact Fin.ext (distinct i j _ _ (List.getElem?_eq_getElem first) (List.getElem?_eq_getElem second) same)
    registry := inv.registered.registry few
    free := fun alive room => nextNameFree short inv.registered room alive
    home := inv.placed.called
    order := fun before loop conn after there => precededBefore inv.ordered.called there (.ended loop conn) }

def closingRun : List Action :=
  [.newConnection, .newConnection, .removeConnection 1 0, .runFunctor 0, .destroy, .destroyNext 1, .runFunctor 1,
    .runFunctor 1, .runFunctor 1, .runFunctor 1]

theorem registryExactSample :
    ∃ s, run step (construct ⟨127, 0, 0, 1, 8080⟩ (ascii "echo") 1) closingRun = some s ∧
      s.accepted.map Connection.name = [ascii "echo-127.0.0.1:8080#1", ascii "echo-127.0.0.1:8080#2"] ∧
      s.trace = [(0, .removeConnectionInLoop 0), (1, .connectEstablished 0), (1, .connectEstablished 1),
        (1, .connectDestroyed 0), (1, .connectDestroyed 1)] ∧ Exact s := by
  have ends : (run step (construct ⟨127, 0, 0, 1, 8080⟩ (ascii "echo") 1) closingRun).map
      (fun s => (s.accepted.map Connection.name, s.trace)) =
      some ([ascii "echo-127.0.0.1:8080#1", ascii "echo-127.0.0.1:8080#2"],
        [(0, .removeConnectionInLoop 0), (1, .connectEstablished 0), (1, .connectEstablished 1),
          (1, .connectDestroyed 0), (1, .connectDestroyed 1)]) := by decide
  obtain ⟨s, ok, fields⟩ := Option.map_eq_some_iff.mp ends
  obtain ⟨names, trace⟩ := Prod.mk.inj fields
  have two : s.accepted.length = 2 := by simpa using congrArg List.length names
  exact ⟨s, ok, names, trace, registryExact ok (by omega)⟩

end TinyNetwork.ServerRegistry
