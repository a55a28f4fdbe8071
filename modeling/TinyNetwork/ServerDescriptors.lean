import Mathlib.Data.Int.CardIntervalMod
import TinyNetwork.ServerRegistry

/-! The descriptors of the accepted connections. A socket is closed when its connection
loses its last owner, and from then on accept4 may return its number again. The channel
of a connection is with the poller of its loop from connectEstablished to
connectDestroyed; no two channels that are there at the same time have one descriptor. -/
namespace TinyNetwork.ServerDescriptors
open Runs Precedence TcpServer ServerRegistry

/- `fds` has the descriptors of the connections in the order of acceptance. -/
structure State where
  server : TcpServer
  fds : List Nat

def boundTo : Functor → Nat
  | .connectEstablished conn | .connectDestroyed conn | .removeConnectionInLoop conn => conn

/- The registry, a destructor under way and queued functors hold a connection. -/
def owned (s : TcpServer) (conn : Nat) : Bool :=
  (s.alive && s.connections.entries.any fun entry => entry.2 == conn) || s.ending.contains conn ||
    (List.range (s.threadPool.loops + 1)).any fun loop => (s.queues loop).any fun f => boundTo f == conn

def openFds (s : State) : List Nat :=
  (s.fds.zipIdx.filter fun entry => owned s.server entry.2).map Prod.fst

inductive Action where
  | handleRead (connfd : Option Nat)
  | server (action : ServerRegistry.Action)
  deriving DecidableEq, Repr

/- Acceptor::handleRead: a failed accept is logged; a new descriptor is none that is open. -/
def handleRead (s : State) : Option Nat → Option State
  | none => some s
  | some connfd =>
      if connfd ∉ openFds s then some ⟨s.server.newConnection, s.fds ++ [connfd]⟩ else none

def step (s : State) : Action → Option State
  | .handleRead connfd => if s.server.alive then handleRead s connfd else none
  | .server .newConnection => none
  | .server a => do
      let server ← ServerRegistry.step s.server a
      some { s with server }

def start (listenAddr : InetAddress) (name : Bytes) (numThreads : Nat) : State :=
  ⟨construct listenAddr name numThreads, []⟩

structure Turns (numThreads : Nat) (s : TcpServer) : Prop where
  loops : s.threadPool.loops = numThreads
  next : numThreads ≠ 0 → s.threadPool.next = s.accepted.length % numThreads
  loop : ∀ conn c, s.accepted[conn]? = some c → c.loop = if numThreads = 0 then 0 else conn % numThreads + 1

def Caring (s : TcpServer) (conn : Nat) (c : Connection) : Prop :=
  (s.alive = true ∧ ∃ name, s.connections.lookup name = some conn) ∨ (s.alive = false ∧ conn ∈ s.ending) ∨
    .connectDestroyed conn ∈ s.queues c.loop ∨ (c.loop, .connectDestroyed conn) ∈ s.trace

def Cared (s : TcpServer) : Prop := ∀ conn c, s.accepted[conn]? = some c → Caring s conn c

section Server
variable {name ipPort : Bytes} {numThreads : Nat} {s t : TcpServer} {here loop conn : Nat} {c : Connection}
  {f : Functor}

theorem turnsNew (turns : Turns numThreads s) : Turns numThreads s.newConnection := by
  have pool : s.newConnection.threadPool = s.threadPool.getNextLoop.2 ∧
      s.newConnection.accepted =
        s.accepted ++ [⟨connName s.name s.ipPort s.nextConnId, s.threadPool.getNextLoop.1⟩] := by
    rw [newConnectionEq, runInLoop]
    split <;> exact ⟨rfl, rfl⟩
  obtain ⟨loops, next, loop⟩ := turns
  by_cases alone : numThreads = 0
  · have base : s.threadPool.getNextLoop = (0, s.threadPool) := by
      rw [EventLoopThreadPool.getNextLoop, if_pos (loops.trans alone)]
    refine ⟨by rw [pool.1, base, loops], fun some_ => absurd alone some_, fun conn c there => ?_⟩
    rw [pool.2, base] at there
    rcases acceptedCases there with old | ⟨-, rfl⟩
    · exact loop conn c old
    · rw [if_pos alone]
  · have turn := next alone
    have low := Nat.mod_lt s.accepted.length (Nat.pos_of_ne_zero alone)
    have wrap : (s.accepted.length + 1) % numThreads = (s.accepted.length % numThreads + 1) % numThreads :=
      (Nat.mod_add_mod ..).symm
    have given : s.threadPool.getNextLoop = (s.accepted.length % numThreads + 1,
        ⟨numThreads, (s.accepted.length + 1) % numThreads⟩) := by
      rw [EventLoopThreadPool.getNextLoop, if_neg (loops ▸ alone), turn, loops]
      refine Prod.ext rfl ?_
      simp only [EventLoopThreadPool.mk.injEq, true_and]
      split
      · rename_i last
        rw [wrap, show s.accepted.length % numThreads + 1 = numThreads by omega, Nat.mod_self]
      · rename_i more
        rw [wrap]
        exact (Nat.mod_eq_of_lt (Nat.lt_of_not_le more)).symm
    refine ⟨by rw [pool.1, given], fun _ => ?_, fun conn c there => ?_⟩
    · rw [pool.1, pool.2, given, List.length_append]
      rfl
    rw [pool.2, given] at there
    rcases acceptedCases there with old | ⟨rfl, rfl⟩
    · exact loop conn c old
    · rw [if_neg alone]

structure Frame (s t : TcpServer) : Prop where
  accepted : t.accepted = s.accepted
  threadPool : t.threadPool = s.threadPool
  alive : t.alive = s.alive
  ending : t.ending = s.ending

theorem callFrame (s : TcpServer) (here : Nat) (f : Functor) : Frame s (s.call here f) := by
  cases f with
  | connectEstablished conn | connectDestroyed conn => exact ⟨rfl, rfl, rfl, rfl⟩
  | removeConnectionInLoop conn =>
    simp only [call, TcpServer.removeConnectionInLoop]
    split <;> exact ⟨rfl, rfl, rfl, rfl⟩

theorem runInLoopFrame (s : TcpServer) (here loop : Nat) (f : Functor) : Frame s (s.runInLoop here loop f) := by
  unfold runInLoop
  split
  · exact callFrame s here f
  · exact ⟨rfl, rfl, rfl, rfl⟩

theorem callTrace (s : TcpServer) (here : Nat) (f : Functor) : (s.call here f).trace = s.trace ++ [(here, f)] := by
  cases f with
  | connectEstablished conn | connectDestroyed conn => rfl
  | removeConnectionInLoop conn =>
    simp only [call, TcpServer.removeConnectionInLoop]
    split <;> rfl

theorem runInLoopTrace (s : TcpServer) (here loop : Nat) (f : Functor) :
    (s.runInLoop here loop f).trace = s.trace ∨ (s.runInLoop here loop f).trace = s.trace ++ [(here, f)] := by
  unfold runInLoop
  split
  · exact .inr (callTrace s here f)
  · exact .inl rfl

structure Same (s t : TcpServer) : Prop where
  accepted : t.accepted = s.accepted
  threadPool : t.threadPool = s.threadPool
  alive : t.alive = true → s.alive = true ∧ t.ending ⊆ s.ending
  trace : t.trace = s.trace ∨ ∃ event, t.trace = s.trace ++ [event]

theorem frameSame (frame : Frame s t) (trace : t.trace = s.trace ∨ ∃ event, t.trace = s.trace ++ [event]) :
    Same s t :=
  ⟨frame.accepted, frame.threadPool,
    fun alive => ⟨frame.alive ▸ alive, frame.ending ▸ List.Subset.refl _⟩, trace⟩

theorem stepSame {a : ServerRegistry.Action} (other : a ≠ .newConnection) (ok : ServerRegistry.step s a = some t) :
    Same s t := by
  cases a with
  | newConnection => exact absurd rfl other
  | removeConnection here conn =>
    obtain ⟨-, last⟩ := Option.ite_none_right_eq_some.mp ok
    rw [← Option.some.inj last]
    exact frameSame (runInLoopFrame ..) ((runInLoopTrace ..).imp_right fun same => ⟨_, same⟩)
  | runFunctor loop =>
    simp only [ServerRegistry.step, runFunctor] at ok
    split at ok <;> try contradiction
    rename_i f rest front
    split at ok <;> try contradiction
    rw [← Option.some.inj ok]
    obtain ⟨accepted, threadPool, alive, trace⟩ :=
      frameSame (callFrame { s with queues := Function.update s.queues loop rest } loop f) (.inr ⟨_, callTrace ..⟩)
    exact ⟨accepted, threadPool, alive, trace⟩
  | destroy =>
    obtain ⟨-, last⟩ := Option.ite_none_right_eq_some.mp ok
    rw [← Option.some.inj last]
    exact ⟨rfl, rfl, nofun, .inl rfl⟩
  | destroyNext conn =>
    simp only [ServerRegistry.step, destroyNext] at ok
    split at ok <;> try contradiction
    rename_i c there
    split at ok <;> try contradiction
    rw [← Option.some.inj ok]
    obtain ⟨accepted, threadPool, alive, trace⟩ := frameSame
      (runInLoopFrame { s with ending := s.ending.erase conn } 0 c.loop (.connectDestroyed conn))
      ((runInLoopTrace ..).imp_right fun same => ⟨_, same⟩)
    exact ⟨accepted, threadPool, fun still => ⟨(alive still).1,
      List.Subset.trans (alive still).2 (List.erase_subset ..)⟩, trace⟩

theorem caringQueue (caring : Caring s conn c) (loop : Nat) (f : Functor) : Caring (s.queueInLoop loop f) conn c := by
  rcases caring with held | ending | queued | called
  · exact .inl held
  · exact .inr (.inl ending)
  · refine .inr (.inr (.inl ?_))
    by_cases same : c.loop = loop
    · rw [same] at queued ⊢
      simp only [queueInLoop, Function.update_self]
      exact List.mem_append_left _ queued
    · simp only [queueInLoop, Function.update_of_ne same]
      exact queued
  · exact .inr (.inr (.inr called))

theorem caringCall (distinct : Distinct s.accepted)
    (mirrors : s.alive = true → Mirrors s.accepted s.connections s.trace)
    (home : Home s.accepted (here, f)) (there : s.accepted[conn]? = some c) (caring : Caring s conn c) :
    Caring (s.call here f) conn c := by
  have traced : Caring { s with trace := s.trace ++ [(here, f)] } conn c :=
    caring.imp_right (.imp_right (.imp_right (List.mem_append_left _)))
  cases f with
  | connectEstablished other | connectDestroyed other => exact traced
  | removeConnectionInLoop other =>
    obtain ⟨base, below⟩ := home
    obtain ⟨d, found⟩ : ∃ d, s.accepted[other]? = some d := ⟨_, List.getElem?_eq_getElem below⟩
    rw [callRemoval found]
    rcases traced with ⟨alive, name, held⟩ | ending | queued | called
    · by_cases same : conn = other
      · subst same
        rw [there] at found
        cases Option.some.inj found
        refine .inr (.inr (.inl ?_))
        simp only [Function.update_self]
        exact List.mem_append_right _ (List.mem_singleton_self _)
      · have alive' : s.alive = true := alive
        refine .inl ⟨alive, name, ?_⟩
        simp only [alive', if_true]
        obtain ⟨⟨x, found', named⟩, -⟩ := (mirrors alive' name conn).mp held
        have different : name ≠ d.name := fun equal =>
          same (distinct conn other x d found' found (named.trans equal))
        rw [AList.lookup_erase_ne different]
        exact held
    · exact .inr (.inl ending)
    · refine .inr (.inr (.inl ?_))
      by_cases same : c.loop = d.loop
      · rw [same] at queued ⊢
        simp only [Function.update_self]
        exact List.mem_append_left _ queued
      · simp only [Function.update_of_ne same]
        exact queued
    · exact .inr (.inr (.inr called))

theorem caringRun (distinct : Distinct s.accepted)
    (mirrors : s.alive = true → Mirrors s.accepted s.connections s.trace)
    (home : Home s.accepted (here, f)) (there : s.accepted[conn]? = some c) (caring : Caring s conn c) :
    Caring (s.runInLoop here loop f) conn c := by
  unfold runInLoop
  split
  · exact caringCall distinct mirrors home there caring
  · exact caringQueue caring loop f

theorem caredNew (short : ipPort.length ≤ 21) (inv : ServerRegistry.Inv name ipPort s)
    (room : s.accepted.length + 1 < 2 ^ 31) (alive : s.alive = true) (cared : Cared s) : Cared s.newConnection := by
  have registered := registeredNew short inv.placed inv.registered
  have few : (register s).accepted.length < 2 ^ 31 := by simpa [register] using room
  have distinct := distinctNames short few registered.names
  have before : Cared (register s) := by
    intro conn c there
    rcases acceptedCases there with old | ⟨rfl, rfl⟩
    · refine (cared conn c old).imp_left ?_
      rintro ⟨-, name, held⟩
      refine ⟨alive, name, ?_⟩
      simp only [register]
      rw [AList.lookup_insert_ne]
      · exact held
      · rintro rfl
        rw [nextNameFree short inv.registered room alive] at held
        contradiction
    · exact .inl ⟨alive, _, AList.lookup_insert _⟩
  have home : Home (register s).accepted (s.threadPool.getNextLoop.1, .connectEstablished s.accepted.length) :=
    ⟨_, List.getElem?_concat_length, rfl⟩
  rw [newConnectionEq]
  intro conn c there
  rw [(runInLoopFrame ..).accepted] at there
  by_cases base : 0 = s.threadPool.getNextLoop.1
  · exact caringRun distinct (registered.registry few) (base ▸ home) there (before conn c there)
  · rw [runInLoop, if_neg base]
    exact caringQueue (before conn c there) _ _

theorem caredFunctor (distinct : Distinct s.accepted)
    (mirrors : s.alive = true → Mirrors s.accepted s.connections s.trace)
    (placed : Placed s.accepted s.queues s.trace) (cared : Cared s) (ok : s.runFunctor loop = some t) : Cared t := by
  unfold runFunctor at ok
  split at ok <;> try contradiction
  rename_i f rest front
  split at ok <;> try contradiction
  rw [← Option.some.inj ok]
  have home : Home s.accepted (loop, f) := placed.queued loop f (front ▸ List.mem_cons_self)
  intro conn c there
  rw [(callFrame ..).accepted] at there
  by_cases mine : c.loop = loop ∧ f = .connectDestroyed conn
  · obtain ⟨rfl, rfl⟩ := mine
    refine .inr (.inr (.inr ?_))
    rw [callTrace]
    exact List.mem_append_right _ (List.mem_singleton_self _)
  · refine caringCall (s := { s with queues := Function.update s.queues loop rest }) distinct mirrors home there ?_
    refine (cared conn c there).imp_right (.imp_right (.imp_left fun queued => ?_))
    by_cases same : c.loop = loop
    · rw [same] at queued ⊢
      rw [front] at queued
      simp only [Function.update_self]
      exact (List.mem_cons.mp queued).resolve_left fun equal => mine ⟨same, equal.symm⟩
    · simp only [Function.update_of_ne same]
      exact queued

theorem caredDestroy (alive : s.alive = true) (cared : Cared s) : Cared s.destroy := by
  intro conn c there
  rcases cared conn c there with ⟨-, name, held⟩ | ⟨gone, -⟩ | behind
  · exact .inr (.inl ⟨rfl, List.mem_map_of_mem (AList.mem_lookup_iff.mp held)⟩)
  · rw [alive] at gone
    contradiction
  · exact .inr (.inr behind)

theorem caredNext (cared : Cared s) (ok : s.destroyNext conn = some t) : Cared t := by
  unfold destroyNext at ok
  split at ok <;> try contradiction
  rename_i d found
  split at ok <;> try contradiction
  rw [← Option.some.inj ok]
  intro other c there
  rw [(runInLoopFrame ..).accepted] at there
  by_cases same : other = conn
  · subst same
    cases Option.some.inj (there.symm.trans found)
    refine .inr (.inr ?_)
    unfold runInLoop
    split
    · rename_i base
      rw [callTrace, base]
      exact .inr (List.mem_append_right _ (List.mem_singleton_self _))
    · refine .inl ?_
      simp only [queueInLoop, Function.update_self]
      exact List.mem_append_right _ (List.mem_singleton_self _)
  · have less : Caring { s with ending := s.ending.erase conn } other c :=
      (cared other c there).imp_right (.imp_left fun both => ⟨both.1, (List.mem_erase_of_ne same).mpr both.2⟩)
    unfold runInLoop
    split
    · exact less.imp_right (.imp_right (.imp_right (List.mem_append_left _)))
    · exact caringQueue less _ _

theorem caredStep {a : ServerRegistry.Action} (short : ipPort.length ≤ 21) (inv : ServerRegistry.Inv name ipPort s)
    (few : t.accepted.length < 2 ^ 31) (cared : Cared s) (ok : ServerRegistry.step s a = some t) : Cared t := by
  by_cases accepts : a = .newConnection
  · subst accepts
    obtain ⟨alive, last⟩ := Option.ite_none_right_eq_some.mp ok
    rw [← Option.some.inj last] at few ⊢
    rw [newConnectionEq, (runInLoopFrame ..).accepted] at few
    exact caredNew short inv (by simpa [register] using few) alive cared
  · rw [(stepSame accepts ok).accepted] at few
    have distinct := distinctNames short few inv.registered.names
    have mirrors := inv.registered.registry few
    cases a with
    | newConnection => exact absurd rfl accepts
    | removeConnection here conn =>
      obtain ⟨below, last⟩ := Option.ite_none_right_eq_some.mp ok
      rw [← Option.some.inj last]
      intro other c there
      rw [removeConnection, (runInLoopFrame ..).accepted] at there
      by_cases base : here = 0
      · exact caringRun distinct mirrors ⟨base, below⟩ there (cared other c there)
      · rw [removeConnection, runInLoop, if_neg base]
        exact caringQueue (cared other c there) _ _
    | runFunctor loop => exact caredFunctor distinct mirrors inv.placed cared ok
    | destroy =>
      obtain ⟨alive, last⟩ := Option.ite_none_right_eq_some.mp ok
      rw [← Option.some.inj last]
      exact caredDestroy alive cared
    | destroyNext conn => exact caredNext cared ok

theorem loopBound (turns : Turns numThreads s) (there : s.accepted[conn]? = some c) :
    c.loop < s.threadPool.loops + 1 := by
  rw [turns.loop conn c there, turns.loops]
  split
  · exact Nat.zero_lt_succ _
  · rename_i some_
    exact Nat.succ_lt_succ (Nat.mod_lt _ (Nat.pos_of_ne_zero some_))

theorem ownedQueued (low : loop < s.threadPool.loops + 1) (bound : boundTo f = conn) (queued : f ∈ s.queues loop) :
    owned s conn = true := by
  simp only [owned, Bool.or_eq_true, List.any_eq_true, List.mem_range, beq_iff_eq]
  exact .inr ⟨loop, low, f, queued, bound⟩

theorem caringOwned (turns : Turns numThreads s) (there : s.accepted[conn]? = some c) (caring : Caring s conn c)
    (kept : (c.loop, .connectDestroyed conn) ∉ s.trace) : owned s conn = true := by
  rcases caring with ⟨alive, name, held⟩ | ⟨-, ending⟩ | queued | called
  · have entry := AList.mem_lookup_iff.mp held
    simp only [owned, Bool.or_eq_true, Bool.and_eq_true, List.any_eq_true, beq_iff_eq]
    exact .inl (.inl ⟨alive, _, entry, rfl⟩)
  · simp only [owned, Bool.or_eq_true, List.contains_iff_mem]
    exact .inl (.inr ending)
  · exact ownedQueued (loopBound turns there) rfl queued
  · exact absurd called kept

end Server

theorem openFdsMember {s : State} {fd conn : Nat} (there : s.fds[conn]? = some fd)
    (held : owned s.server conn = true) : fd ∈ openFds s := by
  refine List.mem_map.mpr ⟨(fd, conn), List.mem_filter.mpr ⟨?_, held⟩, rfl⟩
  exact List.mk_mem_zipIdx_iff_getElem?.mpr there

inductive Reuse (s : State) : Nat × Functor → Nat × Functor → Prop where
  | again (loop : Nat) {i j fd : Nat} {c : Connection} (before : i < j) (there : s.server.accepted[i]? = some c)
      (first : s.fds[i]? = some fd) (second : s.fds[j]? = some fd) :
      Reuse s (loop, .connectEstablished j) (c.loop, .connectDestroyed i)

structure Descriptors (s : State) : Prop where
  cared : Cared s.server
  reused : ∀ e d, Reuse s e d → d ∈ s.server.trace
  order : Preceded (Reuse s) [] s.server.trace

structure Inv (name ipPort : Bytes) (numThreads : Nat) (s : State) : Prop where
  registry : ServerRegistry.Inv name ipPort s.server
  turns : Turns numThreads s.server
  length : s.fds.length = s.server.accepted.length
  ending : s.server.alive = true → s.server.ending = []
  descriptors : s.server.accepted.length < 2 ^ 31 → Descriptors s

section Steps
variable {name ipPort : Bytes} {numThreads : Nat} {s t : State} {server : TcpServer} {connfd : Nat}

theorem reuseCases {c : Connection} (length : s.fds.length = s.server.accepted.length)
    (accepted : server.accepted = s.server.accepted ++ [c]) {e d : Nat × Functor}
    (reuse : Reuse ⟨server, s.fds ++ [connfd]⟩ e d) :
    Reuse s e d ∨ ∃ loop i x, e = (loop, .connectEstablished s.server.accepted.length) ∧
      d = (x.loop, .connectDestroyed i) ∧ s.server.accepted[i]? = some x ∧ s.fds[i]? = some connfd := by
  obtain @⟨loop, i, j, fd, x, before, there, first, second⟩ := reuse
  simp only [accepted] at there
  have high : j < s.fds.length + 1 := by simpa using (List.getElem?_eq_some_iff.mp second).1
  have low : i < s.fds.length := by omega
  simp only [List.getElem?_append_left low] at first
  rw [List.getElem?_append_left (length ▸ low)] at there
  by_cases newest : j = s.fds.length
  · subst newest
    simp only [List.getElem?_concat_length, Option.some.injEq] at second
    exact .inr ⟨loop, i, x, by rw [length], rfl, there, second ▸ first⟩
  · simp only [List.getElem?_append_left (show j < s.fds.length by omega)] at second
    exact .inl (.again loop before there first second)

theorem acceptInv (short : ipPort.length ≤ 21) (inv : Inv name ipPort numThreads s) (alive : s.server.alive = true)
    (new : connfd ∉ openFds s) : Inv name ipPort numThreads ⟨s.server.newConnection, s.fds ++ [connfd]⟩ := by
  have grown : s.server.newConnection.accepted = (register s.server).accepted := by
    rw [newConnectionEq, (runInLoopFrame ..).accepted]
  have length : s.server.newConnection.accepted.length = s.server.accepted.length + 1 := by
    rw [grown]
    simp [register]
  have accepts : ServerRegistry.step s.server .newConnection = some s.server.newConnection := by
    simp only [ServerRegistry.step, alive, if_true]
  refine ⟨newConnectionInv short inv.registry, turnsNew inv.turns, ?_, fun _ => ?_, fun few => ?_⟩
  · rw [List.length_append, inv.length, length]
    rfl
  · simp only [newConnectionEq, (runInLoopFrame ..).ending]
    exact inv.ending alive
  · have few' : s.server.newConnection.accepted.length < 2 ^ 31 := few
    have old := inv.descriptors (by omega)
    have asked : ∀ e d, Reuse ⟨s.server.newConnection, s.fds ++ [connfd]⟩ e d → d ∈ s.server.trace := by
      intro e d reuse
      rcases reuseCases inv.length grown reuse with earlier | ⟨loop, i, x, rfl, rfl, there, first⟩
      · exact old.reused e d earlier
      · -- accept4 gave a number whose connection has no owner left
        by_contra kept
        exact new (openFdsMember first (caringOwned inv.turns there (old.cared i x there) kept))
    have order : Preceded (Reuse ⟨s.server.newConnection, s.fds ++ [connfd]⟩) [] s.server.trace := by
      refine precededFewer (fun e called d reuse => ?_) old.order
      rcases reuseCases inv.length grown reuse with earlier | ⟨loop, i, x, rfl, -⟩
      · exact earlier
      · obtain ⟨c, there, -⟩ := inv.registry.placed.called _ called
        exact absurd (List.getElem?_eq_some_iff.mp there).1 (Nat.lt_irrefl _)
    have traced := runInLoopTrace (register s.server) 0 s.server.threadPool.getNextLoop.1
      (.connectEstablished s.server.accepted.length)
    rw [← newConnectionEq] at traced
    refine ⟨caredStep short inv.registry few' old.cared accepts, fun e d reuse => ?_, ?_⟩
    · rcases traced with same | more
      · exact same ▸ asked e d reuse
      · exact more ▸ List.mem_append_left _ (asked e d reuse)
    · rcases traced with same | more
      · exact same ▸ order
      · exact more ▸ precededLast order fun d reuse => asked _ d reuse

theorem stepInv (short : ipPort.length ≤ 21) {a : Action} (inv : Inv name ipPort numThreads s)
    (ok : step s a = some t) : Inv name ipPort numThreads t := by
  cases a with
  | handleRead connfd =>
    obtain ⟨alive, last⟩ := Option.ite_none_right_eq_some.mp ok
    cases connfd with
    | none => exact Option.some.inj last ▸ inv
    | some connfd =>
      obtain ⟨new, last⟩ := Option.ite_none_right_eq_some.mp last
      exact Option.some.inj last ▸ acceptInv short inv alive new
  | server a =>
    by_cases accepts : a = .newConnection
    · subst accepts
      contradiction
    · have went : (ServerRegistry.step s.server a).bind (fun server => some { s with server }) = some t := by
        cases a <;> first | exact ok | contradiction
      obtain ⟨server, moved, last⟩ := Option.bind_eq_some_iff.mp went
      rw [← Option.some.inj last]
      obtain ⟨accepted, threadPool, alive, traced⟩ := stepSame accepts moved
      have reuse : ∀ e d, Reuse { s with server } e d → Reuse s e d := by
        rintro e d ⟨loop, before, there, first, second⟩
        simp only [accepted] at there
        exact .again loop before there first second
      refine ⟨ServerRegistry.stepInv short inv.registry moved, ?_, by rw [inv.length, accepted],
        fun still => ?_, fun few => ?_⟩
      · obtain ⟨loops, next, loop⟩ := inv.turns
        exact ⟨threadPool ▸ loops, by rw [threadPool, accepted]; exact next, by rw [accepted]; exact loop⟩
      · have before := inv.ending (alive still).1
        exact List.subset_nil.mp (before ▸ (alive still).2)
      · have few' : s.server.accepted.length < 2 ^ 31 := accepted ▸ few
        have old := inv.descriptors few'
        have order : Preceded (Reuse { s with server }) [] s.server.trace :=
          precededFewer (fun e _ d again => reuse e d again) old.order
        refine ⟨caredStep short inv.registry few old.cared moved, fun e d again => ?_, ?_⟩
        · have called := old.reused e d (reuse e d again)
          rcases traced with same | ⟨event, more⟩
          · exact same ▸ called
          · exact more ▸ List.mem_append_left _ called
        · rcases traced with same | ⟨event, more⟩
          · exact same ▸ order
          · exact more ▸ precededLast order fun d again => old.reused _ d (reuse _ d again)

end Steps

theorem startInv (listenAddr : InetAddress) (name : Bytes) (numThreads : Nat) :
    Inv name listenAddr.toIpPort numThreads (start listenAddr name numThreads) where
  registry := constructInv listenAddr name numThreads
  turns := ⟨rfl, fun _ => (Nat.zero_mod numThreads).symm, nofun⟩
  length := rfl
  ending _ := rfl
  descriptors _ := ⟨nofun, nofun, trivial⟩

def Watched (s : TcpServer) (conn : Nat) (c : Connection) : Prop :=
  (c.loop, .connectEstablished conn) ∈ s.trace ∧ (c.loop, .connectDestroyed conn) ∉ s.trace

structure Resting (s : State) : Prop where
  serving : s.server.alive = true → ∀ fd, fd ∈ openFds s ↔
    ∃ conn : Nat, s.fds[conn]? = some fd ∧ (0, .removeConnectionInLoop conn) ∉ s.server.trace
  gone : s.server.alive = false → s.server.ending = [] → openFds s = [] ∧
    ∀ conn c, s.server.accepted[conn]? = some c →
      (c.loop, .connectEstablished conn) ∈ s.server.trace ∧ (c.loop, .connectDestroyed conn) ∈ s.server.trace

structure Kept (s : State) : Prop where
  stays : ∀ (conn : Nat) c fd, s.server.accepted[conn]? = some c → Watched s.server conn c →
    s.fds[conn]? = some fd → fd ∈ openFds s
  distinct : ∀ (i j : Nat) c d fd, s.server.accepted[i]? = some c → s.server.accepted[j]? = some d →
    Watched s.server i c → Watched s.server j d → s.fds[i]? = some fd → s.fds[j]? = some fd → i = j
  order : ∀ before loop (i j : Nat) after c fd, s.server.trace = before ++ (loop, .connectEstablished j) :: after →
    i < j → s.server.accepted[i]? = some c → s.fds[i]? = some fd → s.fds[j]? = some fd →
      (c.loop, .connectDestroyed i) ∈ before
  resting : (∀ loop, s.server.queues loop = []) → Resting s

section Results
variable {name ipPort : Bytes} {numThreads : Nat} {s : State}

theorem ownedResting (quiet : ∀ loop, s.server.queues loop = []) (conn : Nat) :
    owned s.server conn = true ↔
      (s.server.alive = true ∧ ∃ name, s.server.connections.lookup name = some conn) ∨ conn ∈ s.server.ending := by
  simp only [owned, quiet, List.any_nil, List.any_eq_true, Bool.false_eq_true, and_false, exists_const,
    Bool.or_eq_true, Bool.and_eq_true, List.contains_iff_mem, or_false, beq_iff_eq]
  refine or_congr_left (and_congr_right fun _ => ⟨?_, ?_⟩)
  · rintro ⟨⟨name, conn⟩, entry, rfl⟩
    exact ⟨name, AList.mem_lookup_iff.mpr entry⟩
  · rintro ⟨name, held⟩
    exact ⟨⟨name, conn⟩, AList.mem_lookup_iff.mp held, rfl⟩

theorem openFdsIff {fd : Nat} :
    fd ∈ openFds s ↔ ∃ conn : Nat, s.fds[conn]? = some fd ∧ owned s.server conn = true := by
  constructor
  · intro member
    obtain ⟨⟨fd, conn⟩, entry, rfl⟩ := List.mem_map.mp member
    obtain ⟨there, held⟩ := List.mem_filter.mp entry
    exact ⟨conn, List.mk_mem_zipIdx_iff_getElem?.mp there, held⟩
  · rintro ⟨conn, there, held⟩
    exact openFdsMember there held

theorem resting (inv : Inv name ipPort numThreads s) (few : s.server.accepted.length < 2 ^ 31)
    (quiet : ∀ loop, s.server.queues loop = []) : Resting s := by
  have held := ownedResting quiet
  constructor
  · intro alive fd
    have mirrors := inv.registry.registered.registry few alive
    rw [openFdsIff]
    refine exists_congr fun conn => and_congr_right fun there => ?_
    have below : conn < s.server.accepted.length := inv.length ▸ (List.getElem?_eq_some_iff.mp there).1
    rw [held, inv.ending alive]
    constructor
    · rintro (⟨-, name, entry⟩ | ending)
      · exact ((mirrors name conn).mp entry).2
      · contradiction
    · intro stays
      exact .inl ⟨alive, _, (mirrors _ conn).mpr ⟨⟨_, List.getElem?_eq_getElem below, rfl⟩, stays⟩⟩
  · intro gone ended
    have nobody (conn : Nat) : ¬owned s.server conn = true := by
      rw [held, gone, ended]
      simp
    refine ⟨List.eq_nil_iff_forall_not_mem.mpr fun fd member => ?_, fun conn c there => ?_⟩
    · obtain ⟨conn, -, owner⟩ := openFdsIff.mp member
      exact nobody conn owner
    · have established := (inv.registry.ordered.established conn c there).resolve_right (by simp [quiet])
      refine ⟨established, by_contra fun kept => nobody conn ?_⟩
      exact caringOwned inv.turns there ((inv.descriptors few).cared conn c there) kept

theorem descriptorsKept {listenAddr : InetAddress} {actions : List Action}
    (ok : run step (start listenAddr name numThreads) actions = some s)
    (few : s.server.accepted.length < 2 ^ 31) : Kept s := by
  have inv := runInvariant (stepInv (ipPortLength listenAddr)) (startInv listenAddr name numThreads) ok
  obtain ⟨cared, reused, order⟩ := inv.descriptors few
  have ended {i j fd : Nat} {c : Connection} (before : i < j) (there : s.server.accepted[i]? = some c)
      (first : s.fds[i]? = some fd) (second : s.fds[j]? = some fd) : ¬Watched s.server i c :=
    fun watched => watched.2 (reused _ _ (.again 0 before there first second))
  refine ⟨fun conn c fd there watched place => ?_, fun i j c d fd there there' mine yours first second => ?_,
    fun before loop i j after c fd called less there first second => ?_, resting inv few⟩
  · exact openFdsMember place (caringOwned inv.turns there (cared conn c there) watched.2)
  · rcases Nat.lt_trichotomy i j with less | same | more
    · exact absurd mine (ended less there first second)
    · exact same
    · exact absurd yours (ended more there' second first)
  · exact precededBefore order called (.again loop less there first second)

def reusingRun : List Action :=
  [.handleRead (some 9), .handleRead none, .server (.runFunctor 1), .server (.removeConnection 1 0),
    .server (.runFunctor 0), .server (.runFunctor 1), .handleRead (some 9), .server (.runFunctor 1)]

theorem descriptorsKeptSample :
    ∃ s, run step (start ⟨127, 0, 0, 1, 8080⟩ (ascii "echo") 1) reusingRun = some s ∧ s.fds = [9, 9] ∧
      openFds s = [9] ∧ s.server.trace = [(1, .connectEstablished 0), (0, .removeConnectionInLoop 0),
        (1, .connectDestroyed 0), (1, .connectEstablished 1)] ∧ Kept s := by
  have ends : (run step (start ⟨127, 0, 0, 1, 8080⟩ (ascii "echo") 1) reusingRun).map
      (fun s => (s.fds, openFds s, s.server.trace, s.server.accepted.length)) =
      some ([9, 9], [9], [(1, .connectEstablished 0), (0, .removeConnectionInLoop 0), (1, .connectDestroyed 0),
        (1, .connectEstablished 1)], 2) := by decide
  obtain ⟨s, ok, fields⟩ := Option.map_eq_some_iff.mp ends
  simp only [Prod.mk.injEq] at fields
  obtain ⟨fds, opened, trace, two⟩ := fields
  exact ⟨s, ok, fds, opened, trace, descriptorsKept ok (by omega)⟩

def load (s : TcpServer) (loop : Nat) : Nat :=
  s.accepted.countP fun c => c.loop == loop

theorem loopsTaken {server : TcpServer} (turns : Turns numThreads server) (some_ : numThreads ≠ 0) :
    server.accepted.map Connection.loop =
      (List.range server.accepted.length).map fun conn => conn % numThreads + 1 := by
  refine List.ext_getElem (by simp) fun conn low _ => ?_
  have below : conn < server.accepted.length := by simpa using low
  have turn := turns.loop conn _ (List.getElem?_eq_getElem below)
  rw [if_neg some_] at turn
  simpa using turn

theorem acceptedEvenly {listenAddr : InetAddress} {actions : List Action} {loop : Nat}
    (ok : run step (start listenAddr name numThreads) actions = some s) (low : loop < numThreads) :
    load s.server (loop + 1) =
      s.fds.length / numThreads + if loop < s.fds.length % numThreads then 1 else 0 := by
  have inv := runInvariant (stepInv (ipPortLength listenAddr)) (startInv listenAddr name numThreads) ok
  have counted := congrArg (List.countP fun other => other == loop + 1) (loopsTaken inv.turns (by omega))
  rw [List.countP_map, List.countP_map] at counted
  have modular : (List.range s.server.accepted.length).countP
      ((fun other => other == loop + 1) ∘ fun conn => conn % numThreads + 1) =
      Nat.count (fun conn => conn ≡ loop [MOD numThreads]) s.server.accepted.length := by
    refine List.countP_congr fun conn _ => ?_
    simp [Nat.ModEq, Nat.mod_eq_of_lt low]
  have exact := Nat.count_modEq_card s.server.accepted.length (show 0 < numThreads by omega) loop
  rw [Nat.mod_eq_of_lt low, ← inv.length] at exact
  rw [← exact, inv.length, ← modular, ← counted]
  rfl

def threeAccepts : List Action :=
  [.handleRead (some 9), .handleRead none, .handleRead (some 10), .handleRead (some 11)]

theorem acceptedEvenlySample :
    ∃ s, run step (start ⟨127, 0, 0, 1, 8080⟩ (ascii "echo") 2) threeAccepts = some s ∧
      s.fds = [9, 10, 11] ∧ load s.server 1 = 2 ∧ load s.server 2 = 1 := by
  have ends : (run step (start ⟨127, 0, 0, 1, 8080⟩ (ascii "echo") 2) threeAccepts).map State.fds =
      some [9, 10, 11] := by decide
  obtain ⟨s, ok, fds⟩ := Option.map_eq_some_iff.mp ends
  refine ⟨s, ok, fds, ?_, ?_⟩
  · rw [acceptedEvenly ok (show 0 < 2 by decide), fds]
    rfl
  · rw [acceptedEvenly ok (show 1 < 2 by decide), fds]
    rfl

end Results

end TinyNetwork.ServerDescriptors
