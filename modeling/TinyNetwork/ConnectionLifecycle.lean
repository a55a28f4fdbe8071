import TinyNetwork.ConnectionEvents
import TinyNetwork.Runs

/-! The callbacks over the life of a connection. Four paths end a connection, and they
test different things: handleClose nothing, connectDestroyed only kConnected. What the
user sees is right as long as handleClose meets a connection that is still open and
connectDestroyed one that is not half closed. -/
namespace TinyNetwork.ConnectionLifecycle
open Runs LiveConnection

/- The connection with its server. `registered` is membership in connections_;
`removals` and `destroys` count the functors removeConnectionInLoop of the base loop
and connectDestroyed of the connection's loop. The server's memory is taken to stay
readable for calls that come after its destructor. -/
structure State where
  life : LiveConnection
  sameLoop : Bool
  established : Bool
  registered : Bool
  server : Bool
  removals : Nat
  destroys : Nat
  destroyed : Nat
  deriving DecidableEq, Repr

inductive Action where
  | connectEstablished (script : List UserCall)
  | event (delivery : Delivery)
  | call (c : UserCall)
  | removeConnectionInLoop
  | connectDestroyed (script : List UserCall)
  | destroyServer (script : List UserCall)
  deriving DecidableEq, Repr

def told (trace : List Note) : List Bool :=
  trace.filterMap fun
    | .connectionCallback connected => some connected
    | _ => none

def closed (trace : List Note) : Nat := trace.count .closeCallback

def stores (trace : List Note) : List StateE :=
  trace.filterMap fun
    | .setState state => some state
    | _ => none

/- removeConnection: runInLoop of the base loop runs its functor at once when the
connection lives there too. -/
def removeConnection (s : State) (calls : Nat) : State :=
  if s.sameLoop then
    { s with registered := s.registered && calls == 0, destroys := s.destroys + calls }
  else { s with removals := s.removals + calls }

def destroy (s : State) (script : List UserCall) : Option State := do
  let life ← s.life.connectDestroyed script
  some { s with life, destroyed := s.destroyed + 1 }

def step (s : State) : Action → Option State
  | .connectEstablished script =>
      if s.established then none
      else do
        let life ← s.life.connectEstablished script
        some { s with life, established := true }
  | .event delivery =>
      if s.established then do
        let life ← s.life.handleEventWithGuard delivery
        some (removeConnection { s with life } (closed life.trace - closed s.life.trace))
      else none
  | .call c =>
      if s.established then do
        let life ← s.life.call c
        some { s with life }
      else none
  | .removeConnectionInLoop =>
      if s.removals = 0 then none
      else some { s with removals := s.removals - 1, registered := false, destroys := s.destroys + 1 }
  | .connectDestroyed script =>
      if s.established ∧ 0 < s.destroys then destroy { s with destroys := s.destroys - 1 } script
      else none
  | .destroyServer script =>
      if s.server = false ∨ (s.sameLoop ∧ ¬ s.established) then none
      else if s.registered then
        if s.sameLoop then destroy { s with server := false } script
        else some { s with server := false, destroys := s.destroys + 1 }
      else some { s with server := false }

def start (fd : Nat) (writeComplete highWater : Bool) (mark : Nat) (sameLoop : Bool) : State :=
  ⟨make fd writeComplete highWater mark, sameLoop, false, true, true, 0, 0, 0⟩

structure Proper (s : State) : Prop where
  once : s.established = true → told s.life.trace = [true] ∨ told s.life.trace = [true, false]
  destroyed : 0 < s.destroyed → told s.life.trace = [true, false]
  closed : closed s.life.trace ≤ 1
  final : (stores s.life.trace).Pairwise fun before after => before = .kDisconnected → after = .kDisconnected

def closings (d : Delivery) : Nat :=
  (if d.revents.epollhup && !d.revents.epollin then 1 else 0) +
    if (d.revents.epollin || d.revents.epollpri) && d.readv = .got [] then 1 else 0

/- handleClose is called at most once in a report, and not on a closed connection;
connectDestroyed does not find a half-closed one. -/
def Meets (s : State) : Action → Prop
  | .event d => closings d = 0 ∨ (closings d = 1 ∧ s.life.conn.state ≠ .kDisconnected)
  | .connectDestroyed _ => s.life.conn.state ≠ .kDisconnecting
  | .destroyServer _ => s.registered = true ∧ s.sameLoop = true → s.life.conn.state ≠ .kDisconnecting
  | _ => True

instance (s : State) : (a : Action) → Decidable (Meets s a)
  | .connectEstablished _ => .isTrue trivial
  | .event d =>
      inferInstanceAs (Decidable (closings d = 0 ∨ (closings d = 1 ∧ s.life.conn.state ≠ .kDisconnected)))
  | .call _ => .isTrue trivial
  | .removeConnectionInLoop => .isTrue trivial
  | .connectDestroyed _ => inferInstanceAs (Decidable (s.life.conn.state ≠ .kDisconnecting))
  | .destroyServer _ =>
      inferInstanceAs (Decidable (s.registered = true ∧ s.sameLoop = true → s.life.conn.state ≠ .kDisconnecting))

section
variable {l m o : LiveConnection}

structure Settled (l : LiveConnection) : Prop where
  final : (stores l.trace).Pairwise fun before after => before = .kDisconnected → after = .kDisconnected
  now : .kDisconnected ∈ stores l.trace → l.conn.state = .kDisconnected

structure Closes (n : Nat) (l m : LiveConnection) : Prop where
  told : told m.trace = told l.trace ++ List.replicate n false
  closed : closed m.trace = closed l.trace + n
  open_ : n = 0 → m.conn.state = l.conn.state ∨
    (l.conn.state = .kConnected ∧ m.conn.state = .kDisconnecting)
  shut : 0 < n → m.conn.state = .kDisconnected
  settled : Settled l → Settled m

theorem closesSelf (l : LiveConnection) : Closes 0 l l :=
  ⟨by simp, rfl, fun _ => .inl rfl, fun absurd_ => by omega, id⟩

theorem closesTrans {n k : Nat} (first : Closes n l m) (second : Closes k m o) : Closes (n + k) l o := by
  refine ⟨?_, ?_, fun zero => ?_, fun some => ?_, second.settled ∘ first.settled⟩
  · rw [second.told, first.told, List.append_assoc, List.replicate_append_replicate]
  · rw [second.closed, first.closed, Nat.add_assoc]
  · rcases first.open_ (by omega) with same | ⟨was, now⟩
    · rw [← same]
      exact second.open_ (by omega)
    · rcases second.open_ (by omega) with same' | ⟨was', _⟩
      · exact .inr ⟨was, same'.trans now⟩
      · rw [now] at was'
        contradiction
  · by_cases last : 0 < k
    · exact second.shut last
    · have down := first.shut (by omega)
      rcases second.open_ (by omega) with same | ⟨was, _⟩
      · exact same.trans down
      · rw [down] at was
        contradiction

def Silent (notes : List Note) : Prop :=
  ∀ n ∈ notes, (∀ connected, n ≠ .connectionCallback connected) ∧ n ≠ .closeCallback ∧ ∀ state, n ≠ .setState state

theorem silentNotes {notes : List Note} (silent : Silent notes) (trace : List Note) :
    told (trace ++ notes) = told trace ∧ closed (trace ++ notes) = closed trace ∧
      stores (trace ++ notes) = stores trace := by
  refine ⟨?_, ?_, ?_⟩
  · have none_ : told notes = [] := by
      refine List.filterMap_eq_nil_iff.mpr fun n member => ?_
      obtain ⟨quiet, _, _⟩ := silent n member
      cases n <;> simp_all
    rw [told, List.filterMap_append]
    simpa [told] using none_
  · have none_ : closed notes = 0 := List.count_eq_zero.mpr fun member => (silent _ member).2.1 rfl
    rw [closed, List.count_append]
    simpa [closed] using none_
  · have none_ : stores notes = [] := by
      refine List.filterMap_eq_nil_iff.mpr fun n member => ?_
      obtain ⟨_, _, quiet⟩ := silent n member
      cases n <;> simp_all
    rw [stores, List.filterMap_append]
    simpa [stores] using none_

theorem silentCloses {notes : List Note} (silent : Silent notes) (trace : m.trace = l.trace ++ notes)
    (state : m.conn.state = l.conn.state) : Closes 0 l m := by
  obtain ⟨same, count, kept⟩ := silentNotes silent l.trace
  rw [← trace] at same count kept
  refine ⟨by simp [same], count, fun _ => .inl state, fun absurd_ => by omega, fun settled => ?_⟩
  exact ⟨kept ▸ settled.final, by rw [kept, state]; exact settled.now⟩

theorem silentEffects (effects : List Effect) : Silent (effects.map .effect) := by
  intro n member
  obtain ⟨e, _, rfl⟩ := List.mem_map.mp member
  simp

theorem noteCloses (l : LiveConnection) {n : Note} (quiet : (∀ connected, n ≠ .connectionCallback connected) ∧
    n ≠ .closeCallback ∧ ∀ state, n ≠ .setState state) : Closes 0 l (l.note n) := by
  refine silentCloses (fun k member => ?_) rfl rfl
  rw [List.mem_singleton.mp member]
  exact quiet

theorem handleErrorCloses (l : LiveConnection) (text : String) :
    Closes 0 l (l.note (.effect (.logError text))).handleError :=
  closesTrans (noteCloses l (by simp)) (noteCloses _ (by simp))

theorem toldNote (l : LiveConnection) (n : Note) : told (l.note n).trace = told l.trace ++ told [n] :=
  List.filterMap_append

theorem closedNote (l : LiveConnection) (n : Note) : closed (l.note n).trace = closed l.trace + closed [n] :=
  List.count_append

theorem storesNote (l : LiveConnection) (n : Note) : stores (l.note n).trace = stores l.trace ++ stores [n] :=
  List.filterMap_append

theorem toldSet (l : LiveConnection) (state : StateE) : told (l.setState state).trace = told l.trace :=
  (toldNote _ _).trans (List.append_nil _)

theorem closedSet (l : LiveConnection) (state : StateE) : closed (l.setState state).trace = closed l.trace :=
  closedNote _ _

theorem settledSet (settled : Settled l) {state : StateE}
    (stays : l.conn.state = .kDisconnected → state = .kDisconnected) : Settled (l.setState state) := by
  have all : stores (l.setState state).trace = stores l.trace ++ [state] := storesNote _ _
  constructor
  · rw [all]
    refine List.pairwise_append.mpr ⟨settled.final, by simp, fun before member after last was => ?_⟩
    rw [List.mem_singleton.mp last]
    exact stays (settled.now (was ▸ member))
  · rw [all]
    intro member
    rcases List.mem_append.mp member with old | new
    · exact stays (settled.now old)
    · exact (List.mem_singleton.mp new).symm

theorem settledSame (settled : Settled l) (same : stores m.trace = stores l.trace)
    (state : m.conn.state = l.conn.state) : Settled m :=
  ⟨same ▸ settled.final, by rw [same, state]; exact settled.now⟩

theorem sendInLoopState {c d : TcpConnection} {data : Bytes} {outcome : WriteOutcome} {effects : List Effect}
    (ok : c.sendInLoop data outcome = some (d, effects)) : d.state = c.state := by
  unfold TcpConnection.sendInLoop at ok
  split at ok
  · cases Option.some.inj ok
    rfl
  · simp only [bind, Option.bind_eq_some_iff] at ok
    obtain ⟨⟨nwrote, fault, first⟩, _, ok⟩ := ok
    split at ok
    · simp only [TcpConnection.bufferRest, bind, Option.bind_eq_some_iff] at ok
      obtain ⟨out, _, last⟩ := ok
      cases Option.some.inj last
      rfl
    · cases Option.some.inj ok
      rfl

theorem handleWriteState {c d : TcpConnection} {outcome : WriteOutcome} {effects : List Effect}
    (ok : c.handleWrite outcome = some (d, effects)) : d.state = c.state := by
  unfold TcpConnection.handleWrite at ok
  split at ok
  · cases outcome with
    | wrote n =>
      simp only at ok
      split at ok <;> try contradiction
      split at ok
      · cases Option.some.inj ok
        simp only [TcpConnection.drained]
        split <;> rfl
      · cases Option.some.inj ok
        rfl
    | failed errno =>
      cases Option.some.inj ok
      rfl
  · cases Option.some.inj ok
    rfl

theorem callCloses {c : UserCall} (ok : l.call c = some m) : Closes 0 l m := by
  cases c with
  | send data outcome =>
    simp only [call, send] at ok
    split at ok
    · simp only [bind, Option.bind_eq_some_iff] at ok
      obtain ⟨⟨conn, effects⟩, sent, last⟩ := ok
      rw [← Option.some.inj last]
      exact silentCloses (silentEffects effects) rfl (sendInLoopState sent)
    · rw [← Option.some.inj ok]
      exact closesSelf l
  | shutdown =>
    simp only [call, shutdown] at ok
    split at ok
    · rename_i connected
      rw [← Option.some.inj ok]
      let half := l.setState .kDisconnecting
      have first : Closes 0 l half :=
        ⟨by simp [half, toldSet], closedSet l _, fun _ => .inr ⟨connected, rfl⟩, fun absurd_ => by omega,
          fun settled => settledSet settled fun down => by simp [connected] at down⟩
      have second : Closes 0 half (half.effects half.conn half.conn.shutdownInLoop) :=
        silentCloses (silentEffects half.conn.shutdownInLoop) rfl rfl
      exact closesTrans first second
    · rw [← Option.some.inj ok]
      exact closesSelf l

theorem callsClose {script : List UserCall} (ok : l.calls script = some m) : Closes 0 l m := by
  induction script generalizing l with
  | nil =>
    cases Option.some.inj ok
    exact closesSelf _
  | cons c rest ih =>
    simp only [calls, bind, Option.bind_eq_some_iff] at ok
    obtain ⟨next, called, more⟩ := ok
    exact closesTrans (callCloses called) (ih more)

theorem disconnectedSpec {script : List UserCall} {channel : Channel}
    (ok : ((l.setState .kDisconnected).setChannel channel).connectionCallback script = some m) :
    told m.trace = told l.trace ++ [false] ∧ closed m.trace = closed l.trace ∧
      m.conn.state = .kDisconnected ∧ (Settled l → Settled m) := by
  let down := (l.setState .kDisconnected).setChannel channel
  have after : Closes 0 (down.note (.connectionCallback down.connected)) m := callsClose ok
  refine ⟨?_, ?_, ?_, fun settled => after.settled ?_⟩
  · rw [after.told, toldNote, List.replicate_zero, List.append_nil]
    have before : told down.trace = told l.trace := toldSet l _
    rw [before]
    rfl
  · rw [after.closed, closedNote]
    exact closedSet l _
  · rcases after.open_ rfl with same | ⟨was, _⟩
    · exact same
    · simp [down, setChannel, setState, note] at was
  · refine settledSame (settledSet settled fun _ => rfl) ?_ rfl
    rw [storesNote]
    simp [down, setChannel, stores]

theorem handleCloseCloses {script : List UserCall} (ok : l.handleClose script = some m) : Closes 1 l m := by
  simp only [handleClose, bind, Option.bind_eq_some_iff] at ok
  obtain ⟨down, called, last⟩ := ok
  obtain ⟨told', closed', state, settled⟩ := disconnectedSpec called
  rw [← Option.some.inj last]
  refine ⟨?_, ?_, fun absurd_ => by omega, fun _ => state, fun before => ?_⟩
  · rw [toldNote, told']
    simp [told]
  · rw [closedNote, closed']
    simp [closed]
  · refine settledSame (settled before) ?_ rfl
    rw [storesNote]
    simp [stores]

theorem readFdCount {b c : Buffer} {readv : Readv} {n : Int} (ok : b.readFd readv = some (c, n)) :
    n = 0 ↔ readv = .got [] := by
  cases readv with
  | failed errno =>
    cases Option.some.inj ok
    simp
  | got data =>
    have count : n = data.length := by
      simp only [Buffer.readFd] at ok
      split at ok <;> try contradiction
      simp only [bind, Option.bind_eq_some_iff] at ok
      obtain ⟨v, _, ok⟩ := ok
      split at ok
      · cases Option.some.inj ok
        rfl
      · obtain ⟨d, _, last⟩ := Option.bind_eq_some_iff.mp ok
        cases Option.some.inj last
        rfl
    rw [count]
    simp

theorem handleReadCloses {readv : Readv} {script : List UserCall} (ok : l.handleRead readv script = some m) :
    Closes (if readv = .got [] then 1 else 0) l m := by
  simp only [handleRead, bind, Option.bind_eq_some_iff] at ok
  obtain ⟨⟨inputBuffer, n⟩, got, ok⟩ := ok
  have zero := readFdCount got
  have read : Closes 0 l { l with inputBuffer } :=
    ⟨by simp, rfl, fun _ => .inl rfl, fun absurd_ => by omega, fun settled => ⟨settled.final, settled.now⟩⟩
  split at ok
  · rename_i positive
    rw [if_neg fun end_ => by rw [← zero] at end_; omega]
    have noted := closesTrans read (noteCloses { l with inputBuffer } (n := .messageCallback) (by simp))
    exact closesTrans noted (callsClose ok)
  · split at ok
    · rename_i none_
      rw [if_pos (zero.mp none_)]
      exact closesTrans read (handleCloseCloses ok)
    · rename_i negative
      rw [if_neg fun end_ => negative (zero.mpr end_), ← Option.some.inj ok]
      exact closesTrans read (handleErrorCloses { l with inputBuffer } _)

theorem eventCloses {d : Delivery} (ok : l.handleEventWithGuard d = some m) : Closes (closings d) l m := by
  simp only [handleEventWithGuard, bind, Option.bind_eq_some_iff] at ok
  obtain ⟨hung, first, read, second, last⟩ := ok
  have close : Closes (if d.revents.epollhup && !d.revents.epollin then 1 else 0) l hung := by
    unfold closeEvent at first
    split at first
    · rename_i hangup
      rw [if_pos hangup]
      exact handleCloseCloses first
    · rename_i quiet
      rw [if_neg quiet, ← Option.some.inj first]
      exact closesSelf _
  have error : Closes 0 hung (hung.errorEvent d) := by
    unfold errorEvent
    split
    · exact handleErrorCloses _ _
    · exact closesSelf _
  have reads : Closes (if (d.revents.epollin || d.revents.epollpri) && d.readv = .got [] then 1 else 0)
      (hung.errorEvent d) read := by
    unfold readEvent at second
    split at second
    · rename_i readable
      simpa [readable] using handleReadCloses second
    · rename_i quiet
      rw [← Option.some.inj second, if_neg (by simp [quiet])]
      exact closesSelf _
  have writes : Closes 0 read m := by
    unfold writeEvent at last
    split at last
    · simp only [handleWrite, bind, Option.bind_eq_some_iff] at last
      obtain ⟨⟨conn, effects⟩, wrote, last⟩ := last
      rw [← Option.some.inj last]
      exact silentCloses (silentEffects effects) rfl (handleWriteState wrote)
    · rw [← Option.some.inj last]
      exact closesSelf _
  have all := closesTrans (closesTrans (closesTrans close error) reads) writes
  exact all

theorem connectDestroyedSpec {script : List UserCall} (ok : l.connectDestroyed script = some m) :
    (l.conn.state = .kConnected ∧ told m.trace = told l.trace ++ [false] ∧ m.conn.state = .kDisconnected ∨
      l.conn.state ≠ .kConnected ∧ told m.trace = told l.trace ∧ m.conn.state = l.conn.state) ∧
      closed m.trace = closed l.trace ∧ (Settled l → Settled m) := by
  unfold connectDestroyed at ok
  split at ok
  · rename_i connected
    simp only [bind, Option.bind_eq_some_iff] at ok
    obtain ⟨down, called, last⟩ := ok
    obtain ⟨told', closed', state, settled⟩ := disconnectedSpec called
    rw [← Option.some.inj last]
    have quiet := noteCloses down (n := .removeChannel) (by simp)
    refine ⟨.inl ⟨connected, ?_, state⟩, quiet.closed.trans closed', quiet.settled ∘ settled⟩
    rw [quiet.told, told']
    simp
  · rename_i other
    rw [← Option.some.inj ok]
    have quiet := noteCloses l (n := .removeChannel) (by simp)
    exact ⟨.inr ⟨other, by simpa using quiet.told, rfl⟩, quiet.closed, quiet.settled⟩

theorem connectEstablishedSpec {script : List UserCall} (ok : l.connectEstablished script = some m) :
    told m.trace = told l.trace ++ [true] ∧ closed m.trace = closed l.trace ∧
      (m.conn.state = .kConnected ∨ m.conn.state = .kDisconnecting) ∧
      (l.conn.state ≠ .kDisconnected → Settled l → Settled m) := by
  let up := (l.setState .kConnected).setChannel (l.setState .kConnected).conn.channel.enableReading
  have after : Closes 0 (up.note (.connectionCallback up.connected)) m := callsClose ok
  refine ⟨?_, ?_, ?_, fun before settled => after.settled ?_⟩
  · rw [after.told, toldNote, List.replicate_zero, List.append_nil]
    have same : told up.trace = told l.trace := toldSet l _
    rw [same]
    rfl
  · rw [after.closed, closedNote]
    exact closedSet l _
  · rcases after.open_ rfl with same | ⟨_, now⟩
    · exact .inl same
    · exact .inr now
  · have set : Settled (l.setState .kConnected) := settledSet settled fun down => absurd down before
    refine settledSame set ?_ rfl
    rw [storesNote]
    simp [up, setChannel, stores]

end

inductive Standing (s : State) : Prop where
  | fresh (no : s.established = false) (state : s.life.conn.state = .kConnecting)
      (told : told s.life.trace = []) (closed : closed s.life.trace = 0) (destroyed : s.destroyed = 0)
  | up (yes : s.established = true) (state : s.life.conn.state = .kConnected ∨ s.life.conn.state = .kDisconnecting)
      (told : told s.life.trace = [true]) (closed : closed s.life.trace = 0) (destroyed : s.destroyed = 0)
  | down (yes : s.established = true) (state : s.life.conn.state = .kDisconnected)
      (told : told s.life.trace = [true, false]) (closed : closed s.life.trace ≤ 1)

def Inv (s : State) : Prop := Standing s ∧ Settled s.life

theorem properOf {s : State} (inv : Inv s) : Proper s := by
  obtain ⟨standing, settled⟩ := inv
  cases standing with
  | fresh no state told closed destroyed =>
    exact ⟨fun yes => by simp [no] at yes, fun some => by omega, by omega, settled.final⟩
  | up yes state told closed destroyed =>
    exact ⟨fun _ => .inl told, fun some => by omega, by omega, settled.final⟩
  | down yes state told closed => exact ⟨fun _ => .inr told, fun _ => told, closed, settled.final⟩

theorem closesStanding {s t : State} {n : Nat} (inv : Inv s) (established : s.established = true)
    (closes : Closes n s.life t.life) (same : t.established = s.established ∧ t.destroyed = s.destroyed) :
    ((n = 0 ∨ (n = 1 ∧ s.life.conn.state ≠ .kDisconnected)) ↔ Proper t) ∧ (Proper t → Inv t) := by
  obtain ⟨standing, settled⟩ := inv
  obtain ⟨yes, count⟩ := same
  rw [established] at yes
  have told' := closes.told
  have closed' := closes.closed
  have good : n = 0 ∨ (n = 1 ∧ s.life.conn.state ≠ .kDisconnected) → Inv t := by
    intro meets
    refine ⟨?_, closes.settled settled⟩
    cases standing with
    | fresh no => simp [no] at established
    | up _ state told closed destroyed =>
      rcases meets with rfl | ⟨rfl, _⟩
      · refine .up yes ?_ (by simp [told', told]) (by omega) (by omega)
        rcases closes.open_ rfl with same | ⟨_, now⟩
        · rwa [same]
        · exact .inr now
      · exact .down yes (closes.shut Nat.one_pos) (by simp [told', told]) (by omega)
    | down _ state told closed =>
      rcases meets with rfl | ⟨_, notDown⟩
      · refine .down yes ?_ (by simp [told', told]) (by omega)
        rcases closes.open_ rfl with same | ⟨was, _⟩
        · exact same.trans state
        · simp [state] at was
      · exact absurd state notDown
  have bad : Proper t → n = 0 ∨ (n = 1 ∧ s.life.conn.state ≠ .kDisconnected) := by
    intro proper
    have few : (told t.life.trace).length ≤ 2 := by
      rcases proper.once yes with one | two
      · simp [one]
      · simp [two]
    rw [told', List.length_append, List.length_replicate] at few
    cases standing with
    | fresh no => simp [no] at established
    | up _ state told closed destroyed =>
      rw [told, List.length_singleton] at few
      have open_ : s.life.conn.state ≠ .kDisconnected := by
        rcases state with now | now <;> simp [now]
      have atMost : n = 0 ∨ n = 1 := by omega
      exact atMost.imp_right fun one => ⟨one, open_⟩
    | down _ state told closed =>
      rw [told, show [true, false].length = 2 from rfl] at few
      exact .inl (by omega)
  exact ⟨⟨fun meets => properOf (good meets), bad⟩, fun proper => good (bad proper)⟩

theorem destroyStanding {s t : State} {script : List UserCall} (inv : Inv s) (established : s.established = true)
    (ok : destroy s script = some t) :
    (s.life.conn.state ≠ .kDisconnecting ↔ Proper t) ∧ (Proper t → Inv t) := by
  obtain ⟨standing, settled⟩ := inv
  simp only [destroy, bind, Option.bind_eq_some_iff] at ok
  obtain ⟨life, destroyed, last⟩ := ok
  rw [← Option.some.inj last]
  obtain ⟨cases_, closed', settled'⟩ := connectDestroyedSpec destroyed
  have good : s.life.conn.state ≠ .kDisconnecting → Inv { s with life, destroyed := s.destroyed + 1 } := by
    intro meets
    refine ⟨?_, settled' settled⟩
    cases standing with
    | fresh no => simp [no] at established
    | up _ state told closed =>
      obtain ⟨_, told', state'⟩ := cases_.resolve_right fun other => other.1 (state.resolve_right meets)
      exact .down established state' (by simp [told', told]) (by simp [closed', closed])
    | down _ state told closed =>
      obtain ⟨_, told', state'⟩ := cases_.resolve_left fun other => by simp [state] at other
      exact .down established (state'.trans state) (told'.trans told) (by rwa [closed'])
  have bad : Proper { s with life, destroyed := s.destroyed + 1 } → s.life.conn.state ≠ .kDisconnecting := by
    intro proper half
    have told' := proper.destroyed (Nat.succ_pos _)
    obtain ⟨_, same, _⟩ := cases_.resolve_left fun other => by simp [half] at other
    simp only [same] at told'
    cases standing with
    | fresh no => simp [no] at established
    | up _ state told closed => simp [told] at told'
    | down _ state => simp [half] at state
  exact ⟨⟨fun meets => properOf (good meets), bad⟩, fun proper => good (bad proper)⟩

theorem sameLife {s t : State} (inv : Inv s)
    (same : t.life = s.life ∧ t.established = s.established ∧ t.destroyed = s.destroyed) : Inv t := by
  obtain ⟨life, established, destroyed⟩ := same
  obtain ⟨standing, settled⟩ := inv
  refine ⟨?_, life ▸ settled⟩
  cases standing with
  | fresh no state told closed count =>
    exact .fresh (by rw [established, no]) (by rw [life, state]) (by rw [life, told]) (by rw [life, closed])
      (by rw [destroyed, count])
  | up yes state told closed count =>
    exact .up (by rw [established, yes]) (by rwa [life]) (by rw [life, told]) (by rw [life, closed])
      (by rw [destroyed, count])
  | down yes state told closed =>
    exact .down (by rw [established, yes]) (by rw [life, state]) (by rw [life, told]) (by rwa [life])

def Enabled (s : State) (a : Action) : Prop := (step s a).isSome

instance (s : State) (a : Action) : Decidable (Enabled s a) := inferInstanceAs (Decidable (_ = true))

theorem meetsAlways {s t : State} {a : Action} (meets : Meets s a) (inv : Inv t) :
    (Meets s a ↔ Proper t) ∧ (Proper t → Inv t) :=
  ⟨⟨fun _ => properOf inv, fun _ => meets⟩, fun _ => inv⟩

theorem stepMeets {s : State} {a : Action} (inv : Inv s) (enabled : Enabled s a) :
    ∃ t, step s a = some t ∧ (Meets s a ↔ Proper t) ∧ (Proper t → Inv t) := by
  obtain ⟨t, ok⟩ := Option.isSome_iff_exists.mp enabled
  refine ⟨t, ok, ?_⟩
  cases a with
  | connectEstablished script =>
    simp only [step] at ok
    split at ok <;> try contradiction
    rename_i new
    simp only [bind, Option.bind_eq_some_iff] at ok
    obtain ⟨life, made, last⟩ := ok
    rw [← Option.some.inj last]
    obtain ⟨told', closed', state, settled⟩ := connectEstablishedSpec made
    obtain ⟨standing, settled'⟩ := inv
    cases standing with
    | fresh no was told closed destroyed =>
      refine meetsAlways trivial ⟨.up rfl state (by simp [told', told]) (by simp [closed', closed]) destroyed, ?_⟩
      exact settled (by simp [was]) settled'
    | up yes => exact absurd yes new
    | down yes => exact absurd yes new
  | event delivery =>
    simp only [step] at ok
    split at ok <;> try contradiction
    rename_i established
    simp only [bind, Option.bind_eq_some_iff] at ok
    obtain ⟨life, handled, last⟩ := ok
    rw [← Option.some.inj last]
    refine closesStanding (n := closings delivery) inv established ?_ ?_
    · unfold removeConnection
      split <;> exact eventCloses handled
    · unfold removeConnection
      split <;> exact ⟨rfl, rfl⟩
  | call c =>
    simp only [step] at ok
    split at ok <;> try contradiction
    rename_i established
    simp only [bind, Option.bind_eq_some_iff] at ok
    obtain ⟨life, called, last⟩ := ok
    rw [← Option.some.inj last]
    have standing := closesStanding (t := { s with life }) inv established (callCloses called) ⟨rfl, rfl⟩
    exact meetsAlways trivial (standing.2 (standing.1.mp (.inl rfl)))
  | removeConnectionInLoop =>
    simp only [step] at ok
    split at ok <;> try contradiction
    rw [← Option.some.inj ok]
    exact meetsAlways trivial (sameLife inv ⟨rfl, rfl, rfl⟩)
  | connectDestroyed script =>
    simp only [step] at ok
    split at ok <;> try contradiction
    rename_i ready
    have inv' : Inv { s with destroys := s.destroys - 1 } := sameLife inv ⟨rfl, rfl, rfl⟩
    have standing := destroyStanding inv' ready.1 ok
    exact standing
  | destroyServer script =>
    simp only [step] at ok
    split at ok <;> try contradiction
    rename_i alive
    split at ok
    · rename_i registered
      split at ok
      · rename_i sameLoop
        have established : s.established = true := by
          by_contra no
          exact alive (.inr ⟨sameLoop, no⟩)
        have inv' : Inv { s with server := false } := sameLife inv ⟨rfl, rfl, rfl⟩
        have standing := destroyStanding inv' established ok
        simpa only [Meets, registered, sameLoop, and_self, true_implies] using standing
      · rename_i otherLoop
        rw [← Option.some.inj ok]
        exact meetsAlways (fun both => absurd both.2 otherLoop) (sameLife inv ⟨rfl, rfl, rfl⟩)
    · rename_i removed
      rw [← Option.some.inj ok]
      exact meetsAlways (fun both => absurd both.1 removed) (sameLife inv ⟨rfl, rfl, rfl⟩)

theorem startInv (fd : Nat) (writeComplete highWater : Bool) (mark : Nat) (sameLoop : Bool) :
    Inv (start fd writeComplete highWater mark sameLoop) :=
  ⟨.fresh rfl rfl rfl rfl rfl, ⟨List.Pairwise.nil, fun member => by simp [start, make, stores] at member⟩⟩

theorem lifecycleIff {fd : Nat} {writeComplete highWater : Bool} {mark : Nat} {sameLoop : Bool}
    {actions : List Action}
    (enabled : Along step Enabled (start fd writeComplete highWater mark sameLoop) actions) :
    Along step (fun s a => ∀ t, step s a = some t → Proper t)
        (start fd writeComplete highWater mark sameLoop) actions ↔
      Along step Meets (start fd writeComplete highWater mark sameLoop) actions :=
  alongIff stepMeets (startInv fd writeComplete highWater mark sameLoop) enabled

def peerCloses : List Action :=
  [.connectEstablished [], .event ⟨{ epollin := true }, .got [1], .wrote 0, [], [.send [2] (.wrote 1)]⟩,
    .event ⟨{ epollin := true }, .got [], .wrote 0, [], []⟩, .removeConnectionInLoop, .connectDestroyed []]

theorem lifecycleSample :
    Along step (fun s a => ∀ t, step s a = some t → Proper t) (start 5 true false 64 false) peerCloses :=
  (lifecycleIff (by decide +kernel)).mpr (by decide +kernel)

/- A half-closed connection that the server's destructor ends: nobody is told. And a
hang-up with urgent data pending, where the read gives nothing: everybody is told
twice. -/
theorem lifecycleBroken :
    (∃ s, run step (start 5 true false 64 false)
        [.connectEstablished [], .call .shutdown, .destroyServer [], .connectDestroyed []] = some s ∧
      told s.life.trace = [true] ∧ ¬ Proper s) ∧
    ∃ s, run step (start 5 true false 64 false)
        [.connectEstablished [],
          .event ⟨{ epollhup := true, epollpri := true }, .got [], .wrote 0, [], []⟩] = some s ∧
      told s.life.trace = [true, false, false] ∧ closed s.life.trace = 2 ∧ ¬ Proper s := by
  constructor
  · have ends : (run step (start 5 true false 64 false)
        [.connectEstablished [], .call .shutdown, .destroyServer [], .connectDestroyed []]).map
        (fun s => (told s.life.trace, s.destroyed)) = some ([true], 1) := by decide +kernel
    obtain ⟨s, ok, fields⟩ := Option.map_eq_some_iff.mp ends
    obtain ⟨told', destroyed⟩ := Prod.mk.inj fields
    refine ⟨s, ok, told', fun proper => ?_⟩
    have both := proper.destroyed (by omega)
    simp [told'] at both
  · have ends : (run step (start 5 true false 64 false)
        [.connectEstablished [],
          .event ⟨{ epollhup := true, epollpri := true }, .got [], .wrote 0, [], []⟩]).map
        (fun s => (told s.life.trace, closed s.life.trace)) = some ([true, false, false], 2) := by decide +kernel
    obtain ⟨s, ok, fields⟩ := Option.map_eq_some_iff.mp ends
    obtain ⟨told', closed'⟩ := Prod.mk.inj fields
    refine ⟨s, ok, told', closed', fun proper => ?_⟩
    have once := proper.closed
    omega

end TinyNetwork.ConnectionLifecycle
