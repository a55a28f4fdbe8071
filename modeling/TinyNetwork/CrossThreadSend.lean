import Mathlib.Logic.Function.Basic
import TinyNetwork.Runs
import TinyNetwork.TcpConnection

/-! send() from another thread. The overload for strings binds a pointer to the
caller's characters and their number, the overload for buffers binds a string of its
own; the loop thread reads what is bound when the functor's turn comes. A call is cut
between the binding and the push, and the caller's storage may change at any time after
the call has returned. -/
namespace TinyNetwork.CrossThreadSend
open Runs Buffer

/- What a caller passes: a string by the address of its characters, or a buffer. -/
inductive Argument where
  | string (address : Nat)
  | buffer (id : Nat)
  deriving DecidableEq, Repr

inductive Functor where
  | sendInLoopData (data len : Nat)
  | sendInLoopMessage (message : Bytes)
  deriving DecidableEq, Repr

structure Item where
  functor : Functor
  meant : Bytes
  deriving DecidableEq, Repr

/- `flights` are the calls of other threads that have bound and not yet pushed;
`handed` has what each functor passed to sendInLoop, `none` where it read memory that
is gone, beside what was meant. -/
structure State where
  conn : TcpConnection
  trace : List Effect
  strings : Nat → Option Bytes
  buffers : Nat → Option Buffer
  flights : List Item
  pendingFunctors : List Item
  handed : List (Option Bytes × Bytes)

/- `assign` creates, overwrites or (with `none`) destroys the characters at an address. -/
inductive Action where
  | assign (address : Nat) (chars : Option Bytes)
  | fill (id : Nat) (buffer : Option { b : Buffer // Valid b })
  | send (argument : Argument)
  | push (position : Nat)
  | functor (outcome : WriteOutcome)
  | sendHere (argument : Argument) (outcome : WriteOutcome)
  | handleWrite (outcome : WriteOutcome)
  | shutdown
  | handleClose

def readChars (chars : Option Bytes) (len : Nat) : Option Bytes := do
  let cs ← chars
  if len ≤ cs.length then some (cs.take len) else none

def handOver (s : State) (item : Item) : Option Bytes :=
  match item.functor with
  | .sendInLoopData data len => readChars (s.strings data) len
  | .sendInLoopMessage message => some message

def asMeant (_ : State) (item : Item) : Option Bytes := some item.meant

def pointsInto (item : Item) (address : Nat) : Bool :=
  match item.functor with
  | .sendInLoopData data _ => data == address
  | .sendInLoopMessage _ => false

def bound (s : State) : Argument → Option (Item × (Nat → Option Buffer))
  | .string address => do
      let chars ← s.strings address
      some (⟨.sendInLoopData address chars.length, chars⟩, s.buffers)
  | .buffer id => do
      let b ← s.buffers id
      let (message, rest) ← b.retrieveAllAsString
      some (⟨.sendInLoopMessage message, b.readable⟩, Function.update s.buffers id (some rest))

def sendInLoop (s : State) (data : Bytes) (outcome : WriteOutcome) : Option State := do
  let (conn, effects) ← s.conn.sendInLoop data outcome
  some { s with conn, trace := s.trace ++ effects }

def step (hand : State → Item → Option Bytes) (s : State) : Action → Option State
  | .assign address chars =>
      -- the caller's thread is inside send() until the push
      if s.flights.any (pointsInto · address) then none
      else some { s with strings := Function.update s.strings address chars }
  | .fill id buffer => some { s with buffers := Function.update s.buffers id (buffer.map Subtype.val) }
  | .send argument =>
      if s.conn.state = .kConnected then do
        let (item, buffers) ← bound s argument
        some { s with buffers, flights := s.flights ++ [item] }
      else some s
  | .push position => do
      let item ← s.flights[position]?
      some { s with
        flights := s.flights.eraseIdx position, pendingFunctors := s.pendingFunctors ++ [item] }
  | .functor outcome =>
      match s.pendingFunctors with
      | [] => none
      | item :: rest =>
          let ran := { s with pendingFunctors := rest, handed := s.handed ++ [(hand s item, item.meant)] }
          match hand s item with
          | some data => sendInLoop ran data outcome
          | none => some ran
  | .sendHere (.string address) outcome =>
      if s.conn.state = .kConnected then do
        let chars ← s.strings address
        sendInLoop s chars outcome
      else some s
  | .sendHere (.buffer id) outcome =>
      if s.conn.state = .kConnected then do
        let b ← s.buffers id
        let s ← sendInLoop s b.readable outcome
        some { s with buffers := Function.update s.buffers id (some b.retrieveAll) }
      else some s
  | .handleWrite outcome => do
      let (conn, effects) ← s.conn.handleWrite outcome
      some { s with conn, trace := s.trace ++ effects }
  | .shutdown => some { s with conn := s.conn.shutdown.1, trace := s.trace ++ s.conn.shutdown.2 }
  | .handleClose =>
      some { s with conn := { s.conn with state := .kDisconnected, channel := s.conn.channel.disableAll } }

def start (conn : TcpConnection) : State := ⟨conn, [], fun _ => none, fun _ => none, [], [], []⟩

def Spares (s : State) : Action → Prop
  | .assign address chars => ∀ item ∈ s.pendingFunctors, ∀ len,
      item.functor = .sendInLoopData address len → readChars chars len = some item.meant
  | _ => True

structure Inv (s : State) : Prop where
  valid : ∀ id b, s.buffers id = some b → Valid b
  flights : ∀ item ∈ s.flights, handOver s item = some item.meant
  queued : ∀ item ∈ s.pendingFunctors, handOver s item = some item.meant
  handed : ∀ pair ∈ s.handed, pair.1 = some pair.2

theorem startInv (conn : TcpConnection) : Inv (start conn) := by
  refine ⟨?_, ?_, ?_, ?_⟩ <;> simp [start]

theorem sendInLoopInv {s t : State} {data : Bytes} {outcome : WriteOutcome} (inv : Inv s)
    (ok : sendInLoop s data outcome = some t) : Inv t := by
  simp only [sendInLoop, bind, Option.bind_eq_some_iff] at ok
  obtain ⟨_, _, last⟩ := ok
  rw [← Option.some.inj last]
  exact ⟨inv.valid, inv.flights, inv.queued, inv.handed⟩

theorem buffersKept {s : State} (inv : Inv s) {id : Nat} {buffer : Option Buffer}
    (good : ∀ b, buffer = some b → Valid b) :
    ∀ other b, Function.update s.buffers id buffer other = some b → Valid b := by
  intro other b found
  by_cases same : other = id
  · rw [same, Function.update_self] at found
    exact good b found
  · rw [Function.update_of_ne same] at found
    exact inv.valid other b found

theorem boundInv {s : State} (inv : Inv s) {argument : Argument} {item : Item} {buffers : Nat → Option Buffer}
    (ok : bound s argument = some (item, buffers)) :
    handOver s item = some item.meant ∧ ∀ id b, buffers id = some b → Valid b := by
  cases argument with
  | string address =>
    simp only [bound, bind, Option.bind_eq_some_iff] at ok
    obtain ⟨chars, found, last⟩ := ok
    cases Option.some.inj last
    exact ⟨by simp [handOver, readChars, found], inv.valid⟩
  | buffer id =>
    simp only [bound, bind, Option.bind_eq_some_iff] at ok
    obtain ⟨b, found, ⟨message, rest⟩, taken, last⟩ := ok
    have valid := inv.valid id b found
    rw [retrieveAllAsString, retrieveAsStringEq valid (Nat.le_of_eq (readableBytesLength valid))] at taken
    cases Option.some.inj taken
    cases Option.some.inj last
    refine ⟨?_, buffersKept inv ?_⟩
    · rw [handOver, readableBytesLength valid, List.take_length]
    · intro c here
      rw [← Option.some.inj here]
      exact retrieveValid valid _

theorem assignInv {s : State} (inv : Inv s) {address : Nat} {chars : Option Bytes}
    (idle : s.flights.any (pointsInto · address) = false) (spares : Spares s (.assign address chars)) :
    Inv { s with strings := Function.update s.strings address chars } := by
  -- an item that does not point into the string finds what it found before
  have elsewhere (item : Item) (apart : pointsInto item address = false) :
      handOver { s with strings := Function.update s.strings address chars } item = handOver s item := by
    unfold handOver
    cases kind : item.functor with
    | sendInLoopMessage => rfl
    | sendInLoopData data len =>
      have other : data ≠ address := by simpa [pointsInto, kind] using apart
      simp only [Function.update_of_ne other]
  refine ⟨inv.valid, ?_, ?_, inv.handed⟩
  · intro item member
    rw [elsewhere item (by simpa using List.any_eq_false.mp idle item member)]
    exact inv.flights item member
  · intro item member
    by_cases apart : pointsInto item address = false
    · rw [elsewhere item apart]
      exact inv.queued item member
    · unfold handOver
      cases kind : item.functor with
      | sendInLoopMessage => simp [pointsInto, kind] at apart
      | sendInLoopData data len =>
        have here : data = address := by simpa [pointsInto, kind] using apart
        subst here
        simp only [Function.update_self]
        exact spares item member len kind

theorem stepInv {s t : State} {a : Action} (inv : Inv s) (spares : Spares s a) (ok : step handOver s a = some t) :
    Inv t := by
  cases a with
  | assign address chars =>
    simp only [step, Option.ite_none_left_eq_some, Bool.not_eq_true] at ok
    rw [← Option.some.inj ok.2]
    exact assignInv inv ok.1 spares
  | fill id buffer =>
    rw [← Option.some.inj ok]
    refine ⟨buffersKept inv ?_, inv.flights, inv.queued, inv.handed⟩
    rintro b found
    obtain ⟨good, _, rfl⟩ := Option.map_eq_some_iff.mp found
    exact good.property
  | send argument =>
    simp only [step] at ok
    split at ok
    · simp only [bind, Option.bind_eq_some_iff] at ok
      obtain ⟨⟨item, buffers⟩, made, last⟩ := ok
      obtain ⟨good, valid⟩ := boundInv inv made
      rw [← Option.some.inj last]
      refine ⟨valid, ?_, inv.queued, inv.handed⟩
      simp only [List.forall_mem_append, List.forall_mem_singleton]
      exact ⟨inv.flights, good⟩
    · rw [← Option.some.inj ok]
      exact inv
  | push position =>
    simp only [step, bind, Option.bind_eq_some_iff] at ok
    obtain ⟨item, found, last⟩ := ok
    rw [← Option.some.inj last]
    refine ⟨inv.valid, fun other member => inv.flights other (List.mem_of_mem_eraseIdx member), ?_, inv.handed⟩
    simp only [List.forall_mem_append, List.forall_mem_singleton]
    exact ⟨inv.queued, inv.flights item (List.mem_of_getElem? found)⟩
  | functor outcome =>
    simp only [step] at ok
    split at ok
    · contradiction
    · rename_i item rest queue
      have good := inv.queued item (by rw [queue]; exact List.mem_cons_self)
      have ran : Inv { s with pendingFunctors := rest, handed := s.handed ++ [(handOver s item, item.meant)] } := by
        refine ⟨inv.valid, inv.flights, ?_, ?_⟩
        · intro other member
          exact inv.queued other (by rw [queue]; exact List.mem_cons_of_mem _ member)
        · simp only [List.forall_mem_append, List.forall_mem_singleton]
          exact ⟨inv.handed, good⟩
      simp only [good] at ok ran
      exact sendInLoopInv ran ok
  | sendHere argument outcome =>
    cases argument with
    | string address =>
      simp only [step] at ok
      split at ok
      · obtain ⟨chars, _, sent⟩ := Option.bind_eq_some_iff.mp ok
        exact sendInLoopInv inv sent
      · rw [← Option.some.inj ok]
        exact inv
    | buffer id =>
      simp only [step] at ok
      split at ok
      · simp only [bind, Option.bind_eq_some_iff] at ok
        obtain ⟨b, found, u, sent, last⟩ := ok
        have kept := sendInLoopInv inv sent
        rw [← Option.some.inj last]
        refine ⟨buffersKept kept ?_, kept.flights, kept.queued, kept.handed⟩
        intro c here
        rw [← Option.some.inj here]
        exact retrieveAllValid (inv.valid id b found)
      · rw [← Option.some.inj ok]
        exact inv
  | handleWrite outcome =>
    simp only [step, bind, Option.bind_eq_some_iff] at ok
    obtain ⟨_, _, last⟩ := ok
    rw [← Option.some.inj last]
    exact ⟨inv.valid, inv.flights, inv.queued, inv.handed⟩
  | shutdown | handleClose =>
    rw [← Option.some.inj ok]
    exact ⟨inv.valid, inv.flights, inv.queued, inv.handed⟩

theorem stepAsMeant {s : State} (inv : Inv s) (a : Action) : step asMeant s a = step handOver s a := by
  cases a with
  | functor outcome =>
    simp only [step]
    split
    · rfl
    · rename_i item rest queue
      have good := inv.queued item (by rw [queue]; exact List.mem_cons_self)
      simp only [asMeant, good]
  | sendHere argument => cases argument <;> rfl
  | assign | fill | send | push | handleWrite | shutdown | handleClose => rfl

theorem runAsMeant {s last : State} (inv : Inv s) {actions : List Action}
    (spares : Along (step handOver) Spares s actions) (done : run (step handOver) s actions = some last) :
    run (step asMeant) s actions = some last := by
  induction actions generalizing s with
  | nil => exact done
  | cons a rest ih =>
    obtain ⟨t, first, later⟩ := runCons.mp done
    refine runCons.mpr ⟨t, (stepAsMeant inv a).trans first, ?_⟩
    exact ih (stepInv inv spares.1 first) (spares.2 t first) later

theorem sendsWhatWasMeant (conn : TcpConnection) {actions : List Action} {last : State}
    (spares : Along (step handOver) Spares (start conn) actions)
    (done : run (step handOver) (start conn) actions = some last) :
    (∀ pair ∈ last.handed, pair.1 = some pair.2) ∧ run (step asMeant) (start conn) actions = some last := by
  have inv := runInvariantAlong stepInv (startInv conn) spares done
  exact ⟨inv.handed, runAsMeant (startInv conn) spares done⟩

def sampleConn : TcpConnection :=
  ⟨.kConnected, (Channel.make 7).enableReading, false, false, 64, fresh⟩

def sampleSend (between : List Action) : List Action :=
  [.assign 1 (some (ascii "abc")), .send (.string 1), .push 0] ++ between ++ [.functor (.wrote 3)]

theorem sendsWhatWasMeantSample :
    ∃ last, run (step handOver) (start sampleConn) (sampleSend []) = some last ∧
      last.trace = [.accepted (ascii "abc")] ∧ ∀ pair ∈ last.handed, pair.1 = some pair.2 := by
  have seen : (run (step handOver) (start sampleConn) (sampleSend [])).map State.trace =
      some [.accepted (ascii "abc")] := by decide +kernel
  obtain ⟨last, done, trace⟩ := Option.map_eq_some_iff.mp seen
  have spares : Along (step handOver) Spares (start sampleConn) (sampleSend []) :=
    ⟨by simp [Spares, start], fun _ _ => ⟨trivial, fun _ _ => ⟨trivial, fun _ _ => ⟨trivial, fun _ _ => trivial⟩⟩⟩⟩
  exact ⟨last, done, trace, (sendsWhatWasMeant sampleConn spares done).1⟩

/- The caller reuses its string: the peer gets bytes that were never sent. -/
theorem overwrittenSend :
    ∃ last, run (step handOver) (start sampleConn) (sampleSend [.assign 1 (some (ascii "xyz"))]) = some last ∧
      last.handed = [(some (ascii "xyz"), ascii "abc")] ∧ last.trace = [.accepted (ascii "xyz")] := by
  have seen : (run (step handOver) (start sampleConn) (sampleSend [.assign 1 (some (ascii "xyz"))])).map
      (fun last => (last.handed, last.trace)) =
      some ([(some (ascii "xyz"), ascii "abc")], [.accepted (ascii "xyz")]) := by decide +kernel
  obtain ⟨last, done, both⟩ := Option.map_eq_some_iff.mp seen
  exact ⟨last, done, congrArg Prod.fst both, congrArg Prod.snd both⟩

end TinyNetwork.CrossThreadSend
