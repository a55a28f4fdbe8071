import Mathlib.Data.List.Forall2
import TinyNetwork.TimerQueue

/-! Who holds a Timer. A Timer is in timers_, in the expired batch before its
callback, in the batch after it, or deleted, and what has happened to it so far
tells which. The ledger says so for every Timer ever created; adding, running,
putting back and deleting one each move one Timer and leave the others where they are. -/
namespace TinyNetwork.TimerCustody
open OrderedSets Runs TimerQueue

def serialOf : TimerEvent → Nat
  | .added timer => timer.serial
  | .ran timer => timer.serial
  | .putBack timer _ => timer.serial
  | .deleted timer => timer.serial

def history (serial : Nat) (log : List TimerEvent) : List TimerEvent :=
  log.filter (fun event => serialOf event == serial)

@[simp] theorem restartSerial (t : Timer) (now : Timestamp) : (t.restart now).serial = t.serial := by
  unfold Timer.restart
  split <;> rfl

@[simp] theorem restartRepeats (t : Timer) (now : Timestamp) : (t.restart now).repeats = t.repeats := by
  unfold Timer.restart
  split <;> rfl

theorem historySame (event : TimerEvent) {serial : Nat} {log : List TimerEvent}
    (same : serialOf event = serial) : history serial (log ++ [event]) = history serial log ++ [event] := by
  simp [history, same]

theorem historyOther (event : TimerEvent) {serial : Nat} {log : List TimerEvent}
    (other : serialOf event ≠ serial) : history serial (log ++ [event]) = history serial log := by
  simp [history, other]

/- The lives of a Timer that waits for its expiration: it was added, and since then
it ran and was put back any number of times if it is a repeating one. -/
inductive Waiting : Timer → List TimerEvent → Prop
  | added (timer : Timer) : Waiting timer [.added timer]
  | again {timer : Timer} {past : List TimerEvent} (now : Timestamp) (waiting : Waiting timer past)
      (repeating : timer.repeats = true) :
      Waiting (timer.restart now) (past ++ [.ran timer, .putBack (timer.restart now) now])

theorem waitingOnce {timer : Timer} {past : List TimerEvent} (waiting : Waiting timer past)
    (once : timer.repeats = false) : past = [.added timer] := by
  cases waiting with
  | added => rfl
  | again now _ repeating =>
    rw [restartRepeats, repeating] at once
    contradiction

def Called (timer : Timer) (past : List TimerEvent) : Prop :=
  ∃ before, Waiting timer before ∧ past = before ++ [.ran timer]

def Finished (serial : Nat) (past : List TimerEvent) : Prop :=
  ∃ timer : Timer, timer.serial = serial ∧ timer.repeats = false ∧
    past = [.added timer, .ran timer, .deleted timer]

/- `waiting` are the entries whose Timer waits, `called` those whose callback has run
and that reset has not reached. -/
structure Ledger (heap : Nat → Option Timer) (created : Nat) (log : List TimerEvent)
    (waiting called : List Entry) : Prop where
  keyed : ∀ e ∈ waiting ++ called, ∃ timer, heap e.2 = some timer ∧ timer.expiration = e.1
  below : ∀ e ∈ waiting ++ called, e.2 < uintptrMax
  once : ((waiting ++ called).map Prod.snd).Nodup
  apart : ∀ a b x y, heap a = some x → heap b = some y → x.serial = y.serial → a = b
  bounded : ∀ a x, heap a = some x → x.serial < created
  logged : ∀ event ∈ log, serialOf event < created
  waits : ∀ e ∈ waiting, ∀ timer, heap e.2 = some timer → Waiting timer (history timer.serial log)
  ran : ∀ e ∈ called, ∀ timer, heap e.2 = some timer → Called timer (history timer.serial log)
  finished : ∀ serial < created, (∀ a x, heap a = some x → x.serial ≠ serial) →
    Finished serial (history serial log)
  held : ∀ a x, heap a = some x → a ∈ (waiting ++ called).map Prod.snd

section Ledger
variable {heap : Nat → Option Timer} {created : Nat} {log : List TimerEvent}
  {waiting waiting' called called' : List Entry}

theorem ledgerStart : Ledger (fun _ => none) 0 [] [] [] := by
  constructor <;> simp

theorem ledgerPerm (ledger : Ledger heap created log waiting called)
    (same : waiting.Perm waiting') (same' : called.Perm called') :
    Ledger heap created log waiting' called' := by
  have all : (waiting ++ called).Perm (waiting' ++ called') := same.append same'
  exact {
    keyed := fun e member => ledger.keyed e (all.mem_iff.mpr member)
    below := fun e member => ledger.below e (all.mem_iff.mpr member)
    once := (all.map Prod.snd).nodup_iff.mp ledger.once
    apart := ledger.apart
    bounded := ledger.bounded
    logged := ledger.logged
    waits := fun e member => ledger.waits e (same.mem_iff.mpr member)
    ran := fun e member => ledger.ran e (same'.mem_iff.mpr member)
    finished := ledger.finished
    held := fun a x live => (all.map Prod.snd).mem_iff.mp (ledger.held a x live) }

theorem Ledger.elsewhere {a b : Nat} {x y : Timer} {value : Option Timer} {event : TimerEvent}
    (ledger : Ledger heap created log waiting called) (live : heap a = some x)
    (own : serialOf event = x.serial) (other : b ≠ a) (there : Function.update heap a value b = some y) :
    heap b = some y ∧ history y.serial (log ++ [event]) = history y.serial log := by
  rw [Function.update_of_ne other] at there
  refine ⟨there, historyOther event fun same => other ?_⟩
  exact ledger.apart b a y x there live (same.symm.trans own)

theorem ledgerAdd {a : Nat} {t : Timer} (ledger : Ledger heap created log waiting called)
    (unused : heap a = none) (fits : a < uintptrMax) (serial : t.serial = created) :
    Ledger (Function.update heap a (some t)) (created + 1) (log ++ [.added t])
      ((t.expiration, a) :: waiting) called := by
  have elsewhere : ∀ e ∈ waiting ++ called, e.2 ≠ a := by
    intro e member same
    obtain ⟨timer, live, _⟩ := ledger.keyed e member
    rw [same, unused] at live
    contradiction
  have older : ∀ {b x}, heap b = some x → serialOf (.added t) ≠ x.serial := by
    intro b x live same
    have := ledger.bounded b x live
    simp only [serialOf] at same
    omega
  constructor
  case keyed =>
    intro e member
    rcases List.mem_cons.mp member with rfl | inside
    · exact ⟨t, by simp, rfl⟩
    · simpa [elsewhere e inside] using ledger.keyed e inside
  case below =>
    intro e member
    rcases List.mem_cons.mp member with rfl | inside
    · exact fits
    · exact ledger.below e inside
  case once =>
    refine List.nodup_cons.mpr ⟨fun member => ?_, ledger.once⟩
    obtain ⟨e, inside, same⟩ := List.mem_map.mp member
    exact elsewhere e inside same
  case apart =>
    intro b d x y live live' same
    have := ledger.bounded b x
    have := ledger.bounded d y
    have := ledger.apart b d x y
    grind [Function.update_apply]
  case bounded =>
    intro b x live
    have := ledger.bounded b x
    grind [Function.update_apply]
  case logged =>
    intro event member
    have := ledger.logged event
    grind [serialOf]
  case waits =>
    intro e member timer live
    rcases List.mem_cons.mp member with rfl | inside
    · obtain rfl : t = timer := by simpa using live
      have none : history t.serial log = [] := by
        refine List.filter_eq_nil_iff.mpr fun event recorded => ?_
        have := ledger.logged event recorded
        simp only [beq_iff_eq]
        omega
      have own : serialOf (.added t) = t.serial := rfl
      rw [historySame _ own, none]
      exact .added t
    · have at_ := elsewhere e (List.mem_append_left _ inside)
      rw [Function.update_of_ne at_] at live
      rw [historyOther (.added t) (older live)]
      exact ledger.waits e inside timer live
  case ran =>
    intro e member timer live
    have at_ := elsewhere e (List.mem_append_right _ member)
    rw [Function.update_of_ne at_] at live
    rw [historyOther (.added t) (older live)]
    exact ledger.ran e member timer live
  case finished =>
    intro k bound absent
    have notNew : t.serial ≠ k := absent a t (by simp)
    rw [historyOther (.added t) notNew]
    refine ledger.finished k (by omega) fun b x live => absent b x ?_
    rw [Function.update_of_ne, live]
    rintro rfl
    rw [unused] at live
    contradiction
  case held =>
    intro b x live
    have := ledger.held b x
    grind [Function.update_apply]

theorem ledgerRun {e : Entry} {t : Timer} (ledger : Ledger heap created log (e :: waiting) called)
    (live : heap e.2 = some t) : Ledger heap created (log ++ [.ran t]) waiting (e :: called) := by
  have all : (e :: waiting ++ called).Perm (waiting ++ e :: called) := List.perm_middle.symm
  have apart : ∀ d ∈ waiting ++ called, d.2 ≠ e.2 := by
    intro d member same
    exact (List.nodup_cons.mp ledger.once).1 (List.mem_map.mpr ⟨d, member, same⟩)
  have others : ∀ d ∈ waiting ++ called, ∀ timer, heap d.2 = some timer →
      history timer.serial (log ++ [.ran t]) = history timer.serial log := by
    intro d member timer there
    rw [← Function.update_eq_self e.2 heap] at there
    exact (ledger.elsewhere live rfl (apart d member) there).2
  exact {
    keyed := fun d member => ledger.keyed d (all.mem_iff.mpr member)
    below := fun d member => ledger.below d (all.mem_iff.mpr member)
    once := (all.map Prod.snd).nodup_iff.mp ledger.once
    apart := ledger.apart
    bounded := ledger.bounded
    logged := by
      intro event member
      have := ledger.logged event
      have := ledger.bounded e.2 t live
      grind [serialOf]
    waits := by
      intro d member timer there
      rw [others d (List.mem_append_left _ member) timer there]
      exact ledger.waits d (List.mem_cons_of_mem _ member) timer there
    ran := by
      intro d member timer there
      rcases List.mem_cons.mp member with rfl | inside
      · rw [live] at there
        cases there
        exact ⟨_, ledger.waits d List.mem_cons_self t live, historySame (.ran t) rfl⟩
      · rw [others d (List.mem_append_right _ inside) timer there]
        exact ledger.ran d inside timer there
    finished := by
      intro k bound absent
      rw [historyOther (.ran t) (absent e.2 t live)]
      exact ledger.finished k bound absent
    held := fun a x there => (all.map Prod.snd).mem_iff.mp (ledger.held a x there) }

theorem Ledger.firstCalled {e : Entry} (ledger : Ledger heap created log waiting (e :: called)) :
    ((e :: (waiting ++ called)).map Prod.snd).Nodup ∧ (∀ d ∈ waiting ++ called, d.2 ≠ e.2) ∧
      ∀ d ∈ waiting ++ called, d ∈ waiting ++ e :: called := by
  have nodup : ((e :: (waiting ++ called)).map Prod.snd).Nodup :=
    (List.perm_middle.map Prod.snd).nodup_iff.mp ledger.once
  refine ⟨nodup, fun d member same => ?_, fun d member => ?_⟩
  · exact (List.nodup_cons.mp nodup).1 (List.mem_map.mpr ⟨d, member, same⟩)
  · exact List.perm_middle.mem_iff.mpr (List.mem_cons_of_mem _ member)

theorem Ledger.othersWait {e : Entry} {t : Timer} {value : Option Timer} {event : TimerEvent}
    (ledger : Ledger heap created log waiting (e :: called)) (live : heap e.2 = some t)
    (own : serialOf event = t.serial) :
    ∀ d ∈ waiting, ∀ timer, Function.update heap e.2 value d.2 = some timer →
      Waiting timer (history timer.serial (log ++ [event])) := by
  obtain ⟨_, apart, _⟩ := ledger.firstCalled
  intro d member timer there
  obtain ⟨there, past⟩ := ledger.elsewhere live own (apart d (List.mem_append_left called member)) there
  rw [past]
  exact ledger.waits d member timer there

theorem Ledger.othersRan {e : Entry} {t : Timer} {value : Option Timer} {event : TimerEvent}
    (ledger : Ledger heap created log waiting (e :: called)) (live : heap e.2 = some t)
    (own : serialOf event = t.serial) :
    ∀ d ∈ called, ∀ timer, Function.update heap e.2 value d.2 = some timer →
      Called timer (history timer.serial (log ++ [event])) := by
  obtain ⟨_, apart, _⟩ := ledger.firstCalled
  intro d member timer there
  obtain ⟨there, past⟩ := ledger.elsewhere live own (apart d (List.mem_append_right waiting member)) there
  rw [past]
  exact ledger.ran d (List.mem_cons_of_mem _ member) timer there

theorem ledgerPutBack {e : Entry} {t : Timer} (now : Timestamp)
    (ledger : Ledger heap created log waiting (e :: called)) (live : heap e.2 = some t)
    (repeating : t.repeats = true) :
    Ledger (Function.update heap e.2 (some (t.restart now))) created
      (log ++ [.putBack (t.restart now) now]) (((t.restart now).expiration, e.2) :: waiting) called := by
  obtain ⟨nodup, apart, inside⟩ := ledger.firstCalled
  have own : serialOf (.putBack (t.restart now) now) = t.serial := restartSerial t now
  constructor
  case keyed =>
    intro d member
    rcases List.mem_cons.mp member with rfl | other
    · exact ⟨t.restart now, by simp, rfl⟩
    · simpa [apart d other] using ledger.keyed d (inside d other)
  case below =>
    intro d member
    rcases List.mem_cons.mp member with rfl | other
    · exact ledger.below e (by simp)
    · exact ledger.below d (inside d other)
  case once =>
    exact nodup
  case apart =>
    intro a b x y there there' same
    have := ledger.apart a b
    grind [Function.update_apply, restartSerial]
  case bounded =>
    intro a x there
    have := ledger.bounded a x
    have := ledger.bounded e.2 t live
    grind [Function.update_apply, restartSerial]
  case logged =>
    intro event member
    have := ledger.logged event
    have := ledger.bounded e.2 t live
    grind
  case waits =>
    intro d member timer there
    rcases List.mem_cons.mp member with rfl | other
    · obtain rfl : t.restart now = timer := by simpa using there
      obtain ⟨before, waited, past⟩ := ledger.ran e List.mem_cons_self t live
      rw [restartSerial, historySame _ own, past, List.append_assoc]
      exact .again now waited repeating
    · exact ledger.othersWait live own d other timer there
  case ran =>
    exact ledger.othersRan live own
  case finished =>
    intro k bound absent
    have notOwn : t.serial ≠ k := by simpa using absent e.2 (t.restart now) (by simp)
    rw [historyOther _ (own.trans_ne notOwn)]
    refine ledger.finished k bound fun a x there => ?_
    have := absent a x
    grind [Function.update_apply]
  case held =>
    intro a x there
    have := ledger.held a x
    grind [Function.update_apply]

theorem ledgerDelete {e : Entry} {t : Timer}
    (ledger : Ledger heap created log waiting (e :: called)) (live : heap e.2 = some t)
    (once : t.repeats = false) :
    Ledger (Function.update heap e.2 none) created (log ++ [.deleted t]) waiting called := by
  obtain ⟨nodup, apart, inside⟩ := ledger.firstCalled
  have own : serialOf (.deleted t) = t.serial := rfl
  constructor
  case keyed =>
    intro d member
    simpa [apart d member] using ledger.keyed d (inside d member)
  case below =>
    exact fun d member => ledger.below d (inside d member)
  case once =>
    exact (List.nodup_cons.mp nodup).2
  case apart =>
    intro a b x y there there' same
    have := ledger.apart a b
    grind [Function.update_apply]
  case bounded =>
    intro a x there
    have := ledger.bounded a x
    grind [Function.update_apply]
  case logged =>
    intro event member
    have := ledger.logged event
    have := ledger.bounded e.2 t live
    grind
  case waits =>
    exact ledger.othersWait live own
  case ran =>
    exact ledger.othersRan live own
  case finished =>
    intro k bound absent
    by_cases same : t.serial = k
    · subst same
      obtain ⟨before, waited, past⟩ := ledger.ran e List.mem_cons_self t live
      refine ⟨t, rfl, once, ?_⟩
      rw [historySame _ own, past, waitingOnce waited once]
      rfl
    · rw [historyOther (.deleted t) same]
      refine ledger.finished k bound fun a x there => ?_
      have := absent a x
      grind [Function.update_apply]
  case held =>
    intro a x there
    have := ledger.held a x
    grind [Function.update_apply]

end Ledger

def Custody (s : TimerQueue) (due called : List Entry) : Prop :=
  Ledger s.heap s.created s.log (s.timers.items ++ due) called

def Resting (s : TimerQueue) : Prop := Custody s [] []

theorem restingStart : Resting constructed := ledgerStart

theorem custodyInsert {s : TimerQueue} {heap created log} {e : Entry} {due called : List Entry}
    (ledger : Ledger heap created log (e :: (s.timers.items ++ due)) called) :
    Ledger heap created log ((s.timers.insert e).items ++ due) called := by
  have absent : e ∉ s.timers.items := by
    intro member
    refine (List.nodup_cons.mp ledger.once).1 (List.mem_map.mpr ⟨e, ?_, rfl⟩)
    exact List.mem_append_left _ (List.mem_append_left _ member)
  exact ledgerPerm ledger ((OrderedSet.insertPerm absent).symm.append_right due) (.refl _)

def runOf : TimerEvent → Option Timer
  | .ran timer => some timer
  | _ => none

def addOf : TimerEvent → Option Timer
  | .added timer => some timer
  | _ => none

def settles : TimerEvent → Bool
  | .putBack _ _ => true
  | .deleted _ => true
  | _ => false

def runsOf (log : List TimerEvent) : List Timer := log.filterMap runOf

def addedOf (log : List TimerEvent) : List Timer := log.filterMap addOf

def settledOf (log : List TimerEvent) : List TimerEvent := log.filter settles

@[simp] theorem runsSnoc (log : List TimerEvent) (event : TimerEvent) :
    runsOf (log ++ [event]) = runsOf log ++ (runOf event).toList := by
  cases event <;> simp [runsOf, runOf]

@[simp] theorem addedSnoc (log : List TimerEvent) (event : TimerEvent) :
    addedOf (log ++ [event]) = addedOf log ++ (addOf event).toList := by
  cases event <;> simp [addedOf, addOf]

@[simp] theorem settledSnoc (log : List TimerEvent) (event : TimerEvent) :
    settledOf (log ++ [event]) = settledOf log ++ if settles event then [event] else [] := by
  cases event <;> simp [settledOf, settles]

theorem runLogged {log : List TimerEvent} {timer : Timer} : timer ∈ runsOf log ↔ .ran timer ∈ log := by
  simp only [runsOf, List.mem_filterMap]
  constructor
  · rintro ⟨event, member, same⟩
    cases event <;> simp only [runOf, Option.some.injEq, reduceCtorEq] at same
    exact same ▸ member
  · exact fun member => ⟨_, member, rfl⟩

structure Grown (s : TimerQueue) (addresses : List Nat) (t : TimerQueue) : Prop where
  frame : ∀ a ∉ addresses, t.heap a = s.heap a
  stays : ∀ e ∈ s.timers.items, e ∈ t.timers.items
  ticks : s.ticks ≤ t.ticks

theorem Grown.refl (s : TimerQueue) (addresses : List Nat) : Grown s addresses s :=
  ⟨fun _ _ => rfl, fun _ member => member, Nat.le_refl _⟩

theorem Grown.trans {s t u : TimerQueue} {first second : List Nat} (grown : Grown s first t)
    (grown' : Grown t second u) : Grown s (first ++ second) u where
  frame a outside := by
    obtain ⟨out, out'⟩ := not_or.mp (List.mem_append.not.mp outside)
    exact (grown'.frame a out').trans (grown.frame a out)
  stays e member := grown'.stays e (grown.stays e member)
  ticks := Nat.le_trans grown.ticks grown'.ticks

def made (s : TimerQueue) (args : TimerArgs) : Timer := ⟨s.created, args.time, args.interval⟩

def inserted (s : TimerQueue) (args : TimerArgs) : TimerQueue :=
  { s.store args.timer (some (made s args)) (.added (made s args)) with
    created := s.created + 1
    timers := s.timers.insert (args.time, args.timer) }

theorem addTimerEq (k : Clocks) {s : TimerQueue} {args : TimerArgs} (unused : s.heap args.timer = none) :
    addTimer k s args =
      if s.earliestChanged args.time then some ((inserted s args).resetTimerfd k args.time)
      else some (inserted s args) := by
  simp only [addTimer, newTimer, unused, addTimerInLoop, TimerQueue.insert, store, bind, Option.bind,
    Function.update_self]
  rfl

structure Made (s : TimerQueue) (args : TimerArgs) (t : TimerQueue) : Prop where
  created : t.created = s.created + 1
  heap : t.heap = Function.update s.heap args.timer (some (made s args))
  log : t.log = s.log ++ [.added (made s args)]

structure Added (s : TimerQueue) (args : TimerArgs) (t : TimerQueue) : Prop extends Made s args t where
  entries : ∀ e, e ∈ t.timers.items ↔ e = (args.time, args.timer) ∨ e ∈ s.timers.items
  ticks : s.ticks ≤ t.ticks

theorem Added.grown {s t : TimerQueue} {args : TimerArgs} (added : Added s args t) : Grown s [args.timer] t where
  frame a outside := by
    rw [added.heap]
    exact Function.update_of_ne (by simpa using outside) _ _
  stays e member := (added.entries e).mpr (.inr member)
  ticks := added.ticks

theorem addTimerSpec (k : Clocks) {s : TimerQueue} {args : TimerArgs} {due called : List Entry}
    (custody : Custody s due called) (unused : s.heap args.timer = none)
    (fits : args.timer < uintptrMax) :
    ∃ t, addTimer k s args = some t ∧ Custody t due called ∧ Added s args t := by
  have ledger : Custody (inserted s args) due called :=
    custodyInsert (ledgerAdd custody unused fits (t := made s args) rfl)
  have added : Added s args (inserted s args) :=
    ⟨⟨rfl, rfl, rfl⟩, fun _ => OrderedSet.memInsert, Nat.le_refl _⟩
  rw [addTimerEq k unused]
  split
  · exact ⟨_, rfl, ledger, ⟨⟨rfl, rfl, rfl⟩, added.entries, Nat.le_succ _⟩⟩
  · exact ⟨_, rfl, ledger, added⟩

def madeAll (serial : Nat) : List TimerArgs → List Timer
  | [] => []
  | args :: rest => ⟨serial, args.time, args.interval⟩ :: madeAll (serial + 1) rest

theorem madeAllAppend (serial : Nat) (first second : List TimerArgs) :
    madeAll serial (first ++ second) = madeAll serial first ++ madeAll (serial + first.length) second := by
  induction first generalizing serial with
  | nil => rfl
  | cons args rest ih =>
    have next : serial + (args :: rest).length = serial + 1 + rest.length := by
      rw [List.length_cons]
      omega
    rw [List.cons_append, madeAll, ih, next]
    rfl

/- Between `s` and `t` exactly the Timers for `args` were made, and all of them wait in
timers_. -/
structure Entered (s : TimerQueue) (args : List TimerArgs) (t : TimerQueue) : Prop where
  created : t.created = s.created + args.length
  added : addedOf t.log = addedOf s.log ++ madeAll s.created args
  waiting : List.Forall₂ (fun args timer =>
    t.heap args.timer = some timer ∧ (args.time, args.timer) ∈ t.timers.items) args (madeAll s.created args)

theorem enteredNone {s t : TimerQueue} (created : t.created = s.created) (added : addedOf t.log = addedOf s.log) :
    Entered s [] t :=
  ⟨created, by rw [added, madeAll, List.append_nil], .nil⟩

theorem Added.entered {s t : TimerQueue} {args : TimerArgs} (added : Added s args t) : Entered s [args] t where
  created := added.created
  added := by
    rw [added.log, addedSnoc]
    rfl
  waiting := by
    refine .cons ⟨?_, (added.entries _).mpr (.inl rfl)⟩ .nil
    rw [added.heap]
    exact Function.update_self _ _ _

theorem Entered.trans {s t u : TimerQueue} {first second : List TimerArgs} {addresses : List Nat}
    (entered : Entered s first t) (entered' : Entered t second u) (grown : Grown t addresses u)
    (apart : ∀ args ∈ first, args.timer ∉ addresses) : Entered s (first ++ second) u := by
  have split : madeAll s.created (first ++ second) = madeAll s.created first ++ madeAll t.created second := by
    rw [madeAllAppend, entered.created]
  refine ⟨?_, ?_, ?_⟩
  · rw [entered'.created, entered.created, List.length_append, Nat.add_assoc]
  · rw [entered'.added, entered.added, split, List.append_assoc]
  · rw [split]
    refine List.rel_append ?_ entered'.waiting
    refine ((List.forall₂_and_left first _).mpr ⟨apart, entered.waiting⟩).imp ?_
    rintro args timer ⟨outside, live, inside⟩
    exact ⟨(grown.frame args.timer outside).trans live, grown.stays _ inside⟩

/- The addresses that operator new returns during a piece of code that deletes no
Timer: none of them is in use, and none twice. -/
structure Unused (heap : Nat → Option Timer) (args : List TimerArgs) : Prop where
  distinct : (args.map TimerArgs.timer).Nodup
  unused : ∀ a ∈ args, heap a.timer = none
  fits : ∀ a ∈ args, a.timer < uintptrMax

theorem Unused.liveOutside {heap : Nat → Option Timer} {args : List TimerArgs} {a : Nat} {timer : Timer}
    (unused : Unused heap args) (live : heap a = some timer) : a ∉ args.map TimerArgs.timer := by
  intro member
  obtain ⟨mine, inside, same⟩ := List.mem_map.mp member
  rw [← same, unused.unused mine inside] at live
  contradiction

theorem Unused.apart {heap : Nat → Option Timer} {first second : List TimerArgs}
    (unused : Unused heap (first ++ second)) : ∀ args ∈ first, args.timer ∉ second.map TimerArgs.timer := by
  have distinct := unused.distinct
  rw [List.map_append] at distinct
  exact fun args member inside =>
    (List.nodup_append.mp distinct).2.2 _ (List.mem_map_of_mem member) _ inside rfl

theorem unusedAppend {s t : TimerQueue} (first : List TimerArgs) {second : List TimerArgs}
    (unused : Unused s.heap (first ++ second)) (grown : Grown s (first.map TimerArgs.timer) t) :
    Unused s.heap first ∧ Unused t.heap second := by
  obtain ⟨distinct, free, fits⟩ := unused
  rw [List.map_append] at distinct
  obtain ⟨left, right, apart⟩ := List.nodup_append.mp distinct
  refine ⟨⟨left, fun a member => free a (List.mem_append_left _ member),
    fun a member => fits a (List.mem_append_left _ member)⟩, right, fun a member => ?_,
    fun a member => fits a (List.mem_append_right _ member)⟩
  rw [grown.frame a.timer fun inside => apart _ inside _ (List.mem_map_of_mem member) rfl]
  exact free a (List.mem_append_right _ member)

theorem addTimersSpec (k : Clocks) {args : List TimerArgs} {s : TimerQueue} {due called : List Entry}
    (custody : Custody s due called) (unused : Unused s.heap args) :
    ∃ t, run (addTimer k) s args = some t ∧ Custody t due called ∧
      Grown s (args.map TimerArgs.timer) t ∧ Entered s args t ∧
      runsOf t.log = runsOf s.log ∧ settledOf t.log = settledOf s.log := by
  induction args generalizing s with
  | nil => exact ⟨s, rfl, custody, .refl s _, enteredNone rfl rfl, rfl, rfl⟩
  | cons first rest ih =>
    obtain ⟨t, ok, custody, added⟩ := addTimerSpec k custody
      (unused.unused first List.mem_cons_self) (unused.fits first List.mem_cons_self)
    have unused' : Unused t.heap rest := (unusedAppend [first] unused added.grown).2
    obtain ⟨u, ok', custody, grown, entered, runs, settled⟩ := ih custody unused'
    have apart : ∀ args ∈ [first], args.timer ∉ rest.map TimerArgs.timer := Unused.apart unused
    refine ⟨u, runCons.mpr ⟨t, ok, ok'⟩, custody, added.grown.trans grown,
      added.entered.trans entered grown apart, ?_, ?_⟩
    · simp [runs, added.log, runOf]
    · simp [settled, added.log, settles]

theorem runTimersSpec (k : Clocks) (callbacks : Nat → List TimerArgs) {due others : List Entry} {s : TimerQueue}
    {called : List Entry} (custody : Custody s (due ++ others) called)
    (unused : Unused s.heap (due.flatMap (fun e => callbacks e.2))) :
    ∃ t, run (runTimer k callbacks) s due = some t ∧ Custody t others (due ++ called) ∧
      Grown s ((due.flatMap (fun e => callbacks e.2)).map TimerArgs.timer) t ∧
      Entered s (due.flatMap (fun e => callbacks e.2)) t ∧
      runsOf t.log = runsOf s.log ++ due.filterMap (fun e => s.heap e.2) ∧
      settledOf t.log = settledOf s.log := by
  induction due generalizing s called with
  | nil =>
    exact ⟨s, rfl, custody, .refl s _, enteredNone rfl rfl, by simp, rfl⟩
  | cons e rest ih =>
    obtain ⟨timer, live, _⟩ := custody.keyed e (by simp)
    let ran : TimerQueue := { s with log := s.log ++ [.ran timer] }
    have ledger : Custody ran (rest ++ others) (e :: called) :=
      ledgerRun (ledgerPerm custody List.perm_middle (.refl _)) live
    rw [List.flatMap_cons] at unused ⊢
    have now : Unused ran.heap (callbacks e.2) := (unusedAppend (callbacks e.2) unused (.refl s _)).1
    obtain ⟨t, added, custody', grown, entered, runs, settled⟩ := addTimersSpec k ledger now
    have called : Entered s [] ran := enteredNone rfl (by simp [ran, addOf])
    have entered : Entered s (callbacks e.2) t := called.trans entered grown (by simp)
    have grown : Grown s _ t := ⟨grown.frame, grown.stays, grown.ticks⟩
    obtain ⟨u, ok, custody'', grown', entered', runs', settled'⟩ :=
      ih custody' (unusedAppend (callbacks e.2) unused grown).2
    have untouched : rest.filterMap (fun e => t.heap e.2) = rest.filterMap (fun e => s.heap e.2) := by
      refine List.filterMap_congr fun d member => ?_
      obtain ⟨other, there, _⟩ := custody.keyed d (by simp [member])
      exact grown.frame d.2 (now.liveOutside there)
    refine ⟨u, runCons.mpr ⟨t, ?_, ok⟩, ledgerPerm custody'' (.refl _) List.perm_middle, ?_,
      entered.trans entered' grown' unused.apart, ?_, ?_⟩
    · simpa only [runTimer, live, bind, Option.bind] using added
    · rw [List.map_append]
      exact grown.trans grown'
    · simp [runs', runs, ran, untouched, live, runOf]
    · simp [settled', settled, ran, settles]

theorem settleSpec (k : Clocks) {s : TimerQueue} {e : Entry} {due called : List Entry}
    (custody : Custody s due (e :: called)) :
    ∃ timer t, s.heap e.2 = some timer ∧ settle k s e = some t ∧ Custody t due called ∧
      Grown s [e.2] t ∧ Entered s [] t ∧ runsOf t.log = runsOf s.log ∧
      if timer.repeats then
        t.heap e.2 = some (timer.restart (k.now s.ticks)) ∧
        ((timer.restart (k.now s.ticks)).expiration, e.2) ∈ t.timers.items ∧
        t.log = s.log ++ [.putBack (timer.restart (k.now s.ticks)) (k.now s.ticks)] ∧
        t.ticks = s.ticks + 1
      else t.heap e.2 = none ∧ t.log = s.log ++ [.deleted timer] := by
  obtain ⟨timer, live, _⟩ := custody.keyed e (by simp)
  refine ⟨timer, ?_⟩
  have frame : ∀ value, ∀ a ∉ [e.2], Function.update s.heap e.2 value a = s.heap a :=
    fun value a outside => Function.update_of_ne (by simpa using outside) _ _
  by_cases repeating : timer.repeats
  · have ledger := custodyInsert (ledgerPutBack (k.now s.ticks) custody live repeating)
    simp only [settle, live, repeating, store, TimerQueue.insert, bind, Option.bind, if_true,
      Function.update_self]
    refine ⟨_, trivial, rfl, ledger, ⟨frame _, fun d member => ?_, Nat.le_succ _⟩,
      enteredNone rfl (by simp [addOf]), by simp [runOf], by simp, ?_, rfl, rfl⟩
    · exact OrderedSet.memInsert.mpr (.inr member)
    · exact OrderedSet.memInsert.mpr (.inl rfl)
  · have ledger := ledgerDelete custody live (by simpa using repeating)
    simp only [settle, live, repeating, store, bind, Option.bind]
    exact ⟨_, trivial, rfl, ledger, ⟨frame _, fun _ member => member, Nat.le_refl _⟩,
      enteredNone rfl (by simp [addOf]), by simp [runOf], by simp, rfl⟩

theorem rearmSpec (k : Clocks) {s : TimerQueue} {due called : List Entry} (custody : Custody s due called) :
    rearm k s = some s ∧ s.begin_ = none ∨
      ∃ e, s.begin_ = some e ∧ rearm k s = some (s.resetTimerfd k e.1) := by
  unfold rearm
  cases first : s.begin_ with
  | none => exact .inl ⟨rfl, rfl⟩
  | some e =>
    have member : e ∈ s.timers.items := List.mem_of_head? first
    obtain ⟨timer, live, expiration⟩ := custody.keyed e (by simp [member])
    exact .inr ⟨e, rfl, by simp [live, expiration]⟩

/- What reset does with one expired entry: `start` and `finish` are the queues around
it, and the reading is the one restart was given. -/
def Settles (k : Clocks) (start finish : TimerQueue) (e : Entry) (event : TimerEvent) : Prop :=
  ∃ timer, start.heap e.2 = some timer ∧
    if timer.repeats then
      ∃ n, start.ticks ≤ n ∧ n < finish.ticks ∧
        event = .putBack (timer.restart (k.now n)) (k.now n) ∧
        finish.heap e.2 = some (timer.restart (k.now n)) ∧
        ((k.now n).addTime timer.interval, e.2) ∈ finish.timers.items
    else event = .deleted timer ∧ finish.heap e.2 = none

theorem settlesLater {k : Clocks} {s t u : TimerQueue} {e : Entry} {event : TimerEvent}
    {addresses : List Nat} (done : Settles k s t e event) (grown : Grown t addresses u)
    (outside : e.2 ∉ addresses) : Settles k s u e event := by
  obtain ⟨timer, live, rest⟩ := done
  refine ⟨timer, live, ?_⟩
  split
  · rename_i repeating
    rw [if_pos repeating] at rest
    obtain ⟨n, low, high, logged, stored, entered⟩ := rest
    refine ⟨n, low, Nat.lt_of_lt_of_le high grown.ticks, logged, ?_, grown.stays _ entered⟩
    rw [grown.frame e.2 outside, stored]
  · rename_i once
    rw [if_neg once] at rest
    refine ⟨rest.1, ?_⟩
    rw [grown.frame e.2 outside, rest.2]

theorem settlesEarlier {k : Clocks} {s t u : TimerQueue} {e : Entry} {event : TimerEvent}
    {addresses : List Nat} (done : Settles k t u e event) (grown : Grown s addresses t)
    (outside : e.2 ∉ addresses) : Settles k s u e event := by
  obtain ⟨timer, live, rest⟩ := done
  refine ⟨timer, by rw [← grown.frame e.2 outside, live], ?_⟩
  split
  · rename_i repeating
    rw [if_pos repeating] at rest
    obtain ⟨n, low, more⟩ := rest
    exact ⟨n, Nat.le_trans grown.ticks low, more⟩
  · rename_i once
    rw [if_neg once] at rest
    exact rest

theorem resetOneSpec (k : Clocks) {s : TimerQueue} {e : Entry} {due called : List Entry}
    (custody : Custody s due (e :: called)) :
    ∃ t event, resetOne k s e = some t ∧ Custody t due called ∧ Grown s [e.2] t ∧ Entered s [] t ∧
      runsOf t.log = runsOf s.log ∧ settledOf t.log = settledOf s.log ++ [event] ∧
      Settles k s t e event := by
  obtain ⟨timer, t, live, settled, custody', grown, entered, runs, rest⟩ := settleSpec k custody
  have done : ∃ event, settledOf t.log = settledOf s.log ++ [event] ∧ Settles k s t e event := by
    by_cases repeating : timer.repeats
    · rw [if_pos repeating] at rest
      obtain ⟨stored, entered, log, ticks⟩ := rest
      refine ⟨_, by simp [log, settles]; rfl, timer, live, ?_⟩
      rw [if_pos repeating]
      refine ⟨s.ticks, Nat.le_refl _, by omega, rfl, stored, ?_⟩
      simpa [Timer.restart, repeating] using entered
    · rw [if_neg repeating] at rest
      refine ⟨.deleted timer, by simp [rest.2, settles], timer, live, ?_⟩
      rw [if_neg repeating]
      exact ⟨rfl, rest.1⟩
  obtain ⟨event, log, outcome⟩ := done
  simp only [resetOne, settled, bind, Option.bind]
  rcases rearmSpec k custody' with ⟨same, _⟩ | ⟨first, _, armed⟩
  · exact ⟨t, event, same, custody', grown, entered, runs, log, outcome⟩
  · have touched : Grown t [] (t.resetTimerfd k first.1) :=
      ⟨fun _ _ => rfl, fun _ member => member, Nat.le_succ _⟩
    exact ⟨_, event, armed, custody', grown.trans touched, ⟨entered.created, entered.added, .nil⟩, runs, log,
      settlesLater outcome touched (by simp)⟩

theorem resetSpec (k : Clocks) {due called : List Entry} {s : TimerQueue} (custody : Custody s due called) :
    ∃ t events, reset k s called = some t ∧ Custody t due [] ∧ Grown s (called.map Prod.snd) t ∧
      Entered s [] t ∧ runsOf t.log = runsOf s.log ∧ settledOf t.log = settledOf s.log ++ events ∧
      List.Forall₂ (Settles k s t) called events := by
  induction called generalizing s with
  | nil => exact ⟨s, [], rfl, custody, .refl s _, enteredNone rfl rfl, rfl, by simp, .nil⟩
  | cons e rest ih =>
    have apart : e.2 ∉ rest.map Prod.snd := by
      have nodup := ((List.perm_middle.map Prod.snd).nodup_iff.mp custody.once)
      intro member
      refine (List.nodup_cons.mp nodup).1 ?_
      rw [List.map_append]
      exact List.mem_append_right _ member
    obtain ⟨t, event, first, custody', grown, entered, runs, log, outcome⟩ := resetOneSpec k custody
    obtain ⟨u, events, ok, custody'', grown', entered', runs', log', outcomes⟩ := ih custody'
    refine ⟨u, event :: events, runCons.mpr ⟨t, first, ok⟩, custody'', grown.trans grown',
      entered.trans entered' grown' (by simp), runs'.trans runs, by simp [log', log], .cons (settlesLater outcome grown' apart) ?_⟩
    have elsewhere : ∀ d ∈ rest, d.2 ∉ [e.2] := by
      intro d member same
      exact apart (List.mem_map.mpr ⟨d, member, by simpa using same⟩)
    refine ((List.forall₂_and_left rest events).mpr ⟨elsewhere, outcomes⟩).imp ?_
    intro d event both
    exact settlesEarlier both.2 grown both.1

end TinyNetwork.TimerCustody
