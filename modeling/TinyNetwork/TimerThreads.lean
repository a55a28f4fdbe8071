import TinyNetwork.TimerFiring

/-! Timers from any thread, up to the end of the loop. A thread makes the Timer itself,
and if it is not the loop's, a functor takes the Timer into timers_ later. The
destructor of the queue deletes what is in timers_; the Timers of functors that never
ran stay behind, and no others. -/
namespace TinyNetwork.TimerThreads
open OrderedSets Runs TimerQueue TimerCustody TimerFiring

/- `queued` are the Timers of the addTimerInLoop functors in the loop, in their order. -/
structure State where
  queue : TimerQueue
  queued : List Nat
  alive : Bool

inductive Action where
  | addTimer (inLoopThread : Bool) (args : TimerArgs)
  | functor
  | handleRead (callbacks : Nat → List TimerArgs)
  | destroy

def deleteTimer (s : TimerQueue) (e : Entry) : Option TimerQueue := do
  let t ← s.heap e.2
  some (s.store e.2 none (.deleted t))

def destroyQueue (s : TimerQueue) : Option TimerQueue := do
  let s ← run deleteTimer s s.timers.items
  some { s with timers := OrderedSet.empty }

def step (k : Clocks) (s : State) : Action → Option State
  | .addTimer true args => do
      let queue ← s.queue.addTimer k args
      some { s with queue }
  | .addTimer false args => do
      let queue ← s.queue.newTimer args
      some { s with queue, queued := s.queued ++ [args.timer] }
  | .functor =>
      match s.queued with
      | [] => none
      | timer :: rest => do
          let queue ← s.queue.addTimerInLoop k timer
          some { s with queue, queued := rest }
  | .handleRead callbacks => do
      let queue ← s.queue.handleRead k callbacks
      some { s with queue }
  | .destroy => do
      let queue ← destroyQueue s.queue
      some { s with queue, alive := false }

def start : State := ⟨constructed, [], true⟩

/- Nothing happens behind the destructor, a functor runs when there is one, and operator
new keeps its promise. -/
def Allowed (k : Clocks) (s : State) (a : Action) : Prop :=
  s.alive = true ∧
    match a with
    | .addTimer _ args => Unused s.queue.heap [args]
    | .functor => s.queued ≠ []
    | .handleRead callbacks => Allocated k s.queue (.handleRead callbacks)
    | .destroy => True

instance (k : Clocks) (s : State) : (a : Action) → Decidable (Allowed k s a)
  | .addTimer _ _ => inferInstanceAs (Decidable (_ ∧ Unused _ _))
  | .functor => inferInstanceAs (Decidable (_ ∧ s.queued ≠ []))
  | .handleRead _ => inferInstanceAs (Decidable (_ ∧ Allocated _ _ _))
  | .destroy => inferInstanceAs (Decidable (_ ∧ True))

def Unrun (log : List TimerEvent) (timer : Timer) : Prop := ∀ other ∈ runsOf log, other.serial ≠ timer.serial

structure Held (s : TimerQueue) (entries : List Entry) : Prop where
  custody : Custody s entries []
  unrun : ∀ e ∈ entries, ∀ timer, s.heap e.2 = some timer → Unrun s.log timer

section Steps
variable {k : Clocks} {s t : TimerQueue} {entries rest : List Entry} {e : Entry} {args : TimerArgs}

theorem unrunAdded {timer : Timer} {log : List TimerEvent} (waiting : Waiting timer (history timer.serial log))
    (unrun : Unrun log timer) : history timer.serial log = [.added timer] := by
  generalize same : history timer.serial log = past at waiting
  cases waiting with
  | added => rfl
  | @again before past now waiting repeating =>
    have member : .ran before ∈ history (before.restart now).serial log := by rw [same]; simp
    have logged := (List.mem_filter.mp member).1
    refine absurd ?_ (unrun before (runLogged.mpr logged))
    exact (restartSerial before now).symm

theorem heldSame (held : Held s entries) (custody : Custody t entries [])
    (heap : ∀ e ∈ entries, t.heap e.2 = s.heap e.2) (runs : runsOf t.log = runsOf s.log) : Held t entries where
  custody := custody
  unrun e member timer there := by
    rw [heap e member] at there
    rw [Unrun, runs]
    exact held.unrun e member timer there

theorem heldLive (held : Held s entries) (member : e ∈ entries) :
    ∃ timer, s.heap e.2 = some timer ∧ timer.expiration = e.1 :=
  held.custody.keyed e (by simp [member])

theorem addTimerHeld (held : Held s entries) (unused : Unused s.heap [args]) :
    ∃ t, s.addTimer k args = some t ∧ Held t entries ∧ Added s args t := by
  obtain ⟨t, ok, custody, added⟩ := addTimerSpec k held.custody (unused.unused args List.mem_cons_self)
    (unused.fits args List.mem_cons_self)
  refine ⟨t, ok, heldSame held custody (fun e member => ?_) ?_, added⟩
  · obtain ⟨timer, live, -⟩ := heldLive held member
    exact added.grown.frame e.2 (unused.liveOutside live)
  · rw [added.log, runsSnoc]
    exact List.append_nil _

theorem newTimerHeld (held : Held s entries) (unused : Unused s.heap [args]) :
    ∃ t, s.newTimer args = some t ∧ Held t (entries ++ [(args.time, args.timer)]) ∧
      Made s args t ∧ t.timers = s.timers := by
  have free := unused.unused args List.mem_cons_self
  have fits := unused.fits args List.mem_cons_self
  refine ⟨_, by rw [newTimer, free], ⟨?_, ?_⟩, ?_, ?_⟩
  · refine ledgerPerm (ledgerAdd held.custody free fits (t := made s args) rfl) ?_ (.refl _)
    rw [← List.append_assoc]
    exact (List.perm_append_singleton _ _).symm
  · intro e member timer there
    simp only [store, runsSnoc, runOf, Option.toList_none, List.append_nil, Unrun] at there ⊢
    rcases List.mem_append.mp member with old | new
    · obtain ⟨live, before, -⟩ := heldLive held old
      have other : e.2 ≠ args.timer := by
        intro same
        rw [same, free] at before
        contradiction
      rw [Function.update_of_ne other] at there
      exact held.unrun e old timer there
    · rw [List.mem_singleton.mp new, Function.update_self] at there
      intro run ran same
      have earlier := held.custody.logged _ (runLogged.mp ran)
      rw [← Option.some.inj there] at same
      exact Nat.ne_of_lt earlier same
  · exact ⟨rfl, rfl, rfl⟩
  · rfl

structure Taken (s : TimerQueue) (e : Entry) (t : TimerQueue) : Prop where
  bound : ∃ timer, s.heap e.2 = some timer ∧ timer.expiration = e.1
  entries : ∀ d, d ∈ t.timers.items ↔ d = e ∨ d ∈ s.timers.items
  heap : t.heap = s.heap
  created : t.created = s.created
  log : t.log = s.log

theorem functorHeld (held : Held s (e :: rest)) :
    ∃ t, s.addTimerInLoop k e.2 = some t ∧ Held t rest ∧ Taken s e t := by
  obtain ⟨timer, live, expiration⟩ := heldLive held List.mem_cons_self
  let inside : TimerQueue := { s with timers := s.timers.insert e }
  have custody : Custody inside rest [] := custodyInsert (ledgerPerm held.custody List.perm_middle (.refl _))
  have held' : Held inside rest := ⟨custody, fun d member => held.unrun d (List.mem_cons_of_mem _ member)⟩
  have inserts : s.insert e.2 = some (s.earliestChanged e.1, inside) := by
    simp only [TimerQueue.insert, live, expiration, bind, Option.bind_some]
    rfl
  have taken : Taken s e inside := ⟨⟨timer, live, expiration⟩, fun _ => OrderedSet.memInsert, rfl, rfl, rfl⟩
  simp only [addTimerInLoop, inserts, bind, Option.bind_some]
  split
  · have still : inside.heap e.2 = some timer := live
    rw [still]
    exact ⟨_, rfl, ⟨held'.custody, held'.unrun⟩, taken.bound, taken.entries, rfl, rfl, rfl⟩
  · exact ⟨_, rfl, held', taken⟩

theorem heldApart (held : Held s entries) (member : e ∈ entries) : e.2 ∉ s.timers.items.map Prod.snd := by
  have once := held.custody.once
  rw [List.append_nil, List.map_append] at once
  exact fun inside => (List.nodup_append.mp once).2.2 _ inside _ (List.mem_map_of_mem member) rfl

theorem handleReadHeld {callbacks : Nat → List TimerArgs} (held : Held s entries)
    (allocated : Allocated k s (.handleRead callbacks)) :
    ∃ t, s.handleRead k callbacks = some t ∧ Held t entries ∧ Fires k s (.handleRead callbacks) t := by
  obtain ⟨t, ok, custody, fires⟩ := handleReadSpec k held.custody allocated
  obtain ⟨mid, called, halves, middle, grown, -, runs, -⟩ := batchSpec k held.custody allocated
  obtain ⟨u, events, ok', -, grown', -, runs', -⟩ := resetSpec k middle
  cases Option.some.inj (ok.symm.trans (halves.trans ok'))
  have batch := beforeSentry held.custody (k.now s.ticks)
  simp only [Allocated, getExpired, batch] at allocated
  refine ⟨t, ok, ⟨custody, fun e member timer there => ?_⟩, fires⟩
  obtain ⟨own, live, -⟩ := heldLive held member
  have notDue : ∀ d ∈ dueAt s (k.now s.ticks), d.2 ≠ e.2 := by
    intro d due same
    exact heldApart held member (List.mem_map.mpr ⟨d, (List.mem_filter.mp due).1, same⟩)
  have outside : e.2 ∉ (dueAt s (k.now s.ticks)).map Prod.snd := by
    intro inside
    obtain ⟨d, due, same⟩ := List.mem_map.mp inside
    exact notDue d due same
  rw [grown'.frame e.2 outside, grown.frame e.2 (allocated.liveOutside live)] at there
  intro other ran
  rw [runs', runs] at ran
  rcases List.mem_append.mp ran with earlier | now
  · exact held.unrun e member timer there other earlier
  · obtain ⟨d, due, found⟩ := List.mem_filterMap.mp now
    exact fun same => notDue d due (held.custody.apart d.2 e.2 other timer found there same)

end Steps

inductive Place (heap : Nat → Option Timer) (log : List TimerEvent) (waiting : List Entry) (queued : List Nat)
    (serial : Nat) : Prop where
  | waiting {e : Entry} {timer : Timer} (inside : e ∈ waiting) (live : heap e.2 = some timer)
      (same : timer.serial = serial) (key : timer.expiration = e.1) (past : Waiting timer (history serial log))
  | queued {a : Nat} {timer : Timer} (inside : a ∈ queued) (live : heap a = some timer)
      (same : timer.serial = serial) (past : history serial log = [.added timer])
  | finished (gone : ∀ a timer, heap a = some timer → timer.serial ≠ serial)
      (past : Finished serial (history serial log))
  | deleted {timer : Timer} {before : List TimerEvent}
      (gone : ∀ a timer, heap a = some timer → timer.serial ≠ serial) (same : timer.serial = serial)
      (waited : Waiting timer before) (past : history serial log = before ++ [.deleted timer])

/- All Timers, with those that the destructor has still to delete in `waiting`. -/
structure Accounted (s : TimerQueue) (waiting : List Entry) (queued : List Nat) : Prop where
  places : ∀ serial < s.created, Place s.heap s.log waiting queued serial
  apart : ∀ a b x y, s.heap a = some x → s.heap b = some y → x.serial = y.serial → a = b
  bounded : ∀ a x, s.heap a = some x → x.serial < s.created
  once : (waiting.map Prod.snd ++ queued).Nodup
  live : ∀ e ∈ waiting, ∃ timer, s.heap e.2 = some timer
  bound : ∀ a ∈ queued, ∃ timer, s.heap a = some timer ∧ history timer.serial s.log = [.added timer]
  held : ∀ a timer, s.heap a = some timer → a ∈ waiting.map Prod.snd ∨ a ∈ queued

theorem heldAccounted {s : TimerQueue} {entries : List Entry} (held : Held s entries) :
    Accounted s s.timers.items (entries.map Prod.snd) where
  places serial below := by
    have ledger := held.custody
    by_cases alive : ∃ a timer, s.heap a = some timer ∧ timer.serial = serial
    · obtain ⟨a, timer, live, rfl⟩ := alive
      obtain ⟨e, member, rfl⟩ := List.mem_map.mp (ledger.held a timer live)
      rw [List.append_nil] at member
      have waits := ledger.waits e member timer live
      rcases List.mem_append.mp member with inside | inside
      · obtain ⟨own, live', key⟩ := ledger.keyed e (by simp [inside])
        cases Option.some.inj (live'.symm.trans live)
        exact .waiting inside live rfl key waits
      · exact .queued (List.mem_map_of_mem inside) live rfl
          (unrunAdded waits (held.unrun e inside timer live))
    · have gone : ∀ a timer, s.heap a = some timer → timer.serial ≠ serial :=
        fun a timer live same => alive ⟨a, timer, live, same⟩
      exact .finished gone (ledger.finished serial below gone)
  apart := held.custody.apart
  bounded := held.custody.bounded
  once := by
    have once := held.custody.once
    rwa [List.append_nil, List.map_append] at once
  live e member := by
    obtain ⟨timer, there, -⟩ := held.custody.keyed e (by simp [member])
    exact ⟨timer, there⟩
  bound a member := by
    obtain ⟨e, inside, rfl⟩ := List.mem_map.mp member
    obtain ⟨timer, there, -⟩ := heldLive held inside
    have waits := held.custody.waits e (List.mem_append_right _ inside) timer there
    exact ⟨timer, there, unrunAdded waits (held.unrun e inside timer there)⟩
  held a timer there := by
    have inside := held.custody.held a timer there
    rw [List.append_nil, List.map_append] at inside
    exact List.mem_append.mp inside

theorem deleteAccounted {s : TimerQueue} {e : Entry} {rest : List Entry} {queued : List Nat}
    (accounted : Accounted s (e :: rest) queued) :
    ∃ t, deleteTimer s e = some t ∧ t.created = s.created ∧ t.heap = Function.update s.heap e.2 none ∧
      Accounted t rest queued := by
  obtain ⟨timer, live⟩ := accounted.live e List.mem_cons_self
  have once := accounted.once
  rw [List.map_cons, List.cons_append] at once
  obtain ⟨alone, others⟩ := List.nodup_cons.mp once
  have before {a : Nat} {x : Timer} (there : Function.update s.heap e.2 none a = some x) :
      a ≠ e.2 ∧ s.heap a = some x := by
    by_cases same : a = e.2
    · rw [same, Function.update_self] at there
      contradiction
    · rw [Function.update_of_ne same] at there
      exact ⟨same, there⟩
  refine ⟨s.store e.2 none (.deleted timer), by rw [deleteTimer, live]; rfl, rfl, rfl, ?_⟩
  constructor
  case places =>
    intro serial below
    by_cases own : timer.serial = serial
    · -- this is the Timer that goes
      have gone : ∀ a x, Function.update s.heap e.2 none a = some x → x.serial ≠ serial := by
        intro a x there same
        obtain ⟨other, there⟩ := before there
        exact other (accounted.apart a e.2 x timer there live (same.trans own.symm))
      cases accounted.places serial below with
      | @waiting d other inside there same key past =>
        have address := accounted.apart d.2 e.2 other timer there live (same.trans own.symm)
        rw [address, live] at there
        cases Option.some.inj there
        exact .deleted gone own past (historySame _ own)
      | @queued a other inside there same past =>
        have address := accounted.apart a e.2 other timer there live (same.trans own.symm)
        exact absurd (List.mem_append_right _ (address ▸ inside)) alone
      | finished gone' past => exact absurd own (gone' e.2 timer live)
      | deleted gone' same waited past => exact absurd own (gone' e.2 timer live)
    · have past_ : history serial (s.log ++ [.deleted timer]) = history serial s.log := historyOther _ own
      cases accounted.places serial below with
      | @waiting d other inside there same key past =>
        have stays : d ∈ rest := by
          refine (List.mem_cons.mp inside).resolve_left ?_
          rintro rfl
          cases Option.some.inj (there.symm.trans live)
          exact own same
        have apart : d.2 ≠ e.2 := fun same => alone (List.mem_append_left _ (List.mem_map.mpr ⟨d, stays, same⟩))
        exact .waiting stays ((Function.update_of_ne apart _ _).trans there) same key (past_.symm ▸ past)
      | @queued a other inside there same past =>
        have apart : a ≠ e.2 := fun same => alone (List.mem_append_right _ (same ▸ inside))
        exact .queued inside ((Function.update_of_ne apart _ _).trans there) same (past_.trans past)
      | finished gone past => exact .finished (fun a x there => gone a x (before there).2) (past_.symm ▸ past)
      | deleted gone same waited past =>
        exact .deleted (fun a x there => gone a x (before there).2) same waited (past_.trans past)
  case apart =>
    intro a b x y first second same
    exact accounted.apart a b x y (before first).2 (before second).2 same
  case bounded =>
    intro a x there
    exact accounted.bounded a x (before there).2
  case once => exact others
  case live =>
    intro d member
    obtain ⟨x, there⟩ := accounted.live d (List.mem_cons_of_mem _ member)
    have other : d.2 ≠ e.2 := fun same => alone (List.mem_append_left _ (List.mem_map.mpr ⟨d, member, same⟩))
    exact ⟨x, (Function.update_of_ne other _ _).trans there⟩
  case bound =>
    intro a member
    obtain ⟨x, there, past⟩ := accounted.bound a member
    have other : a ≠ e.2 := fun same => alone (List.mem_append_right _ (same ▸ member))
    have own : serialOf (.deleted timer) ≠ x.serial := fun same =>
      other (accounted.apart a e.2 x timer there live same.symm)
    exact ⟨x, (Function.update_of_ne other _ _).trans there, (historyOther _ own).trans past⟩
  case held =>
    intro a x there
    obtain ⟨other, there⟩ := before there
    refine (accounted.held a x there).imp_left fun inside => ?_
    exact (List.mem_cons.mp inside).resolve_left other

theorem deletesAccounted {waiting : List Entry} {queued : List Nat} {s : TimerQueue}
    (accounted : Accounted s waiting queued) :
    ∃ t, run deleteTimer s waiting = some t ∧ t.created = s.created ∧
      (∀ a, t.heap a = if a ∈ waiting.map Prod.snd then none else s.heap a) ∧ Accounted t [] queued := by
  induction waiting generalizing s with
  | nil => exact ⟨s, rfl, rfl, fun a => by simp, accounted⟩
  | cons e rest ih =>
    obtain ⟨t, first, created, heap, accounted'⟩ := deleteAccounted accounted
    obtain ⟨u, later, created', heap', done⟩ := ih accounted'
    refine ⟨u, runCons.mpr ⟨t, first, later⟩, created'.trans created, fun a => ?_, done⟩
    rw [heap' a, heap, Function.update_apply]
    grind

theorem accountedLeft {s : TimerQueue} {queued : List Nat} (accounted : Accounted s [] queued) (a : Nat) :
    (∃ timer, s.heap a = some timer) ↔ a ∈ queued := by
  constructor
  · rintro ⟨timer, there⟩
    simpa using accounted.held a timer there
  · intro member
    obtain ⟨timer, there, -⟩ := accounted.bound a member
    exact ⟨timer, there⟩

def Inv (s : State) : Prop :=
  (s.alive = true ∧ ∃ entries : List Entry, entries.map Prod.snd = s.queued ∧ Held s.queue entries) ∨
    (s.alive = false ∧ s.queue.timers.items = [] ∧ Accounted s.queue [] s.queued)

theorem startInv : Inv start := .inl ⟨rfl, [], rfl, restingStart, fun _ member => by cases member⟩

/- Only addTimer makes Timers, one a call and the callbacks' calls among them; a wakeup
does what is due; the destructor deletes what is in timers_. -/
def Does (k : Clocks) (s : State) : Action → State → Prop
  | .addTimer true args, t => Added s.queue args t.queue ∧ t.queued = s.queued
  | .addTimer false args, t =>
      Made s.queue args t.queue ∧ t.queue.timers = s.queue.timers ∧ t.queued = s.queued ++ [args.timer]
  | .functor, t => ∃ e, s.queued = e.2 :: t.queued ∧ Taken s.queue e t.queue
  | .handleRead callbacks, t => Fires k s.queue (.handleRead callbacks) t.queue ∧ t.queued = s.queued
  | .destroy, t =>
      t.queue.created = s.queue.created ∧ t.queued = s.queued ∧ t.alive = false ∧
        ∀ a, t.queue.heap a = if a ∈ s.queue.timers.items.map Prod.snd then none else s.queue.heap a

theorem stepSpec {k : Clocks} {s : State} {a : Action} (inv : Inv s) (allowed : Allowed k s a) :
    ∃ t, step k s a = some t ∧ Inv t ∧ Does k s a t := by
  obtain ⟨alive, fits⟩ := allowed
  obtain ⟨-, entries, same, held⟩ | ⟨gone, -⟩ := inv
  · cases a with
    | addTimer inLoopThread args =>
      cases inLoopThread with
      | true =>
        obtain ⟨queue, ok, held', added⟩ := addTimerHeld (k := k) held fits
        exact ⟨{ s with queue }, by simp [step, ok], .inl ⟨alive, entries, same, held'⟩, added, rfl⟩
      | false =>
        obtain ⟨queue, ok, held', made, timers⟩ := newTimerHeld held fits
        refine ⟨{ s with queue, queued := s.queued ++ [args.timer] }, by simp [step, ok],
          .inl ⟨alive, _, ?_, held'⟩, made, timers, rfl⟩
        rw [List.map_append, same]
        rfl
    | functor =>
      cases entries with
      | nil => exact absurd same.symm fits
      | cons e rest =>
        obtain ⟨queue, ok, held', taken⟩ := functorHeld (k := k) held
        rw [List.map_cons] at same
        refine ⟨{ s with queue, queued := rest.map Prod.snd }, ?_, .inl ⟨alive, rest, rfl, held'⟩,
          e, same.symm, taken⟩
        simp only [step, ← same, ok, bind, Option.bind_some]
    | handleRead callbacks =>
      obtain ⟨queue, ok, held', fires⟩ := handleReadHeld held fits
      exact ⟨{ s with queue }, by simp [step, ok], .inl ⟨alive, entries, same, held'⟩, fires, rfl⟩
    | destroy =>
      obtain ⟨queue, ok, created, heap, accounted⟩ := deletesAccounted (heldAccounted held)
      refine ⟨⟨{ queue with timers := OrderedSet.empty }, s.queued, false⟩, ?_, .inr ⟨rfl, rfl, ?_⟩,
        created, rfl, rfl, heap⟩
      · simp only [step, destroyQueue, ok, bind, Option.bind_some]
      · rw [← same]
        exact { accounted with }
  · rw [alive] at gone
    contradiction

theorem timersAccounted (k : Clocks) {actions : List Action}
    (allowed : Along (step k) (Allowed k) start actions) :
    Along (step k) (fun s a => ∀ t, step k s a = some t → Does k s a t) start actions ∧
      ∃ last, run (step k) start actions = some last ∧
        Accounted last.queue last.queue.timers.items last.queued ∧
        (last.alive = false → last.queue.timers.items = [] ∧
          ∀ a, (∃ timer, last.queue.heap a = some timer) ↔ a ∈ last.queued) := by
  obtain ⟨does, last, ok, inv⟩ := runProgressWith stepSpec startInv allowed
  refine ⟨does, last, ok, ?_⟩
  rcases inv with ⟨alive, entries, same, held⟩ | ⟨-, none_, accounted⟩
  · exact ⟨same ▸ heldAccounted held, fun gone => by rw [alive] at gone; contradiction⟩
  · exact ⟨none_.symm ▸ accounted, fun _ => ⟨none_, accountedLeft accounted⟩⟩

def threadsRun : List Action :=
  [.addTimer false ⟨16, ⟨1000000⟩, ⟨true, 5000000⟩⟩, .addTimer true ⟨32, ⟨500000⟩, ⟨false, 0⟩⟩, .functor,
    .handleRead (fun _ => []), .addTimer false ⟨48, ⟨9000000⟩, ⟨false, 0⟩⟩, .destroy]

theorem timersAccountedSample :
    ∃ last, run (step steady) start threadsRun = some last ∧ last.queue.created = 3 ∧ last.queued = [48] ∧
      last.queue.heap 48 = some ⟨2, ⟨9000000⟩, ⟨false, 0⟩⟩ ∧
      (∀ a, (∃ timer, last.queue.heap a = some timer) ↔ a = 48) ∧ Accounted last.queue [] [48] := by
  have allowed : Along (step steady) (Allowed steady) start threadsRun := by decide +kernel
  obtain ⟨last, ok, accounted, ended⟩ := (timersAccounted steady allowed).2
  have facts : (run (step steady) start threadsRun).map
      (fun s => (s.queue.created, s.queued, s.queue.heap 48, s.alive)) =
      some (3, [48], some ⟨2, ⟨9000000⟩, ⟨false, 0⟩⟩, false) := by
    decide +kernel
  rw [ok] at facts
  simp only [Option.map_some, Option.some.injEq, Prod.mk.injEq] at facts
  obtain ⟨created, queued, live, gone⟩ := facts
  obtain ⟨none_, left⟩ := ended gone
  rw [none_, queued] at accounted
  refine ⟨last, ok, created, queued, live, fun a => ?_, accounted⟩
  rw [left a, queued, List.mem_singleton]

end TinyNetwork.TimerThreads
