import TinyNetwork.TimerCustody

/-! Runs of a timer queue: calls of addTimer in the loop thread and wakeups of its
timerfd, with callbacks that add timers themselves. Every call of addTimer makes one
Timer and enters it in timers_, a wakeup runs what its reading of the clock says is due
and nothing else, and every Timer is waiting in timers_ or was run once and deleted. -/
namespace TinyNetwork.TimerFiring
open OrderedSets Runs TimerQueue TimerCustody

/- `callbacks` says for an expired Timer what its callback adds in this call. -/
inductive Action where
  | addTimer (args : TimerArgs)
  | handleRead (callbacks : Nat → List TimerArgs)

def step (k : Clocks) (s : TimerQueue) : Action → Option TimerQueue
  | .addTimer args => s.addTimer k args
  | .handleRead callbacks => s.handleRead k callbacks

def dueAt (s : TimerQueue) (now : Timestamp) : List Entry := s.timers.items.filter (fun e => !now.less e.1)

def addedBy (callbacks : Nat → List TimerArgs) (due : List Entry) : List TimerArgs :=
  due.flatMap (fun e => callbacks e.2)

instance (heap : Nat → Option Timer) (args : List TimerArgs) : Decidable (Unused heap args) :=
  decidable_of_iff
    ((args.map TimerArgs.timer).Nodup ∧ (∀ a ∈ args, heap a.timer = none) ∧ ∀ a ∈ args, a.timer < uintptrMax)
    ⟨fun both => ⟨both.1, both.2.1, both.2.2⟩, fun unused => ⟨unused.distinct, unused.unused, unused.fits⟩⟩

/- What operator new promises, for the Timers that one action creates. -/
def Allocated (k : Clocks) (s : TimerQueue) : Action → Prop
  | .addTimer args => Unused s.heap [args]
  | .handleRead callbacks =>
      Unused s.heap (addedBy callbacks (s.getExpired (k.now s.ticks)).1)

instance (k : Clocks) (s : TimerQueue) : (a : Action) → Decidable (Allocated k s a)
  | .addTimer _ => inferInstanceAs (Decidable (Unused _ _))
  | .handleRead _ => inferInstanceAs (Decidable (Unused _ _))

theorem beforeSentry {s : TimerQueue} {others : List Entry} (custody : Custody s others []) (now : Timestamp) :
    s.timers.before (now, uintptrMax) = dueAt s now := by
  rw [OrderedSet.beforeFilter, dueAt]
  refine List.filter_congr fun e member => ?_
  have fits := custody.below e (by simp [member])
  rw [Bool.eq_iff_iff, Bool.not_eq_true', Timestamp.lessFalseIff]
  exact entryLessIff.trans (by simp only [fits, and_true]; omega)

/- `mid` is the queue when reset begins, `batch` the Timers run, `events` their ends.
The Timers that the callbacks add wait in timers_ at the end, and no others are made. -/
structure Fired (k : Clocks) (s : TimerQueue) (callbacks : Nat → List TimerArgs) (due : List Entry)
    (mid : TimerQueue) (batch : List Timer) (events : List TimerEvent) (t : TimerQueue) : Prop where
  timers : List.Forall₂ (fun e timer =>
    s.heap e.2 = some timer ∧ mid.heap e.2 = some timer ∧ timer.expiration = e.1) due batch
  runs : runsOf t.log = runsOf s.log ++ batch
  once : (due.map Prod.snd).Nodup
  ordered : due.Pairwise (fun a b => a.1.microSecondsSinceEpoch ≤ b.1.microSecondsSinceEpoch)
  called : run (runTimer k callbacks) ((s.readTimerFd k).getExpired (k.now s.ticks)).2 due = some mid
  settled : settledOf t.log = settledOf s.log ++ events
  outcome : List.Forall₂ (Settles k mid t) due events
  stays : ∀ e ∈ s.timers.items, e ∉ due → e ∈ t.timers.items
  entered : Entered s (addedBy callbacks due) t
  untouched : ∀ a ∉ (addedBy callbacks due).map TimerArgs.timer, a ∉ due.map Prod.snd → t.heap a = s.heap a

def Fires (k : Clocks) (s : TimerQueue) : Action → TimerQueue → Prop
  | .addTimer args, t =>
      Added s args t ∧ runsOf t.log = runsOf s.log ∧ settledOf t.log = settledOf s.log
  | .handleRead callbacks, t =>
      ∃ mid batch events, Fired k s callbacks (dueAt s (k.now s.ticks)) mid batch events t

theorem dueOrdered (s : TimerQueue) (now : Timestamp) :
    (dueAt s now).Pairwise (fun a b => a.1.microSecondsSinceEpoch ≤ b.1.microSecondsSinceEpoch) := by
  refine (s.timers.sorted.sublist List.filter_sublist).imp ?_
  intro a b below
  have := entryLessIff.mp below
  omega

theorem expiredCustody (k : Clocks) {s : TimerQueue} {others : List Entry} (custody : Custody s others [])
    (now : Timestamp) : Custody ((s.readTimerFd k).getExpired now).2 (dueAt s now ++ others) [] := by
  refine ledgerPerm custody ?_ (.refl _)
  rw [← beforeSentry custody, ← List.append_assoc]
  nth_rewrite 1 [← OrderedSet.beforeEraseBefore s.timers (now, uintptrMax)]
  exact List.perm_append_comm.append_right others

theorem forall₂FilterMap {α β : Type} {f : α → Option β} {P : α → β → Prop} {l : List α}
    (each : ∀ a ∈ l, ∃ b, f a = some b ∧ P a b) :
    List.Forall₂ (fun a b => f a = some b ∧ P a b) l (l.filterMap f) := by
  induction l with
  | nil => exact .nil
  | cons a rest ih =>
    obtain ⟨b, found, good⟩ := each a List.mem_cons_self
    rw [List.filterMap_cons_some found]
    exact .cons ⟨found, good⟩ (ih fun a member => each a (List.mem_cons_of_mem _ member))

theorem batchSpec (k : Clocks) {s : TimerQueue} {callbacks : Nat → List TimerArgs} {others : List Entry}
    (custody : Custody s others []) (allocated : Allocated k s (.handleRead callbacks)) :
    ∃ mid, run (runTimer k callbacks) ((s.readTimerFd k).getExpired (k.now s.ticks)).2
        (dueAt s (k.now s.ticks)) = some mid ∧
      handleRead k s callbacks = mid.reset k (dueAt s (k.now s.ticks)) ∧
      Custody mid others (dueAt s (k.now s.ticks)) ∧
      Grown ((s.readTimerFd k).getExpired (k.now s.ticks)).2
        ((addedBy callbacks (dueAt s (k.now s.ticks))).map TimerArgs.timer) mid ∧
      Entered s (addedBy callbacks (dueAt s (k.now s.ticks))) mid ∧
      runsOf mid.log = runsOf s.log ++ (dueAt s (k.now s.ticks)).filterMap (fun e => s.heap e.2) ∧
      settledOf mid.log = settledOf s.log := by
  have batch := beforeSentry custody (k.now s.ticks)
  have taken := expiredCustody k custody (k.now s.ticks)
  simp only [Allocated, getExpired, batch] at allocated
  obtain ⟨mid, called, custody', grown, entered, rest⟩ := runTimersSpec k callbacks taken allocated
  rw [List.append_nil] at custody'
  refine ⟨mid, called, ?_, custody', grown, ⟨entered.created, entered.added, entered.waiting⟩, rest⟩
  simp only [handleRead, getExpired, readTimerFd, bind, Option.bind] at called ⊢
  rw [batch, called]

theorem handleReadSpec (k : Clocks) {s : TimerQueue} {callbacks : Nat → List TimerArgs} {others : List Entry}
    (custody : Custody s others []) (allocated : Allocated k s (.handleRead callbacks)) :
    ∃ t, handleRead k s callbacks = some t ∧ Custody t others [] ∧ Fires k s (.handleRead callbacks) t := by
  have batch := beforeSentry custody (k.now s.ticks)
  obtain ⟨mid, called, halves, custody', grown, entered, runs, settled⟩ := batchSpec k custody allocated
  obtain ⟨t, events, ok, custody'', grown', entered', runs', settled', outcome⟩ := resetSpec k custody'
  simp only [Allocated, getExpired, batch] at allocated
  refine ⟨t, halves.trans ok, custody'', mid,
    (dueAt s (k.now s.ticks)).filterMap (fun e => s.heap e.2), events, ?_⟩
  have selected : ∀ e ∈ dueAt s (k.now s.ticks), e ∈ s.timers.items := fun e member =>
    (List.mem_filter.mp member).1
  -- reset writes where the batch is, and the new Timers are not there
  have apart : ∀ args ∈ addedBy callbacks (dueAt s (k.now s.ticks)),
      args.timer ∉ (dueAt s (k.now s.ticks)).map Prod.snd := by
    intro args member inside
    obtain ⟨e, due, same⟩ := List.mem_map.mp inside
    obtain ⟨timer, live, _⟩ := custody.keyed e (by simp [selected e due])
    rw [same, allocated.unused args member] at live
    contradiction
  exact {
    timers := by
      refine forall₂FilterMap fun e member => ?_
      obtain ⟨timer, live, expiration⟩ := custody.keyed e (by simp [selected e member])
      refine ⟨timer, live, ?_, expiration⟩
      rw [grown.frame e.2 (allocated.liveOutside live)]
      exact live
    runs := runs'.trans runs
    once := by
      have nodup := custody.once
      rw [List.append_nil, List.map_append] at nodup
      exact (List.nodup_append.mp nodup).1.sublist (List.filter_sublist.map Prod.snd)
    ordered := dueOrdered s _
    called
    settled := by rw [settled', settled]
    outcome
    stays := by
      intro e member notDue
      rw [← OrderedSet.beforeEraseBefore s.timers (k.now s.ticks, uintptrMax), batch] at member
      rcases List.mem_append.mp member with cut | kept
      · exact absurd cut notDue
      · exact grown'.stays e (grown.stays e kept)
    entered := by simpa using entered.trans entered' grown' apart
    untouched := fun a notAdded notDue => (grown'.frame a notDue).trans (grown.frame a notAdded) }

theorem addTimerFires (k : Clocks) {s : TimerQueue} {args : TimerArgs} (custody : Resting s)
    (allocated : Allocated k s (.addTimer args)) :
    ∃ t, addTimer k s args = some t ∧ Resting t ∧ Fires k s (.addTimer args) t := by
  obtain ⟨t, ok, custody', added⟩ := addTimerSpec k custody
    (allocated.unused args List.mem_cons_self) (allocated.fits args List.mem_cons_self)
  exact ⟨t, ok, custody', added, by simp [added.log, runOf], by simp [added.log, settles]⟩

theorem stepSpec (k : Clocks) {s : TimerQueue} {a : Action} (resting : Resting s)
    (allocated : Allocated k s a) : ∃ t, step k s a = some t ∧ Resting t ∧ Fires k s a t := by
  cases a with
  | addTimer args => exact addTimerFires k resting allocated
  | handleRead callbacks => exact handleReadSpec k resting allocated

/- The queue between two calls: the key of an entry is the expiration of its Timer,
every Timer on the heap has an entry and none has two, and each Timer ever created is in timers_ with the past of a
waiting one, or is gone and was added, run and deleted. -/
structure Exact (s : TimerQueue) : Prop where
  keyed : ∀ e ∈ s.timers.items, ∃ timer, s.heap e.2 = some timer ∧ timer.expiration = e.1
  held : ∀ a timer, s.heap a = some timer → (timer.expiration, a) ∈ s.timers.items
  once : (s.timers.items.map Prod.snd).Nodup
  lives : ∀ serial < s.created,
    (∃ e ∈ s.timers.items, ∃ timer, s.heap e.2 = some timer ∧ timer.serial = serial ∧
      Waiting timer (history serial s.log)) ∨
    (∀ a timer, s.heap a = some timer → timer.serial ≠ serial) ∧ Finished serial (history serial s.log)

theorem exactOf {s : TimerQueue} (custody : Resting s) : Exact s where
  keyed e member := custody.keyed e (by simp [member])
  held a timer there := by
    obtain ⟨e, member, rfl⟩ := List.mem_map.mp (custody.held a timer there)
    obtain ⟨own, live, key⟩ := custody.keyed e member
    cases Option.some.inj (live.symm.trans there)
    rw [key]
    simpa using member
  once := by simpa using custody.once
  lives serial bound := by
    by_cases live : ∃ a timer, s.heap a = some timer ∧ timer.serial = serial
    · obtain ⟨a, timer, there, rfl⟩ := live
      obtain ⟨e, member, rfl⟩ := List.mem_map.mp (custody.held a timer there)
      rw [List.append_nil] at member
      exact .inl ⟨e, by simpa using member, timer, there, rfl, custody.waits e member timer there⟩
    · have gone : ∀ a timer, s.heap a = some timer → timer.serial ≠ serial :=
        fun a timer there same => live ⟨a, timer, there, same⟩
      exact .inr ⟨gone, custody.finished serial bound gone⟩

theorem timerFiringExact (k : Clocks) {actions : List Action}
    (allocated : Along (step k) (Allocated k) constructed actions) :
    Along (step k) (fun s a => ∀ t, step k s a = some t → Fires k s a t) constructed actions ∧
      ∃ last, run (step k) constructed actions = some last ∧ Exact last := by
  obtain ⟨fires, last, ok, resting⟩ := runProgressWith (stepSpec k) restingStart allocated
  exact ⟨fires, last, ok, exactOf resting⟩

def steady : Clocks := ⟨fun n => ⟨1000000 * n⟩, fun n => 1000000000 * n, by omega⟩

def steadyActions : List Action :=
  [.addTimer ⟨16, ⟨1000000⟩, ⟨false, 0⟩⟩, .addTimer ⟨32, ⟨500000⟩, ⟨true, 5000000⟩⟩,
    .handleRead (fun a => if a = 16 then [⟨48, ⟨2500000⟩, ⟨false, 0⟩⟩] else [])]

theorem steadyFiringExact :
    Along (step steady) (fun s a => ∀ t, step steady s a = some t → Fires steady s a t) constructed steadyActions ∧
      ∃ last, run (step steady) constructed steadyActions = some last ∧ last.created = 3 ∧
        last.timers.items = [(⟨2500000⟩, 48), (⟨9000000⟩, 32)] ∧ last.heap 16 = none ∧
        last.heap 48 = some ⟨2, ⟨2500000⟩, ⟨false, 0⟩⟩ ∧ Exact last := by
  obtain ⟨fires, last, ok, exactly⟩ := @timerFiringExact steady steadyActions (by decide +kernel)
  have facts : (run (step steady) constructed steadyActions).map
      (fun s => (s.created, s.timers.items, s.heap 16, s.heap 48)) =
      some (3, [(⟨2500000⟩, 48), (⟨9000000⟩, 32)], none, some ⟨2, ⟨2500000⟩, ⟨false, 0⟩⟩) := by
    decide +kernel
  rw [ok] at facts
  simp only [Option.map_some, Option.some.injEq, Prod.mk.injEq] at facts
  obtain ⟨created, items, gone, added⟩ := facts
  exact ⟨fires, last, ok, created, items, gone, added, exactly⟩

end TinyNetwork.TimerFiring
