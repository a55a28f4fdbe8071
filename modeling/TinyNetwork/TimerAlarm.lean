import TinyNetwork.TimerFiring

/-! The alarm of a timer queue. addTimer arms the timerfd when the new timer is the
earliest one, and reset arms it behind every entry of the batch it is given. A wakeup
whose batch is empty has read the timerfd and arms nothing: that is the one way in
which timers come to wait without an alarm. -/
namespace TinyNetwork.TimerAlarm
open OrderedSets Runs TimerQueue TimerCustody TimerFiring

structure Guarded (k : Clocks) (s : TimerQueue) : Prop where
  alarm : s.timerfd.armed (k.monotonic s.ticks) ∨ s.timerfd.readable (k.monotonic s.ticks)
  duration : ∃ e ∈ s.timers.items,
    (∀ d ∈ s.timers.items, e.1.microSecondsSinceEpoch ≤ d.1.microSecondsSinceEpoch) ∧
    ∃ itValue now, s.lastSet = some (itValue, now) ∧ itValue.valid ∧ itValue.zero = false ∧
      itValue.nanoSeconds = 1000 * max 100 (e.1.microSecondsSinceEpoch - now.microSecondsSinceEpoch)

def PendingArmed (k : Clocks) (s : TimerQueue) : Prop := s.timers.items ≠ [] → Guarded k s

def Wakes (k : Clocks) (s : TimerQueue) : Action → Prop
  | .addTimer _ => True
  | .handleRead _ =>
      s.timers.items ≠ [] → s.timerfd.readable (k.monotonic s.ticks) →
        ∃ e ∈ s.timers.items, e.1.microSecondsSinceEpoch ≤ (k.now s.ticks).microSecondsSinceEpoch

instance (k : Clocks) (s : TimerQueue) : (a : Action) → Decidable (Wakes k s a)
  | .addTimer _ => .isTrue trivial
  | .handleRead _ => inferInstanceAs (Decidable (_ → _))

theorem armedOrReadable (fd : Timerfd) (at_ : Int) : fd.armed at_ ∨ fd.readable at_ ↔ fd.deadline ≠ none := by
  unfold Timerfd.armed Timerfd.readable
  cases fd.deadline with
  | none => simp
  | some d =>
    simp only [Option.any_some, decide_eq_true_eq, ne_eq, reduceCtorEq, not_false_eq_true, iff_true]
    omega

theorem itValueSpec (expiration now : Timestamp) :
    (itValue expiration now).valid ∧ (itValue expiration now).zero = false ∧
      (itValue expiration now).nanoSeconds =
        1000 * max 100 (expiration.microSecondsSinceEpoch - now.microSecondsSinceEpoch) := by
  have clamp : ∀ x : Int, (if x < 100 then 100 else x) = max 100 x := by
    intro x
    split <;> omega
  have low : ∀ x : Int, 100 ≤ max 100 x := Int.le_max_left 100
  generalize dif : max 100 (expiration.microSecondsSinceEpoch - now.microSecondsSinceEpoch) = x
  have atLeast : 100 ≤ x := dif ▸ low _
  have value : itValue expiration now = ⟨x / 1000000, x % 1000000 * 1000⟩ := by
    simp only [itValue, clamp, dif, Timestamp.kMicroSecondsPerSecond]
    rw [Int.tdiv_eq_ediv_of_nonneg (by omega), Int.tmod_eq_emod_of_nonneg (by omega)]
    rfl
  rw [value]
  refine ⟨?_, ?_, ?_⟩
  · simp only [Timespec.valid, Bool.and_eq_true, decide_eq_true_eq]
    omega
  · simp only [Timespec.zero, Bool.and_eq_false_iff, beq_eq_false_iff_ne]
    omega
  · simp only [Timespec.nanoSeconds]
    omega

theorem resetTimerfdArms (k : Clocks) (s : TimerQueue) (expiration : Timestamp) :
    (s.resetTimerfd k expiration).timerfd.deadline ≠ none := by
  obtain ⟨valid, nonzero, _⟩ := itValueSpec expiration (k.now s.ticks)
  simp [resetTimerfd, Timerfd.settime, valid, nonzero]

theorem resetTimerfdGuards (k : Clocks) {s : TimerQueue} {e : Entry} (first : s.begin_ = some e) :
    Guarded k (s.resetTimerfd k e.1) := by
  refine ⟨(armedOrReadable _ _).mpr (resetTimerfdArms k s e.1), e, List.mem_of_head? first,
    fun d member => ?_, _, _, rfl, itValueSpec e.1 (k.now s.ticks)⟩
  rcases OrderedSet.beginLeast first member with rfl | above
  · exact Int.le_refl _
  · have := entryLessIff.mp above
    omega

theorem insertedGuarded (k : Clocks) {s : TimerQueue} {args : TimerArgs} (guarded : Guarded k s)
    (later : s.earliestChanged args.time = false) : Guarded k (inserted s args) := by
  obtain ⟨alarm, e, member, least, rest⟩ := guarded
  refine ⟨alarm, e, OrderedSet.memInsert.mpr (.inr member), fun d inside => ?_, rest⟩
  rcases OrderedSet.memInsert.mp inside with rfl | old
  · unfold earliestChanged at later
    split at later
    · contradiction
    · rename_i it first
      have atFirst := least it (List.mem_of_head? first)
      exact Int.le_trans atFirst (Timestamp.lessFalseIff.mp later)
  · exact least d old

theorem insertedBegin {s : TimerQueue} {args : TimerArgs} (earlier : s.earliestChanged args.time = true) :
    (inserted s args).begin_ = some (args.time, args.timer) := by
  have head := OrderedSet.beginInsert s.timers (args.time, args.timer)
  unfold earliestChanged begin_ at earlier
  split at earlier
  · rename_i first
    rw [first] at head
    exact head
  · rename_i it first
    rw [first] at head
    have below : entryOrder.less (args.time, args.timer) it := entryLessIff.mpr (.inl (by simpa using earlier))
    simp only [below, if_true] at head
    exact head

theorem addTimerArms (k : Clocks) {s t : TimerQueue} {args : TimerArgs} (armed : PendingArmed k s)
    (unused : s.heap args.timer = none) (ok : addTimer k s args = some t) : PendingArmed k t := by
  rw [addTimerEq k unused] at ok
  intro _
  split at ok
  · rename_i earlier
    have guarded := resetTimerfdGuards k (insertedBegin earlier)
    rw [← Option.some.inj ok]
    exact guarded
  · rename_i later
    rw [← Option.some.inj ok]
    refine insertedGuarded k (armed fun none => later ?_) (by simpa using later)
    simp [earliestChanged, begin_, none]

theorem resetOneArms (k : Clocks) {s t : TimerQueue} {e : Entry} {called : List Entry}
    (custody : Custody s [] (e :: called)) (ok : resetOne k s e = some t) : PendingArmed k t := by
  obtain ⟨timer, u, _, settled, custody', _⟩ := settleSpec k custody
  simp only [resetOne, settled, bind, Option.bind] at ok
  intro some_
  rcases rearmSpec k custody' with ⟨same, empty⟩ | ⟨first, begins, armed⟩
  · rw [same] at ok
    cases Option.some.inj ok
    exact absurd (List.head?_eq_none_iff.mp empty) some_
  · rw [armed] at ok
    cases Option.some.inj ok
    exact resetTimerfdGuards k begins

theorem resetArms (k : Clocks) {called : List Entry} {s t : TimerQueue} (custody : Custody s [] called)
    (some_ : called ≠ []) (ok : reset k s called = some t) : PendingArmed k t := by
  induction called generalizing s with
  | nil => contradiction
  | cons e rest ih =>
    obtain ⟨u, first, last⟩ := runCons.mp ok
    obtain ⟨u', _, first', custody', _⟩ := resetOneSpec k custody
    cases Option.some.inj (first.symm.trans first')
    cases rest with
    | nil =>
      cases Option.some.inj last
      exact resetOneArms k custody first
    | cons d rest => exact ih custody' (by simp) last

theorem idleWakeup (k : Clocks) {s t : TimerQueue} (armed : PendingArmed k s)
    (items : t.timers.items = s.timers.items) (fd : t.timerfd = s.timerfd.read (k.monotonic s.ticks))
    (set : t.lastSet = s.lastSet) :
    PendingArmed k t ↔ (s.timers.items ≠ [] → s.timerfd.readable (k.monotonic s.ticks) = false) := by
  constructor
  · intro armed' some_
    have alarm := (armedOrReadable _ _).mp (armed' (items ▸ some_)).alarm
    by_contra readable
    rw [Bool.not_eq_false] at readable
    simp [fd, Timerfd.read, readable] at alarm
  · intro quiet some_
    rw [items] at some_
    obtain ⟨alarm, duration⟩ := armed some_
    refine ⟨(armedOrReadable _ _).mpr ?_, ?_⟩
    · have alarm := (armedOrReadable _ _).mp alarm
      simpa [fd, Timerfd.read, quiet some_] using alarm
    · rw [items, set]
      exact duration

theorem wakesIff (k : Clocks) {s : TimerQueue} {callbacks : Nat → List TimerArgs} :
    Wakes k s (.handleRead callbacks) ↔
      (s.timers.items ≠ [] → s.timerfd.readable (k.monotonic s.ticks) → dueAt s (k.now s.ticks) ≠ []) := by
  simp [Wakes, dueAt, List.filter_eq_nil_iff]

theorem handleReadArms (k : Clocks) {s t : TimerQueue} {callbacks : Nat → List TimerArgs}
    (resting : Resting s) (armed : PendingArmed k s) (allocated : Allocated k s (.handleRead callbacks))
    (ok : handleRead k s callbacks = some t) : Wakes k s (.handleRead callbacks) ↔ PendingArmed k t := by
  obtain ⟨mid, called, halves, custody, _⟩ := batchSpec k resting allocated
  rw [halves] at ok
  rw [wakesIff]
  by_cases due : dueAt s (k.now s.ticks) = []
  · rw [due] at called ok
    cases Option.some.inj called
    cases Option.some.inj ok
    have items : (s.timers.eraseBefore (k.now s.ticks, uintptrMax)).items = s.timers.items := by
      have split := OrderedSet.beforeEraseBefore s.timers (k.now s.ticks, uintptrMax)
      rwa [beforeSentry resting, due] at split
    have idle : PendingArmed k ((s.readTimerFd k).getExpired (k.now s.ticks)).2 ↔ _ :=
      idleWakeup k armed items rfl rfl
    rw [idle]
    simp [due]
  · exact ⟨fun _ => resetArms k custody due ok, fun _ _ _ => due⟩

theorem stepArms (k : Clocks) {s t : TimerQueue} {a : Action} (resting : Resting s)
    (armed : PendingArmed k s) (allocated : Allocated k s a) (ok : step k s a = some t) :
    Wakes k s a ↔ PendingArmed k t := by
  cases a with
  | addTimer args =>
    have unused := allocated.unused args List.mem_cons_self
    exact ⟨fun _ => addTimerArms k armed unused ok, fun _ => trivial⟩
  | handleRead callbacks => exact handleReadArms k resting armed allocated ok

theorem pendingTimerArmed (k : Clocks) {actions : List Action}
    (allocated : Along (step k) (Allocated k) constructed actions) :
    (∃ last, run (step k) constructed actions = some last) ∧
      (Along (step k) (fun s a => ∀ t, step k s a = some t → PendingArmed k t) constructed actions ↔
        Along (step k) (Wakes k) constructed actions) := by
  constructor
  · obtain ⟨_, last, ok, _⟩ := runProgressWith (stepSpec k) restingStart allocated
    exact ⟨last, ok⟩
  · have each : ∀ {s a}, Resting s ∧ PendingArmed k s → Allocated k s a →
        ∃ t, step k s a = some t ∧ (Wakes k s a ↔ PendingArmed k t) ∧
          (PendingArmed k t → Resting t ∧ PendingArmed k t) := by
      rintro s a ⟨resting, armed⟩ allocated
      obtain ⟨t, ok, resting', _⟩ := stepSpec k resting allocated
      exact ⟨t, ok, stepArms k resting armed allocated ok, fun armed' => ⟨resting', armed'⟩⟩
    exact alongIff each ⟨restingStart, fun some_ => absurd rfl some_⟩ allocated

theorem steadyTimerArmed :
    Along (step steady) (fun s a => ∀ t, step steady s a = some t → PendingArmed steady t) constructed
      [.addTimer ⟨16, ⟨500000⟩, ⟨false, 0⟩⟩, .addTimer ⟨32, ⟨9000000⟩, ⟨true, 5000000⟩⟩,
        .handleRead (fun _ => [])] :=
  (pendingTimerArmed steady (by decide +kernel)).2.mpr (by decide +kernel)

/- The wall clock is behind when the alarm goes off: nothing is due, and the timer
that waits has lost its alarm. -/
def stopped : Clocks := ⟨fun _ => ⟨0⟩, fun n => 2000000000 * n, by omega⟩

theorem earlyWakeupDisarms :
    ¬ ∀ (k : Clocks) (actions : List Action) (last : TimerQueue),
      Along (step k) (Allocated k) constructed actions → run (step k) constructed actions = some last →
        PendingArmed k last := by
  intro all
  let actions : List Action := [.addTimer ⟨16, ⟨1000000⟩, ⟨false, 0⟩⟩, .handleRead (fun _ => [])]
  have ends : ((run (step stopped) constructed actions).map
      (fun last => (last.timers.items, last.timerfd.deadline))) = some ([(⟨1000000⟩, 16)], none) := by
    decide +kernel
  obtain ⟨last, ok, seen⟩ := Option.map_eq_some_iff.mp ends
  obtain ⟨items, deadline⟩ := Prod.mk.inj seen
  have guarded := all stopped actions last (by decide +kernel) ok (by simp [items])
  exact (armedOrReadable _ _).mp guarded.alarm deadline

end TinyNetwork.TimerAlarm
