import TinyNetwork.TimerFiring

/-! How often a repeating timer runs. A Timer is called at a reading of the clock that has
reached its expiration, and is put back behind a later reading by its interval. On a
clock that is not set back its calls are therefore at least an interval apart. -/
namespace TinyNetwork.TimerRate
open OrderedSets Runs TimerQueue TimerCustody TimerFiring

def Ahead (k : Clocks) : Prop :=
  ∀ n, (k.now n).microSecondsSinceEpoch ≤ (k.now (n + 1)).microSecondsSinceEpoch

theorem Ahead.later {k : Clocks} (ahead : Ahead k) {m n : Nat} (later : m ≤ n) :
    (k.now m).microSecondsSinceEpoch ≤ (k.now n).microSecondsSinceEpoch := by
  induction later with
  | refl => exact Int.le_refl _
  | step _ ih => exact Int.le_trans ih (ahead _)

def Behind : TimerEvent → TimerEvent → Prop
  | .ran timer, .putBack _ now => timer.expiration.microSecondsSinceEpoch ≤ now.microSecondsSinceEpoch
  | _, _ => True

structure Timely (k : Clocks) (s : TimerQueue) : Prop where
  reached : ∀ timer ∈ runsOf s.log,
    timer.expiration.microSecondsSinceEpoch ≤ (k.now s.ticks).microSecondsSinceEpoch
  behind : s.log.Pairwise Behind

structure Logs (k : Clocks) (s t : TimerQueue) : Prop where
  ticks : s.ticks ≤ t.ticks
  more : ∃ more, t.log = s.log ++ more ∧
    ∀ timer now, .putBack timer now ∈ more → ∃ n, s.ticks ≤ n ∧ now = k.now n

section Logs
variable {k : Clocks} {s t u : TimerQueue} {e : Entry} {timer : Nat} {args : TimerArgs}

theorem logsSame (ticks : s.ticks ≤ t.ticks) (log : t.log = s.log) : Logs k s t :=
  ⟨ticks, [], by rw [log, List.append_nil], fun _ _ member => absurd member List.not_mem_nil⟩

theorem logsOne {event : TimerEvent} (ticks : s.ticks ≤ t.ticks) (log : t.log = s.log ++ [event])
    (read : ∀ timer now, event = .putBack timer now → now = k.now s.ticks) : Logs k s t :=
  ⟨ticks, [event], log, fun timer now member =>
    ⟨s.ticks, Nat.le_refl _, read timer now (List.mem_singleton.mp member).symm⟩⟩

theorem Logs.trans (first : Logs k s t) (second : Logs k t u) : Logs k s u := by
  obtain ⟨ticks, more, log, read⟩ := first
  obtain ⟨ticks', more', log', read'⟩ := second
  refine ⟨Nat.le_trans ticks ticks', more ++ more', by rw [log', log, List.append_assoc], ?_⟩
  intro timer now member
  rcases List.mem_append.mp member with early | late
  · exact read timer now early
  · obtain ⟨n, from_, same⟩ := read' timer now late
    exact ⟨n, Nat.le_trans ticks from_, same⟩

theorem runLogs {α : Type} {f : TimerQueue → α → Option TimerQueue}
    (each : ∀ {s a t}, f s a = some t → Logs k s t) {actions : List α} (ok : run f s actions = some t) :
    Logs k s t :=
  runInvariant (fun logs ht => Logs.trans logs (each ht)) (logsSame (Nat.le_refl _) rfl) ok

theorem insertLogs {first : Bool} (ok : s.insert timer = some (first, t)) : t.log = s.log ∧ t.ticks = s.ticks := by
  simp only [TimerQueue.insert, bind, Option.bind_eq_some_iff] at ok
  obtain ⟨value, -, same⟩ := ok
  have same := (Prod.mk.inj (Option.some.inj same)).2
  rw [← same]
  exact ⟨rfl, rfl⟩

theorem addTimerInLoopLogs (ok : s.addTimerInLoop k timer = some t) : Logs k s t := by
  simp only [addTimerInLoop, bind, Option.bind_eq_some_iff] at ok
  obtain ⟨⟨first, mid⟩, inserted, rest⟩ := ok
  obtain ⟨log, ticks⟩ := insertLogs inserted
  split at rest
  · obtain ⟨value, -, same⟩ := Option.bind_eq_some_iff.mp rest
    rw [← Option.some.inj same]
    exact logsSame (ticks ▸ Nat.le_succ _) log
  · rw [← Option.some.inj rest]
    exact logsSame (Nat.le_of_eq ticks.symm) log

theorem addTimerLogs (ok : s.addTimer k args = some t) : Logs k s t := by
  simp only [addTimer, bind, Option.bind_eq_some_iff] at ok
  obtain ⟨mid, made, rest⟩ := ok
  refine .trans ?_ (addTimerInLoopLogs rest)
  unfold newTimer at made
  split at made
  · contradiction
  · rw [← Option.some.inj made]
    exact logsOne (Nat.le_refl _) rfl (by simp)

theorem runTimerLogs {callbacks : Nat → List TimerArgs} (ok : s.runTimer k callbacks e = some t) : Logs k s t := by
  simp only [runTimer, bind, Option.bind_eq_some_iff] at ok
  obtain ⟨value, -, added⟩ := ok
  have called : Logs k s { s with log := s.log ++ [.ran value] } := logsOne (Nat.le_refl _) rfl (by simp)
  exact called.trans (runLogs addTimerLogs added)

theorem settleLogs (ok : s.settle k e = some t) : Logs k s t := by
  simp only [settle, bind, Option.bind_eq_some_iff] at ok
  obtain ⟨value, -, rest⟩ := ok
  split at rest
  · obtain ⟨⟨first, mid⟩, inserted, same⟩ := Option.bind_eq_some_iff.mp rest
    obtain ⟨log, ticks⟩ := insertLogs inserted
    rw [← Option.some.inj same]
    exact logsOne (ticks ▸ Nat.le_succ _) log (by simp)
  · rw [← Option.some.inj rest]
    exact logsOne (Nat.le_refl _) rfl (by simp)

theorem rearmLogs (ok : s.rearm k = some t) : Logs k s t := by
  unfold rearm at ok
  split at ok
  · rw [← Option.some.inj ok]
    exact logsSame (Nat.le_refl _) rfl
  · obtain ⟨value, -, same⟩ := Option.bind_eq_some_iff.mp ok
    rw [← Option.some.inj same]
    exact logsSame (Nat.le_succ _) rfl

theorem resetOneLogs (ok : s.resetOne k e = some t) : Logs k s t := by
  simp only [resetOne, bind, Option.bind_eq_some_iff] at ok
  obtain ⟨mid, settled, armed⟩ := ok
  exact (settleLogs settled).trans (rearmLogs armed)

theorem stepLogs {a : Action} (ok : step k s a = some t) : Logs k s t := by
  cases a with
  | addTimer args => exact addTimerLogs ok
  | handleRead callbacks =>
    simp only [step, handleRead, bind, Option.bind_eq_some_iff] at ok
    obtain ⟨mid, called, reset⟩ := ok
    have read : Logs k s ((s.readTimerFd k).getExpired (k.now s.ticks)).2 := logsSame (Nat.le_succ _) rfl
    exact (read.trans (runLogs runTimerLogs called)).trans (runLogs resetOneLogs reset)

end Logs

theorem forall₂Member {α β : Type} {R : α → β → Prop} {l : List α} {l' : List β} (all : List.Forall₂ R l l')
    {b : β} (member : b ∈ l') : ∃ a ∈ l, R a b := by
  induction all with
  | nil => contradiction
  | cons head _ ih =>
    rcases List.mem_cons.mp member with rfl | rest
    · exact ⟨_, List.mem_cons_self, head⟩
    · obtain ⟨a, inside, related⟩ := ih rest
      exact ⟨a, List.mem_cons_of_mem _ inside, related⟩

theorem stepReached {k : Clocks} {s t : TimerQueue} {a : Action} (timely : Timely k s) (fires : Fires k s a t) :
    ∀ timer ∈ runsOf t.log, timer.expiration.microSecondsSinceEpoch ≤ (k.now s.ticks).microSecondsSinceEpoch := by
  intro timer member
  cases a with
  | addTimer args =>
    rw [fires.2.1] at member
    exact timely.reached timer member
  | handleRead callbacks =>
    obtain ⟨mid, batch, events, fired⟩ := fires
    rw [fired.runs] at member
    rcases List.mem_append.mp member with old | new
    · exact timely.reached timer old
    · obtain ⟨e, due, -, -, expiration⟩ := forall₂Member fired.timers new
      have selected := (List.mem_filter.mp due).2
      rw [expiration]
      simpa using selected

theorem stepTimely {k : Clocks} (ahead : Ahead k) {s t : TimerQueue} {a : Action} (timely : Timely k s)
    (ok : step k s a = some t) (fires : Fires k s a t) : Timely k t := by
  have reached := stepReached timely fires
  obtain ⟨ticks, more, log, read⟩ := stepLogs ok
  -- All calls so far are for expirations reached when the step began, and it puts back later.
  have after : ∀ x ∈ t.log, ∀ y ∈ more, Behind x y := by
    intro x member y added
    cases x with
    | ran timer =>
      cases y with
      | putBack other now =>
        obtain ⟨n, from_, rfl⟩ := read other now added
        exact Int.le_trans (reached timer (runLogged.mpr member)) (ahead.later from_)
      | _ => trivial
    | _ => trivial
  have old : ∀ x ∈ s.log, x ∈ t.log := fun x member => by rw [log]; exact List.mem_append_left _ member
  have new : ∀ x ∈ more, x ∈ t.log := fun x member => by rw [log]; exact List.mem_append_right _ member
  refine ⟨fun timer member => Int.le_trans (reached timer member) (ahead.later ticks), ?_⟩
  rw [log]
  refine List.pairwise_append.mpr ⟨timely.behind, ?_, fun x member y added => after x (old x member) y added⟩
  exact List.pairwise_of_forall_mem_list fun x member y added => after x (new x member) y added

theorem againCalls (past : List TimerEvent) (timer after : Timer) (now : Timestamp) :
    (runsOf (past ++ [.ran timer, .putBack after now])).length = (runsOf past).length + 1 := by
  rw [runsOf, List.filterMap_append, List.length_append]
  rfl

theorem waitingSpaced {timer : Timer} {past : List TimerEvent} (waiting : Waiting timer past)
    (behind : past.Pairwise Behind) :
    ∃ first rest, past = .added first :: rest ∧ timer.interval = first.interval ∧
      first.expiration.microSecondsSinceEpoch + (runsOf past).length * first.interval.microSeconds ≤
        timer.expiration.microSecondsSinceEpoch := by
  induction waiting with
  | added timer =>
    have calls : (runsOf [.added timer]).length = 0 := rfl
    exact ⟨timer, [], rfl, rfl, Int.le_of_eq (by rw [calls, Int.natCast_zero, Int.zero_mul, Int.add_zero])⟩
  | @again timer past now waiting repeating ih =>
    obtain ⟨before, last, -⟩ := List.pairwise_append.mp behind
    obtain ⟨first, rest, starts, interval, spaced⟩ := ih before
    have passed : timer.expiration.microSecondsSinceEpoch ≤ now.microSecondsSinceEpoch :=
      (List.pairwise_cons.mp last).1 _ (List.mem_singleton_self _)
    refine ⟨first, rest ++ [.ran timer, .putBack (timer.restart now) now], by rw [starts]; rfl, ?_, ?_⟩
    · rw [Timer.restart, if_pos repeating, interval]
    · have moved : (timer.restart now).expiration.microSecondsSinceEpoch =
          now.microSecondsSinceEpoch + first.interval.microSeconds := by
        rw [Timer.restart, if_pos repeating, ← interval]
        rfl
      rw [againCalls, moved, Int.natCast_add, Int.add_mul, Int.natCast_one, Int.one_mul, ← Int.add_assoc]
      exact Int.add_le_add_right (Int.le_trans spaced passed) _

/- What a history says about its Timer when the clock shows `now`: it was added first, and
if it was called n + 1 times, n intervals have gone by since the expiration it was added with. -/
def Spaced (past : List TimerEvent) (now : Timestamp) : Prop :=
  ∃ first rest, past = .added first :: rest ∧ ∀ n : Nat, (runsOf past).length = n + 1 →
    first.expiration.microSecondsSinceEpoch + n * first.interval.microSeconds ≤ now.microSecondsSinceEpoch

theorem spacedOf {k : Clocks} {s : TimerQueue} (timely : Timely k s) (exactly : Exact s) {serial : Nat}
    (created : serial < s.created) : Spaced (history serial s.log) (k.now s.ticks) := by
  have behind : (history serial s.log).Pairwise Behind := timely.behind.sublist List.filter_sublist
  have reached : ∀ timer, .ran timer ∈ history serial s.log →
      timer.expiration.microSecondsSinceEpoch ≤ (k.now s.ticks).microSecondsSinceEpoch :=
    fun timer member => timely.reached timer (runLogged.mpr (List.mem_of_mem_filter member))
  rcases exactly.lives serial created with ⟨e, -, timer, -, -, waiting⟩ | ⟨-, timer, -, -, past⟩
  · generalize history serial s.log = past at behind reached waiting
    cases waiting with
    | added => exact ⟨timer, [], rfl, fun n calls => absurd calls (Nat.succ_ne_zero n).symm⟩
    | @again before past now waiting repeating =>
      obtain ⟨early, -, -⟩ := List.pairwise_append.mp behind
      obtain ⟨first, rest, starts, -, spaced⟩ := waitingSpaced waiting early
      refine ⟨first, rest ++ [.ran before, .putBack (before.restart now) now], by rw [starts]; rfl, ?_⟩
      intro n calls
      rw [againCalls] at calls
      rw [← Nat.succ.inj calls]
      exact Int.le_trans spaced (reached before (by simp))
  · rw [past] at reached ⊢
    refine ⟨timer, _, rfl, fun n calls => ?_⟩
    obtain rfl : 0 = n := Nat.succ.inj calls
    simpa using reached timer (by simp)

theorem timerRate (k : Clocks) (ahead : Ahead k) {actions : List Action} {last : TimerQueue}
    (allocated : Along (step k) (Allocated k) constructed actions)
    (ok : run (step k) constructed actions = some last) :
    ∀ serial < last.created, Spaced (history serial last.log) (k.now last.ticks) := by
  have kept {s : TimerQueue} {a : Action} {t : TimerQueue} (both : Resting s ∧ Timely k s)
      (allowed : Allocated k s a) (ht : step k s a = some t) : Resting t ∧ Timely k t := by
    obtain ⟨u, ht', resting, fires⟩ := stepSpec k both.1 allowed
    cases ht.symm.trans ht'
    exact ⟨resting, stepTimely ahead both.2 ht fires⟩
  have timely : Timely k constructed := ⟨fun timer member => absurd member List.not_mem_nil, .nil⟩
  obtain ⟨resting, timely⟩ := runInvariantAlong kept ⟨restingStart, timely⟩ allocated ok
  exact fun serial created => spacedOf timely (exactOf resting) created

def halfSeconds : List Action :=
  [.addTimer ⟨16, ⟨1000000⟩, ⟨true, 500000⟩⟩, .handleRead (fun _ => []), .handleRead (fun _ => []),
    .handleRead (fun _ => [])]

example : ((run (step steady) constructed halfSeconds).map
    (fun last => ((runsOf last.log).length, steady.now last.ticks))) = some (3, ⟨10000000⟩) := by decide +kernel

theorem timerRateSample : ∃ last, run (step steady) constructed halfSeconds = some last ∧
    ∀ serial < last.created, Spaced (history serial last.log) (steady.now last.ticks) := by
  obtain ⟨last, ok⟩ := Option.isSome_iff_exists.mp
    (show (run (step steady) constructed halfSeconds).isSome = true by decide +kernel)
  have forward : Ahead steady := fun n => by
    simp only [steady]
    omega
  exact ⟨last, ok, timerRate steady forward (by decide +kernel) ok⟩

end TinyNetwork.TimerRate
