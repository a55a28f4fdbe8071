import TinyNetwork.LogCustody

/-! What stop() saves. The back end looks at running_ only between its rounds and
leaves without another look at the front end. The lines appended before stop() are
written when a round is still to take them: the back end has made its test and not
yet its swap, or there is nothing in front of it. -/
namespace TinyNetwork.LogStop
open Runs AsyncLogging LogCustody

variable {size : Nat}

/- Whole lines in buffers that were passed to the output, in their order; an empty
line has nothing to be contained. -/
def Saved (blocks lines : List Bytes) : Prop :=
  ∃ written, Grouped blocks written ∧ lines.filter (fun l => l ≠ []) <+: written

def swapAhead (s : AsyncLogging size) : Prop := s.phase = .locking ∨ s.phase = .waiting

def front (s : AsyncLogging size) : List Bytes := (s.buffers ++ [s.currentBuffer]).map contentOf

def passed (s : AsyncLogging size) : List Bytes :=
  s.output.map FixedBuffer.content ++ (unwritten s).map contentOf

def InTime (s : AsyncLogging size) : Prop := swapAhead s ∨ ∀ block ∈ front s, block = []

theorem contentsSplit (s : AsyncLogging size) : contents s = passed s ++ front s := by
  simp [contents, passed, front]

theorem filterFlatten (lines : List Bytes) : (lines.filter (fun l => l ≠ [])).flatten = lines.flatten := by
  induction lines with
  | nil => rfl
  | cons line rest ih => cases line <;> simp_all

theorem groupedFilter {blocks lines : List Bytes} (grouped : Grouped blocks lines) :
    Grouped blocks (lines.filter fun l => l ≠ []) := by
  obtain ⟨groups, rfl, rfl⟩ := grouped
  refine ⟨groups.map fun group => group.filter fun l => l ≠ [], ?_, List.filter_flatten.symm⟩
  rw [List.map_map]
  exact List.map_congr_left fun group _ => (filterFlatten group).symm

theorem groupedFront {blocks empties lines : List Bytes} (grouped : Grouped (blocks ++ empties) lines)
    (nothing : ∀ block ∈ empties, block = []) : Grouped blocks (lines.filter fun l => l ≠ []) := by
  obtain ⟨groups, eq, rfl⟩ := grouped
  obtain ⟨written, rest, rfl, rfl, rfl⟩ := List.append_eq_map_iff.mp eq
  have gone : rest.flatten.filter (fun l => l ≠ []) = [] := by
    refine List.filter_eq_nil_iff.mpr fun line member => ?_
    obtain ⟨group, inside, there⟩ := List.mem_flatten.mp member
    have empty := nothing group.flatten (List.mem_map_of_mem inside)
    simpa using List.flatten_eq_nil_iff.mp empty line there
  rw [List.flatten_append, List.filter_append, gone, List.append_nil]
  exact groupedFilter ⟨written, rfl, rfl⟩

theorem savedOf {blocks lines written : List Bytes} (grouped : Grouped blocks written)
    (before : lines <+: written) : Saved blocks lines :=
  ⟨_, groupedFilter grouped, before.filter _⟩

theorem savedFront {blocks rest lines : List Bytes} (grouped : Grouped (blocks ++ rest) lines)
    (saved : Saved blocks lines) : ∀ block ∈ rest, block = [] := by
  obtain ⟨written, whole, before⟩ := saved
  have all := congrArg List.length (groupedFlatten grouped)
  have some := congrArg List.length (groupedFlatten whole)
  obtain ⟨more, eq⟩ := before
  have split := congrArg (fun l => l.flatten.length) eq
  simp only [List.flatten_append, List.length_append, filterFlatten] at split all
  have none_ : rest.flatten = [] := List.eq_nil_of_length_eq_zero (by omega)
  exact fun block member => List.flatten_eq_nil_iff.mp none_ block member

theorem appendFields {s t : AsyncLogging size} {logline : Bytes} {garbage : Storage size}
    (ok : s.append logline garbage = some t) :
    t.output = s.output ∧ t.phase = s.phase ∧ t.buffersToWrite = s.buffersToWrite ∧ t.running = s.running := by
  simp only [append, bind, Option.bind_eq_some_iff] at ok
  obtain ⟨current, _, rest⟩ := ok
  split at rest
  · rw [← Option.some.inj rest]
    exact ⟨rfl, rfl, rfl, rfl⟩
  · obtain ⟨other, _, last⟩ := Option.bind_eq_some_iff.mp rest
    rw [← Option.some.inj last]
    exact ⟨rfl, rfl, rfl, rfl⟩

theorem appendPassed {s t : AsyncLogging size} {logline : Bytes} {garbage : Storage size}
    (ok : s.append logline garbage = some t) : passed t = passed s := by
  obtain ⟨output, phase, toWrite, _⟩ := appendFields ok
  simp only [passed, unwritten, output, phase, toWrite]

theorem swapPassed {s : AsyncLogging size} (ahead : swapAhead s) : passed s.swapSection = contents s := by
  have none_ : unwritten s = [] := by
    rcases ahead with h | h <;> simp only [unwritten, h]
  rw [contents, none_, List.nil_append, passed]
  unfold swapSection
  simp only
  split <;> simp [unwritten]

def remaining (s : AsyncLogging size) : Nat :=
  match s.phase with
  | .exited => 0
  | .testing => 1
  | .clearing => 2
  | .recycling2 => 3
  | .recycling1 => 4
  | .shrinking => 5
  | .writing next => 6 + (s.buffersToWrite.length - next)
  | .waiting => 8 + s.buffers.length
  | .locking => 9 + s.buffers.length

theorem swapRemaining (s : AsyncLogging size) : remaining s.swapSection = 7 + s.buffers.length := by
  unfold swapSection
  simp only
  split <;> simp [remaining] <;> omega

theorem settledMove {s t : AsyncLogging size} (stopped : s.running = false) (settled : ¬ swapAhead s)
    (ok : s.threadFunc = some t) :
    passed t = passed s ∧ t.running = false ∧ ¬ swapAhead t ∧ remaining t < remaining s := by
  unfold threadFunc at ok
  split at ok
  · rename_i phase
    rw [if_neg (by simp [stopped])] at ok
    rw [← Option.some.inj ok]
    simp [passed, unwritten, swapAhead, remaining, phase, stopped]
  · rename_i phase
    exact absurd (.inl phase) settled
  · rename_i phase
    exact absurd (.inr phase) settled
  · rename_i next phase
    split at ok <;> try contradiction
    · rename_i b found
      rw [← Option.some.inj ok]
      obtain ⟨below, value⟩ := List.getElem?_eq_some_iff.mp found
      refine ⟨?_, stopped, by simp [swapAhead], ?_⟩
      · simp only [passed, unwritten, phase, List.drop_eq_getElem_cons below, value]
        simp [contentOf]
      · simp only [remaining, phase]
        omega
    · rename_i past
      rw [← Option.some.inj ok]
      have all := List.drop_eq_nil_of_le (List.getElem?_eq_none_iff.mp past)
      refine ⟨?_, stopped, by simp [swapAhead], ?_⟩
      · simp only [passed, unwritten, phase, all]
      · simp only [remaining, phase]
        omega
  · rename_i phase
    split at ok <;> rw [← Option.some.inj ok] <;>
      simp [passed, unwritten, swapAhead, remaining, phase, stopped]
  · rename_i phase
    split at ok
    · simp only [bind, Option.bind_eq_some_iff] at ok
      obtain ⟨taken, _, last⟩ := ok
      rw [← Option.some.inj last]
      simp [passed, unwritten, swapAhead, remaining, phase, stopped]
    · rw [← Option.some.inj ok]
      simp [passed, unwritten, swapAhead, remaining, phase, stopped]
  · rename_i phase
    split at ok
    · simp only [bind, Option.bind_eq_some_iff] at ok
      obtain ⟨taken, _, last⟩ := ok
      rw [← Option.some.inj last]
      simp [passed, unwritten, swapAhead, remaining, phase, stopped]
    · rw [← Option.some.inj ok]
      simp [passed, unwritten, swapAhead, remaining, phase, stopped]
  · rename_i phase
    rw [← Option.some.inj ok]
    simp [passed, unwritten, swapAhead, remaining, phase, stopped]
  · contradiction

theorem swapRunning (s : AsyncLogging size) : s.swapSection.running = s.running := by
  unfold swapSection
  simp only
  split <;> rfl

theorem aheadMove {s t : AsyncLogging size} (ahead : swapAhead s) (ok : s.threadFunc = some t) :
    (swapAhead t ∧ t.running = s.running ∧ remaining t < remaining s) ∨ t = s.swapSection := by
  rcases ahead with phase | phase
  · simp only [threadFunc, phase] at ok
    split at ok
    · rw [← Option.some.inj ok]
      exact .inl ⟨.inr rfl, rfl, by simp [remaining, phase]⟩
    · exact .inr (Option.some.inj ok).symm
  · simp only [threadFunc, phase] at ok
    exact .inr (Option.some.inj ok).symm

theorem stoppedMove {s t : AsyncLogging size} (stopped : s.running = false) (ok : s.threadFunc = some t) :
    t.running = false ∧ remaining t < remaining s := by
  by_cases ahead : swapAhead s
  · rcases aheadMove ahead ok with ⟨_, running, fewer⟩ | rfl
    · exact ⟨running ▸ stopped, fewer⟩
    · refine ⟨swapRunning s ▸ stopped, ?_⟩
      rw [swapRemaining]
      rcases ahead with phase | phase <;> simp only [remaining, phase] <;> omega
  · obtain ⟨_, running, _, fewer⟩ := settledMove stopped ahead ok
    exact ⟨running, fewer⟩

def Calls (s : State size) : Action size → Prop
  | .append logline garbage => Allowed s (.append logline garbage)
  | .backend => Allowed s .backend
  | .stop => False

instance (s : State size) : (a : Action size) → Decidable (Calls s a)
  | .append logline garbage => inferInstanceAs (Decidable (Allowed s (.append logline garbage)))
  | .backend => inferInstanceAs (Decidable (Allowed s .backend))
  | .stop => .isFalse id

theorem callsAllowed {s : State size} {a : Action size} (calls : Calls s a) : Allowed s a := by
  cases a with
  | append logline garbage => exact calls
  | backend => exact calls
  | stop => exact calls.elim

structure Since (s t : State size) : Prop where
  stopped : t.log.running = false
  ahead : swapAhead s.log → s.lines <+: t.lines ∧ (swapAhead t.log ∨ Saved (passed t.log) s.lines)
  behind : ¬ swapAhead s.log → ¬ swapAhead t.log ∧ passed t.log = passed s.log

theorem sinceStop (s : State size) : Since s { s with log := s.log.stop } :=
  ⟨rfl, fun ahead => ⟨List.prefix_rfl, .inl ahead⟩, fun behind => ⟨behind, rfl⟩⟩

theorem sinceStep {s t : State size} {a : Action size} (inv : Inv t ∧ Since s t) (calls : Calls t a) :
    ∃ u, step t a = some u ∧ Inv u ∧ Since s u := by
  obtain ⟨holds, since⟩ := inv
  obtain ⟨u, ok, inv'⟩ := stepInv holds (callsAllowed calls)
  refine ⟨u, ok, inv', ?_⟩
  cases a with
  | append logline garbage =>
    simp only [step, bind, Option.bind_eq_some_iff] at ok
    obtain ⟨log, appended, last⟩ := ok
    rw [← Option.some.inj last]
    obtain ⟨_, phase, _, running⟩ := appendFields appended
    have same := appendPassed appended
    refine ⟨running ▸ since.stopped, fun ahead => ?_, fun behind => ?_⟩
    · obtain ⟨before, rest⟩ := since.ahead ahead
      refine ⟨before.trans (List.prefix_append _ _), ?_⟩
      simpa only [swapAhead, phase, same] using rest
    · simpa only [swapAhead, phase, same] using since.behind behind
  | backend =>
    simp only [step, bind, Option.bind_eq_some_iff] at ok
    obtain ⟨log, moved, last⟩ := ok
    rw [← Option.some.inj last]
    refine ⟨(stoppedMove since.stopped moved).1, fun ahead => ?_, fun behind => ?_⟩
    · obtain ⟨before, rest⟩ := since.ahead ahead
      refine ⟨before, ?_⟩
      by_cases still : swapAhead t.log
      · rcases aheadMove still moved with ⟨again, _⟩ | rfl
        · exact .inl again
        · refine .inr (savedOf ?_ before)
          rw [swapPassed still]
          exact holds.whole
      · have same := (settledMove since.stopped still moved).1
        exact .inr (same ▸ rest.resolve_left still)
    · obtain ⟨settled, same⟩ := since.behind behind
      obtain ⟨same', _, settled', _⟩ := settledMove since.stopped settled moved
      exact ⟨settled', same'.trans same⟩
  | stop => exact calls.elim

theorem backendEnds {t : State size} (inv : Inv t) (stopped : t.log.running = false) :
    ∃ n u, run step t (List.replicate n .backend) = some u ∧ u.log.phase = .exited := by
  induction left : remaining t.log using Nat.strongRecOn generalizing t with
  | ind _ ih =>
    by_cases done : t.log.phase = .exited
    · exact ⟨0, t, rfl, done⟩
    · obtain ⟨next, ok, inv'⟩ := stepInv (a := .backend) inv done
      have ok' := ok
      simp only [step, bind, Option.bind_eq_some_iff] at ok'
      obtain ⟨log, moved, last⟩ := ok'
      rw [← Option.some.inj last] at inv' ok
      obtain ⟨running, fewer⟩ := stoppedMove stopped moved
      obtain ⟨n, u, ran, exited⟩ := ih _ (left ▸ fewer) inv' running rfl
      exact ⟨n + 1, u, runCons.mpr ⟨_, ok, ran⟩, exited⟩

theorem exitedPassed {t : AsyncLogging size} (exited : t.phase = .exited) :
    passed t = t.output.map FixedBuffer.content := by
  simp [passed, unwritten, exited]

theorem savedIff {s t : State size} (inv : Inv s) (since : Since s t) (exited : t.log.phase = .exited) :
    Saved (t.log.output.map FixedBuffer.content) s.lines ↔ InTime s.log := by
  rw [← exitedPassed exited]
  have whole := inv.whole
  rw [contentsSplit] at whole
  have gone : ¬ swapAhead t.log := by simp [swapAhead, exited]
  by_cases ahead : swapAhead s.log
  · exact ⟨fun _ => .inl ahead, fun _ => (since.ahead ahead).2.resolve_left gone⟩
  · rw [(since.behind ahead).2]
    constructor
    · intro saved
      exact .inr (savedFront whole saved)
    · intro inTime
      exact ⟨_, groupedFront whole (inTime.resolve_left ahead), List.prefix_rfl⟩

theorem stopSavesIff {before : List (Action size)} (calls : Along step Calls (start size) before) :
    ∃ s, run step (start size) before = some s ∧
      ∀ after, Along step Calls { s with log := s.log.stop } after →
        ∃ t, run step s (.stop :: after) = some t ∧
          (t.log.phase = .exited →
            (Saved (t.log.output.map FixedBuffer.content) s.lines ↔ InTime s.log)) ∧
          ∃ n u, run step t (List.replicate n .backend) = some u ∧ u.log.phase = .exited := by
  obtain ⟨s, ran, inv⟩ := runProgress (fun inv calls => stepInv inv (callsAllowed calls)) (startInv size) calls
  refine ⟨s, ran, fun after calls' => ?_⟩
  obtain ⟨stopped, ok, inv'⟩ := stepInv (a := .stop) inv trivial
  cases Option.some.inj ok
  obtain ⟨t, ran', inv'', since⟩ := runProgress sinceStep ⟨inv', sinceStop s⟩ calls'
  exact ⟨t, runCons.mpr ⟨_, rfl, ran'⟩, savedIff inv since, backendEnds inv'' since.stopped⟩

def waitingSample : State 4 where
  log := { started 4 with
    currentBuffer := some ((FixedBuffer.make (.zero 4)).bzero.append [97, 98])
    phase := .waiting }
  lines := [[97, 98]]

theorem stopSavesWaiting :
    run step (start 4) [.append [97, 98] (.zero 4), .backend, .backend] = some waitingSample ∧
      ∃ t, run step waitingSample (.stop :: List.replicate 8 .backend) = some t ∧ t.log.phase = .exited ∧
        Saved (t.log.output.map FixedBuffer.content) [[97, 98]] := by
  have built : run step (start 4) [.append [97, 98] (.zero 4), .backend, .backend] = some waitingSample := rfl
  obtain ⟨s, ran, each⟩ := stopSavesIff
    (show Along step Calls (start 4) [.append [97, 98] (.zero 4), .backend, .backend] by decide)
  cases Option.some.inj (built.symm.trans ran)
  obtain ⟨t, ran', saves, _⟩ := each (List.replicate 8 .backend) (by decide)
  have exited : t.log.phase = .exited := by
    have ends : (run step waitingSample (.stop :: List.replicate 8 .backend)).map (fun t => t.log.phase) =
        some .exited := by decide
    rw [ran'] at ends
    exact Option.some.inj ends
  exact ⟨built, t, ran', exited, (saves exited).mpr (.inl (.inr rfl))⟩

theorem stopLosesLine :
    ∃ s t, run step (start kLargeBuffer) [.append [97] (.zero kLargeBuffer)] = some s ∧
      run step s [.stop, .backend] = some t ∧ t.log.phase = .exited ∧
      ¬ Saved (t.log.output.map FixedBuffer.content) s.lines := by
  let current := (FixedBuffer.make (Storage.zero kLargeBuffer)).bzero.append [97]
  refine ⟨⟨{ started kLargeBuffer with currentBuffer := some current }, [[97]]⟩, _, ?_, rfl, rfl, ?_⟩
  · refine runCons.mpr ⟨_, ?_, rfl⟩
    simp only [step, append, start, started, newBuffer, bind, Option.bind]
    rfl
  · rintro ⟨written, ⟨groups, empty, rfl⟩, before⟩
    rw [List.map_eq_nil_iff.mp empty.symm] at before
    exact absurd (List.prefix_nil.mp before) (by decide)

end TinyNetwork.LogStop
