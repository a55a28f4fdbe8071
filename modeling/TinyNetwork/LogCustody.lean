import TinyNetwork.AsyncLogging
import TinyNetwork.Runs

/-! Who has the log lines. The appended lines, in the order in which the lock was
taken, are spread over the buffers passed to the output, those still to be passed,
those handed on by the front end and the current one, each buffer with a block of
whole lines. The buffers that are waiting to be used are empty. -/
namespace TinyNetwork.LogCustody
open Runs AsyncLogging

structure State (size : Nat) where
  log : AsyncLogging size
  lines : List Bytes

/- The critical section of one append call, one move of the back end thread, or
stop(). A new buffer finds arbitrary bytes in its memory. -/
inductive Action (size : Nat) where
  | append (logline : Bytes) (garbage : Storage size)
  | backend
  | stop

variable {size : Nat}

def step (s : State size) : Action size → Option (State size)
  | .append logline garbage => do
      let log ← s.log.append logline garbage
      some ⟨log, s.lines ++ [logline]⟩
  | .backend => do
      let log ← s.log.threadFunc
      some { s with log }
  | .stop => some { s with log := s.log.stop }

/- A line is shorter than a buffer, and the back end moves until it has exited. -/
def Allowed (s : State size) : Action size → Prop
  | .append logline _ => logline.length < size
  | .backend => s.log.phase ≠ .exited
  | .stop => True

instance (s : State size) (a : Action size) : Decidable (Allowed s a) :=
  match a with
  | .append logline _ => inferInstanceAs (Decidable (logline.length < size))
  | .backend => inferInstanceAs (Decidable (s.log.phase ≠ .exited))
  | .stop => inferInstanceAs (Decidable True)

def start (size : Nat) : State size := ⟨started size, []⟩

def contentOf : BufferPtr size → Bytes
  | some b => b.content
  | none => []

def unwritten (s : AsyncLogging size) : List (BufferPtr size) :=
  match s.phase with
  | .writing next => s.buffersToWrite.drop next
  | _ => []

def contents (s : AsyncLogging size) : List Bytes :=
  s.output.map FixedBuffer.content ++
    (unwritten s ++ s.buffers ++ [s.currentBuffer]).map contentOf

def Grouped (blocks lines : List Bytes) : Prop :=
  ∃ groups : List (List Bytes), blocks = groups.map List.flatten ∧ groups.flatten = lines

def Empty (p : BufferPtr size) : Prop := ∀ b, p = some b → b.content = []

structure Custody (s : State size) : Prop where
  order : (contents s.log).flatten = s.lines.flatten
  whole : Grouped (contents s.log) s.lines
  next : Empty s.log.nextBuffer
  new1 : Empty s.log.newBuffer1
  new2 : Empty s.log.newBuffer2

theorem groupedFlatten {blocks lines : List Bytes} (grouped : Grouped blocks lines) :
    blocks.flatten = lines.flatten := by
  obtain ⟨groups, rfl, rfl⟩ := grouped
  rw [List.flatten_flatten]

theorem groupedSnoc {blocks lines : List Bytes} (more : List Bytes) (grouped : Grouped blocks lines) :
    Grouped (blocks ++ [more.flatten]) (lines ++ more) := by
  obtain ⟨groups, rfl, rfl⟩ := grouped
  exact ⟨groups ++ [more], by simp, by simp⟩

theorem groupedLast {front lines : List Bytes} {last : Bytes} (grouped : Grouped (front ++ [last]) lines)
    (line : Bytes) : Grouped (front ++ [last ++ line]) (lines ++ [line]) := by
  obtain ⟨groups, eq, rfl⟩ := grouped
  obtain ⟨init, tail, rfl, rfl, single⟩ := List.append_eq_map_iff.mp eq
  obtain ⟨group, rfl, rfl⟩ := List.map_eq_singleton_iff.mp single
  exact ⟨init ++ [group ++ [line]], by simp, by simp⟩

def needed (s : AsyncLogging size) : Nat := if s.newBuffer2.isNone then 2 else 1

def Stage (s : AsyncLogging size) : Prop :=
  match s.phase with
  | .testing | .locking | .waiting | .exited =>
      s.newBuffer1.isSome ∧ s.newBuffer2.isSome ∧ s.buffersToWrite = []
  | .writing next => next ≤ s.buffersToWrite.length ∧ s.newBuffer1.isNone ∧ needed s ≤ s.buffersToWrite.length
  | .shrinking | .recycling1 => s.newBuffer1.isNone ∧ needed s ≤ s.buffersToWrite.length
  | .recycling2 => s.newBuffer1.isSome ∧ (s.newBuffer2.isNone → s.buffersToWrite ≠ [])
  | .clearing => s.newBuffer1.isSome ∧ s.newBuffer2.isSome

structure Inv (s : State size) : Prop where
  current : s.log.currentBuffer.isSome
  handed : ∀ p ∈ s.log.buffers, p.isSome
  toWrite : ∀ p ∈ s.log.buffersToWrite, p.isSome
  spare : s.log.nextBuffer.isNone → s.log.buffers ≠ []
  next : Empty s.log.nextBuffer
  new1 : Empty s.log.newBuffer1
  new2 : Empty s.log.newBuffer2
  whole : Grouped (contents s.log) s.lines
  stage : Stage s.log

theorem newBufferEmpty (size : Nat) : Empty (newBuffer size) := by
  intro b eq
  cases Option.some.inj eq
  exact Windows.windowEmpty _ _

theorem startInv (size : Nat) : Inv (start size) := by
  refine ⟨rfl, nofun, nofun, nofun, newBufferEmpty size, newBufferEmpty size, newBufferEmpty size, ?_,
    ⟨rfl, rfl, rfl⟩⟩
  refine ⟨[[]], ?_, rfl⟩
  have empty := newBufferEmpty size _ rfl
  simpa [contents, start, started, unwritten, contentOf, newBuffer] using empty

theorem replacement {s : State size} (inv : Inv s) (garbage : Storage size) :
    ∃ b, (s.log.replaceCurrent garbage).currentBuffer = some b ∧ b.content = [] := by
  cases spare : s.log.nextBuffer with
  | none => exact ⟨FixedBuffer.make garbage, by simp [replaceCurrent, spare], FixedBuffer.makeContent _⟩
  | some b => exact ⟨b, by simp [replaceCurrent, spare], inv.next b spare⟩

theorem replaceInv {s : State size} (inv : Inv s) (garbage : Storage size) {b : FixedBuffer size}
    {more : List Bytes} (content : b.content = more.flatten) :
    Inv ⟨{ s.log.replaceCurrent garbage with currentBuffer := some b }, s.lines ++ more⟩ := by
  refine ⟨rfl, ?_, inv.toWrite, ?_, nofun, inv.new1, inv.new2, ?_, inv.stage⟩
  · intro p member
    rcases List.mem_append.mp member with old | new
    · exact inv.handed p old
    · rw [List.mem_singleton.mp new]
      exact inv.current
  · simp [replaceCurrent]
  · have blocks := groupedSnoc more inv.whole
    rw [← content] at blocks
    simpa [contents, unwritten, replaceCurrent, contentOf] using blocks

theorem appendInv {s : State size} (inv : Inv s) {logline : Bytes} (short : logline.length < size)
    (garbage : Storage size) :
    ∃ log, s.log.append logline garbage = some log ∧ Inv ⟨log, s.lines ++ [logline]⟩ := by
  obtain ⟨current, present⟩ := Option.isSome_iff_exists.mp inv.current
  have whole := inv.whole
  by_cases room : logline.length < current.avail
  · refine ⟨{ s.log with currentBuffer := some (current.append logline) }, ?_, ?_⟩
    · simp only [append, present, bind, Option.bind, if_pos room]
    · refine ⟨rfl, inv.handed, inv.toWrite, inv.spare, inv.next, inv.new1, inv.new2, ?_, inv.stage⟩
      simp only [contents, present, List.map_append, List.map_singleton, contentOf, ← List.append_assoc]
        at whole
      have longer := groupedLast whole logline
      rw [← FixedBuffer.appendContent room] at longer
      simpa [contents, unwritten, contentOf] using longer
  · obtain ⟨b, taken, empty⟩ := replacement inv garbage
    have avail := FixedBuffer.emptyAvail empty
    have content : (b.append logline).content = [logline].flatten := by
      rw [FixedBuffer.appendContent (by omega), empty, List.nil_append, List.flatten_singleton]
    refine ⟨{ s.log.replaceCurrent garbage with currentBuffer := some (b.append logline) }, ?_, ?_⟩
    · simp only [append, present, bind, Option.bind, if_neg room, taken]
    · exact replaceInv inv garbage content

theorem swapInv {s : State size} (inv : Inv s) (phase : s.log.phase = .locking ∨ s.log.phase = .waiting) :
    Inv { s with log := s.log.swapSection } := by
  have stage : s.log.newBuffer1.isSome ∧ s.log.newBuffer2.isSome ∧ s.log.buffersToWrite = [] := by
    have stage := inv.stage
    rcases phase with h | h <;> simpa only [Stage, h] using stage
  have none_ : unwritten s.log = [] := by
    rcases phase with h | h <;> simp only [unwritten, h]
  obtain ⟨new1, new2, nothing⟩ := stage
  obtain ⟨b, fresh⟩ := Option.isSome_iff_exists.mp new1
  have all : ∀ p ∈ s.log.buffers ++ [s.log.currentBuffer], p.isSome := by
    intro p member
    rcases List.mem_append.mp member with old | new
    · exact inv.handed p old
    · rw [List.mem_singleton.mp new]
      exact inv.current
  have whole : Grouped (contents s.log ++ [[]]) s.lines := by
    have more := groupedSnoc [] inv.whole
    rwa [List.append_nil] at more
  have content := inv.new1 b fresh
  have before : contents s.log = s.log.output.map FixedBuffer.content ++
      (s.log.buffers ++ [s.log.currentBuffer]).map contentOf := by
    rw [contents, none_, List.nil_append]
  rw [before] at whole
  cases spare : s.log.nextBuffer with
  | none =>
    have swapped : s.log.swapSection =
        { s.log with
          currentBuffer := some b
          nextBuffer := s.log.newBuffer2
          buffers := []
          phase := .writing 0
          newBuffer1 := none
          newBuffer2 := none
          buffersToWrite := s.log.buffers ++ [s.log.currentBuffer] } := by
      simp [swapSection, spare, fresh, nothing]
    rw [swapped]
    refine ⟨rfl, nofun, all, ?_, inv.new2, nofun, nofun, ?_, ⟨Nat.zero_le _, rfl, ?_⟩⟩
    · intro absent
      rw [show s.log.newBuffer2 = none from Option.isNone_iff_eq_none.mp absent] at new2
      contradiction
    · simpa [contents, unwritten, contentOf, content] using whole
    · have length := List.length_pos_iff.mpr (inv.spare (by rw [spare]; rfl))
      simp only [needed, Option.isNone_none, if_true, List.length_append, List.length_singleton]
      omega
  | some next =>
    have swapped : s.log.swapSection =
        { s.log with
          currentBuffer := some b
          buffers := []
          phase := .writing 0
          newBuffer1 := none
          buffersToWrite := s.log.buffers ++ [s.log.currentBuffer] } := by
      simp [swapSection, spare, fresh, nothing]
    rw [swapped]
    refine ⟨rfl, nofun, all, by simp [spare], inv.next, nofun, inv.new2, ?_, ⟨Nat.zero_le _, rfl, ?_⟩⟩
    · simpa [contents, unwritten, contentOf, content] using whole
    · obtain ⟨kept, two⟩ := Option.isSome_iff_exists.mp new2
      simp [needed, two]

theorem takeBackSome {buffers : List (BufferPtr size)} (nonempty : buffers ≠ [])
    (solid : ∀ p ∈ buffers, p.isSome) :
    ∃ b, takeBack buffers = some (some b, buffers.dropLast) ∧ b.content = [] := by
  have last := List.getLast?_eq_some_getLast nonempty
  obtain ⟨b, found⟩ := Option.isSome_iff_exists.mp (solid _ (List.getLast_mem nonempty))
  exact ⟨b.reset, by rw [takeBack, last, found], FixedBuffer.resetContent b⟩

theorem writeInv {s : State size} (inv : Inv s) {next : Nat} (phase : s.log.phase = .writing next) :
    ∃ log, s.log.threadFunc = some log ∧ Inv { s with log } := by
  have stage := inv.stage
  have whole := inv.whole
  simp only [Stage, phase] at stage
  simp only [contents, unwritten, phase] at whole
  obtain ⟨inside, new1, enough⟩ := stage
  by_cases more : next < s.log.buffersToWrite.length
  · have found := List.getElem?_eq_getElem more
    obtain ⟨b, present⟩ := Option.isSome_iff_exists.mp (inv.toWrite _ (List.getElem_mem more))
    rw [present] at found
    refine ⟨{ s.log with output := s.log.output ++ [b], phase := .writing (next + 1) }, ?_, ?_⟩
    · simp only [threadFunc, phase, found]
    · refine ⟨inv.current, inv.handed, inv.toWrite, inv.spare, inv.next, inv.new1, inv.new2, ?_,
        ⟨more, new1, enough⟩⟩
      rw [List.drop_eq_getElem_cons more, present] at whole
      simpa [contents, unwritten, contentOf] using whole
  · have all : s.log.buffersToWrite.drop next = [] := List.drop_eq_nil_of_le (by omega)
    refine ⟨{ s.log with phase := .shrinking }, ?_, ?_⟩
    · simp only [threadFunc, phase, List.getElem?_eq_none (by omega : s.log.buffersToWrite.length ≤ next)]
    · refine ⟨inv.current, inv.handed, inv.toWrite, inv.spare, inv.next, inv.new1, inv.new2, ?_,
        ⟨new1, enough⟩⟩
      rw [all] at whole
      simpa [contents, unwritten] using whole

theorem quietInv {s : State size} (inv : Inv s) {t : AsyncLogging size} (left : unwritten s.log = [])
    (right : unwritten t = [])
    (front : t.output = s.log.output ∧ t.buffers = s.log.buffers ∧
      t.currentBuffer = s.log.currentBuffer ∧ t.nextBuffer = s.log.nextBuffer)
    (toWrite : ∀ p ∈ t.buffersToWrite, p ∈ s.log.buffersToWrite) (new1 : Empty t.newBuffer1)
    (new2 : Empty t.newBuffer2) (stage : Stage t) : Inv { s with log := t } := by
  obtain ⟨output, buffers, current, next⟩ := front
  have same : contents t = contents s.log := by
    rw [contents, contents, left, right, output, buffers, current]
  exact ⟨current ▸ inv.current, buffers ▸ inv.handed, fun p member => inv.toWrite p (toWrite p member),
    by rw [next, buffers]; exact inv.spare, next ▸ inv.next, new1, new2, same ▸ inv.whole, stage⟩

theorem shrinkInv {s : State size} (inv : Inv s) (phase : s.log.phase = .shrinking) :
    ∃ log, s.log.threadFunc = some log ∧ Inv { s with log } := by
  have stage := inv.stage
  simp only [Stage, phase] at stage
  have none_ : unwritten s.log = [] := by simp only [unwritten, phase]
  by_cases long : 2 < s.log.buffersToWrite.length
  · refine ⟨{ s.log with buffersToWrite := s.log.buffersToWrite.take 2, phase := .recycling1 },
      by simp only [threadFunc, phase, if_pos long], quietInv inv none_ rfl ⟨rfl, rfl, rfl, rfl⟩
        (fun p member => List.mem_of_mem_take member) inv.new1 inv.new2 ⟨stage.1, ?_⟩⟩
    have most : needed s.log ≤ 2 := by unfold needed; split <;> omega
    rw [List.length_take]
    exact Nat.le_min.mpr ⟨most, stage.2⟩
  · exact ⟨{ s.log with phase := .recycling1 }, by simp only [threadFunc, phase, if_neg long],
      quietInv inv none_ rfl ⟨rfl, rfl, rfl, rfl⟩ (fun _ member => member) inv.new1 inv.new2 stage⟩

theorem recycle1Inv {s : State size} (inv : Inv s) (phase : s.log.phase = .recycling1) :
    ∃ log, s.log.threadFunc = some log ∧ Inv { s with log } := by
  have stage := inv.stage
  simp only [Stage, phase] at stage
  obtain ⟨new1, enough⟩ := stage
  have none_ : unwritten s.log = [] := by simp only [unwritten, phase]
  have nonempty : s.log.buffersToWrite ≠ [] := by
    rintro nothing
    rw [nothing, needed] at enough
    split at enough <;> simp at enough
  obtain ⟨b, taken, empty⟩ := takeBackSome nonempty inv.toWrite
  let toWrite := s.log.buffersToWrite.dropLast
  refine ⟨{ s.log with newBuffer1 := some b, buffersToWrite := toWrite, phase := .recycling2 },
    by simp only [threadFunc, phase, new1, if_true, taken, bind, Option.bind]; rfl,
    quietInv inv none_ rfl ⟨rfl, rfl, rfl, rfl⟩ (fun p member => (List.dropLast_sublist _).subset member) ?_
      inv.new2 ⟨rfl, ?_⟩⟩
  · intro c eq
    cases Option.some.inj eq
    exact empty
  · intro absent nothing
    have two : needed s.log = 2 := if_pos absent
    have length := congrArg List.length nothing
    rw [List.length_dropLast, List.length_nil] at length
    omega

theorem recycle2Inv {s : State size} (inv : Inv s) (phase : s.log.phase = .recycling2) :
    ∃ log, s.log.threadFunc = some log ∧ Inv { s with log } := by
  have stage := inv.stage
  simp only [Stage, phase] at stage
  obtain ⟨new1, rest⟩ := stage
  have none_ : unwritten s.log = [] := by simp only [unwritten, phase]
  by_cases absent : s.log.newBuffer2.isNone
  · obtain ⟨b, taken, empty⟩ := takeBackSome (rest absent) inv.toWrite
    let toWrite := s.log.buffersToWrite.dropLast
    refine ⟨{ s.log with newBuffer2 := some b, buffersToWrite := toWrite, phase := .clearing },
      by simp only [threadFunc, phase, absent, if_true, taken, bind, Option.bind]; rfl,
      quietInv inv none_ rfl ⟨rfl, rfl, rfl, rfl⟩ (fun p member => (List.dropLast_sublist _).subset member)
        inv.new1 ?_ ⟨new1, rfl⟩⟩
    intro c eq
    cases Option.some.inj eq
    exact empty
  · have present : s.log.newBuffer2.isSome :=
      Option.isSome_iff_ne_none.mpr (fun eq => absent (Option.isNone_iff_eq_none.mpr eq))
    exact ⟨{ s.log with phase := .clearing }, by simp only [threadFunc, phase, if_neg absent],
      quietInv inv none_ rfl ⟨rfl, rfl, rfl, rfl⟩ (fun _ member => member) inv.new1 inv.new2
        ⟨new1, present⟩⟩

theorem clearInv {s : State size} (inv : Inv s) (phase : s.log.phase = .clearing) :
    ∃ log, s.log.threadFunc = some log ∧ Inv { s with log } := by
  have stage := inv.stage
  simp only [Stage, phase] at stage
  have none_ : unwritten s.log = [] := by simp only [unwritten, phase]
  exact ⟨{ s.log with buffersToWrite := [], phase := .testing }, by simp only [threadFunc, phase],
    quietInv inv none_ rfl ⟨rfl, rfl, rfl, rfl⟩ nofun inv.new1 inv.new2 ⟨stage.1, stage.2, rfl⟩⟩

theorem testInv {s : State size} (inv : Inv s) (phase : s.log.phase = .testing) :
    ∃ log, s.log.threadFunc = some log ∧ Inv { s with log } := by
  have stage := inv.stage
  simp only [Stage, phase] at stage
  have none_ : unwritten s.log = [] := by simp only [unwritten, phase]
  by_cases running : s.log.running = true
  · exact ⟨{ s.log with phase := .locking }, by simp only [threadFunc, phase, if_pos running],
      quietInv inv none_ rfl ⟨rfl, rfl, rfl, rfl⟩ (fun _ member => member) inv.new1 inv.new2 stage⟩
  · exact ⟨{ s.log with phase := .exited }, by simp only [threadFunc, phase, if_neg running],
      quietInv inv none_ rfl ⟨rfl, rfl, rfl, rfl⟩ (fun _ member => member) inv.new1 inv.new2 stage⟩

theorem lockInv {s : State size} (inv : Inv s) (phase : s.log.phase = .locking) :
    ∃ log, s.log.threadFunc = some log ∧ Inv { s with log } := by
  have stage := inv.stage
  simp only [Stage, phase] at stage
  have none_ : unwritten s.log = [] := by simp only [unwritten, phase]
  by_cases quiet : s.log.buffers.isEmpty = true
  · exact ⟨{ s.log with phase := .waiting }, by simp only [threadFunc, phase, if_pos quiet],
      quietInv inv none_ rfl ⟨rfl, rfl, rfl, rfl⟩ (fun _ member => member) inv.new1 inv.new2 stage⟩
  · exact ⟨_, by simp only [threadFunc, phase, if_neg quiet], swapInv inv (.inl phase)⟩

theorem stepInv {s : State size} {a : Action size} (inv : Inv s) (allowed : Allowed s a) :
    ∃ t, step s a = some t ∧ Inv t := by
  cases a with
  | append logline garbage =>
    obtain ⟨log, done, next⟩ := appendInv inv allowed garbage
    exact ⟨_, by simp only [step, done, bind, Option.bind], next⟩
  | stop =>
    exact ⟨_, rfl, ⟨inv.current, inv.handed, inv.toWrite, inv.spare, inv.next, inv.new1, inv.new2,
      inv.whole, inv.stage⟩⟩
  | backend =>
    have moved : ∃ log, s.log.threadFunc = some log ∧ Inv { s with log } := by
      cases phase : s.log.phase with
      | testing => exact testInv inv phase
      | locking => exact lockInv inv phase
      | waiting => exact ⟨_, by simp only [threadFunc, phase], swapInv inv (.inr phase)⟩
      | writing next => exact writeInv inv phase
      | shrinking => exact shrinkInv inv phase
      | recycling1 => exact recycle1Inv inv phase
      | recycling2 => exact recycle2Inv inv phase
      | clearing => exact clearInv inv phase
      | exited => exact absurd phase allowed
    obtain ⟨log, done, next⟩ := moved
    exact ⟨_, by simp only [step, done, bind, Option.bind], next⟩

theorem linesKept {actions : List (Action size)} (allowed : Along step Allowed (start size) actions) :
    ∃ s, run step (start size) actions = some s ∧ Custody s := by
  obtain ⟨s, ok, inv⟩ := runProgress stepInv (startInv size) allowed
  exact ⟨s, ok, ⟨groupedFlatten inv.whole, inv.whole, inv.next, inv.new1, inv.new2⟩⟩

def sampleActions : List (Action 4) :=
  [.append [97, 98] (.zero 4), .append [99, 100] (.zero 4), .backend, .backend, .append [101] (.zero 4),
    .backend, .backend, .backend, .backend, .stop]

theorem linesKeptSample :
    ∃ s, run step (start 4) sampleActions = some s ∧ Custody s :=
  linesKept (by decide)

end TinyNetwork.LogCustody
