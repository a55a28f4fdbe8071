import TinyNetwork.LogRolling
import TinyNetwork.LogStop

/-! The asynchronous logger with the files it writes. The back end hands every buffer to
the LogFile whole, with all the bytes of its array; between two rounds everything it
handed over is flushed. No line is cut by the end of a buffer or of a file. -/
namespace TinyNetwork.LogPipeline
open Runs AsyncLogging LogCustody LogStop LogRolling

variable {size : Nat}

inductive Duty (size : Nat) where
  | nothing
  | append (buffer : FixedBuffer size)
  | flush

def duty (s : AsyncLogging size) : Duty size :=
  match s.phase with
  | .writing next =>
      match s.buffersToWrite[next]? with
      | some (some b) => .append b
      | _ => .nothing
  | .clearing => .flush
  | .testing => if s.running then .nothing else .flush
  | _ => .nothing

/- buffer->data() and buffer->length(): the whole array. -/
def written (b : FixedBuffer size) : Bytes := b.data.bytes.take b.length

def Duty.perform (libc : Libc) (disk : LogFile) (check roll : Int) : Duty size → Option LogFile
  | .nothing => some disk
  | .append b => disk.append libc ⟨written b, check, roll⟩
  | .flush => disk.flush

def swaps (s : AsyncLogging size) : Bool :=
  match s.phase with
  | .locking => !s.buffers.isEmpty
  | .waiting => true
  | _ => false

/- `swapped` counts the lines that were there at the last swap. -/
structure State (size : Nat) where
  custody : LogCustody.State size
  disk : LogFile
  swapped : Nat

inductive Action (size : Nat) where
  | append (logline : Bytes) (garbage : Storage size)
  | backend (check roll : Int)
  | stop

def step (libc : Libc) (s : State size) : Action size → Option (State size)
  | .append logline garbage => do
      let custody ← LogCustody.step s.custody (.append logline garbage)
      some { s with custody }
  | .backend check roll => do
      let custody ← LogCustody.step s.custody .backend
      let disk ← (duty s.custody.log).perform libc s.disk check roll
      some ⟨custody, disk, if swaps s.custody.log then s.custody.lines.length else s.swapped⟩
  | .stop => do
      let custody ← LogCustody.step s.custody .stop
      some { s with custody }

/- LogFile output(basename_, rollSize_, false), with the default of checkEveryN. -/
def start (libc : Libc) (size : Nat) (basename : Bytes) (rollSize now : Int) : State size :=
  ⟨LogCustody.start size, LogFile.make libc basename rollSize 0 1024 now, 0⟩

/- A line is shorter than a buffer, the clock is past the epoch, and the back end moves
until it has exited. -/
def Allowed (s : State size) : Action size → Prop
  | .append logline _ => logline.length < size
  | .backend _ roll => s.custody.log.phase ≠ .exited ∧ 0 < roll
  | .stop => True

instance (s : State size) (a : Action size) : Decidable (Allowed s a) := by
  cases a <;> unfold Allowed <;> infer_instance

structure Stored (rollSize : Int) (blocks : List Bytes) (l : LogFile) : Prop where
  kept : Kept rollSize 1024 blocks.flatten l
  grouped : Grouped (l.files.map FileUtil.content) blocks
  closed : ∀ file ∈ l.closed, file.flushed = file.content.length

variable {libc : Libc} {rollSize : Int} {blocks : List Bytes} {l t : LogFile}

theorem storedMake {now : Int} (positive : 0 < now) (basename : Bytes) (rollSize : Int) :
    Stored rollSize [] (LogFile.make libc basename rollSize 0 1024 now) := by
  refine ⟨makeKept positive basename rollSize 0 (by decide), ⟨[[]], ?_, rfl⟩, ?_⟩
  · simp [LogFile.make, LogFile.rollFile, positive, LogFile.files]
  · simp [LogFile.make, LogFile.rollFile, positive]

theorem storedAppend (accepts : Accepts libc) (stored : Stored rollSize blocks l) {call : LogFile.Call}
    (positive : 0 < call.roll) :
    ∃ t, l.append libc call = some t ∧ Stored rollSize (blocks ++ [call.data]) t := by
  obtain ⟨t, done, kept⟩ := appendKept accepts stored.kept positive
  obtain ⟨file, opened⟩ := Option.ne_none_iff_exists'.mp stored.kept.opened
  obtain ⟨u, same, appended⟩ := appendCases opened (appendGrown accepts file call.data)
  cases Option.some.inj (done.symm.trans same)
  have before := stored.grouped
  rw [filesOpen opened, List.map_append, List.map_singleton] at before
  -- the block ends up behind what was in the open file
  have longer := groupedLast before call.data
  refine ⟨t, done, by simpa using kept, ?_, ?_⟩
  · cases appended with
    | rolled rolled =>
      have empty := groupedSnoc [] longer
      rw [List.append_nil] at empty
      rw [filesOpen rolled.file, rolled.closed]
      simpa [grown, FileUtil.flush] using empty
    | stayed stayed =>
      rcases stayed.file with same | flushed
      · rw [filesOpen same, stayed.closed]
        simpa [grown] using longer
      · rw [filesOpen flushed, stayed.closed]
        simpa [grown, FileUtil.flush] using longer
  · cases appended with
    | rolled rolled =>
      rw [rolled.closed]
      exact List.forall_mem_append.mpr ⟨stored.closed, List.forall_mem_singleton.mpr rfl⟩
    | stayed stayed => exact stayed.closed ▸ stored.closed

theorem storedFlush (stored : Stored rollSize blocks l) :
    ∃ t, l.flush = some t ∧ Stored rollSize blocks t ∧ ∀ file ∈ t.files, file.flushed = file.content.length := by
  obtain ⟨file, opened⟩ := Option.ne_none_iff_exists'.mp stored.kept.opened
  refine ⟨{ l with file := some file.flush }, by simp only [LogFile.flush, opened, bind, Option.bind], ?_, ?_⟩
  · obtain ⟨config, _, whole, period, count, order, newest⟩ := stored.kept
    have grouped := stored.grouped
    rw [filesOpen opened] at whole order newest grouped
    refine ⟨⟨config, by simp, ?_, period, count, ?_, ?_⟩, ?_, stored.closed⟩
    · simpa [LogFile.files, FileUtil.flush] using whole
    · simpa [LogFile.files, FileUtil.flush] using order
    · simpa [LogFile.files, FileUtil.flush, or_imp, forall_and] using newest
    · simpa [LogFile.files, FileUtil.flush] using grouped
  · simp only [LogFile.files]
    exact List.forall_mem_append.mpr ⟨stored.closed, List.forall_mem_singleton.mpr rfl⟩

def rested (s : AsyncLogging size) : Bool :=
  match s.phase with
  | .testing | .locking | .waiting | .exited => true
  | _ => false

structure Still (s t : AsyncLogging size) : Prop where
  output : t.output = s.output
  passed : passed t = passed s

inductive Moved (s t : AsyncLogging size) : Prop where
  | swapped (swap : swaps s = true) (duty : duty s = .nothing) (ahead : swapAhead s) (same : t = s.swapSection)
  | wrote (swap : swaps s = false) (b : FixedBuffer size) (duty : duty s = .append b)
      (output : t.output = s.output ++ [b]) (passed : passed t = passed s) (busy : rested t = false)
  | flushed (swap : swaps s = false) (duty : duty s = .flush) (still : Still s t)
  | still (swap : swaps s = false) (duty : duty s = .nothing) (still : Still s t)
      (rest : rested t = true → rested s = true)

theorem backendMoved {s t : AsyncLogging size} (ok : s.threadFunc = some t) : Moved s t := by
  cases phase : s.phase with
  | testing =>
    simp only [threadFunc, phase] at ok
    split at ok <;> rename_i running <;> cases Option.some.inj ok
    · exact .still (by simp [swaps, phase]) (by simp [duty, phase, running])
        ⟨rfl, by simp [passed, unwritten, phase]⟩ fun _ => by simp [rested, phase]
    · exact .flushed (by simp [swaps, phase]) (by simp [duty, phase, running])
        ⟨rfl, by simp [passed, unwritten, phase]⟩
  | locking =>
    simp only [threadFunc, phase] at ok
    split at ok <;> rename_i empty <;> cases Option.some.inj ok
    · exact .still (by simp [swaps, phase, empty]) (by simp [duty, phase])
        ⟨rfl, by simp [passed, unwritten, phase]⟩ fun _ => by simp [rested, phase]
    · exact .swapped (by simp [swaps, phase, empty]) (by simp [duty, phase]) (.inl phase) rfl
  | waiting =>
    simp only [threadFunc, phase] at ok
    cases Option.some.inj ok
    exact .swapped (by simp [swaps, phase]) (by simp [duty, phase]) (.inr phase) rfl
  | writing next =>
    simp only [threadFunc, phase] at ok
    split at ok <;> try contradiction
    · rename_i b found
      cases Option.some.inj ok
      obtain ⟨below, value⟩ := List.getElem?_eq_some_iff.mp found
      refine .wrote (by simp [swaps, phase]) b (by simp [duty, phase, found]) rfl ?_ rfl
      simp only [passed, unwritten, phase, List.drop_eq_getElem_cons below, value]
      simp [contentOf]
    · rename_i past
      cases Option.some.inj ok
      have all := List.drop_eq_nil_of_le (List.getElem?_eq_none_iff.mp past)
      exact .still (by simp [swaps, phase]) (by simp [duty, phase, past])
        ⟨rfl, by simp only [passed, unwritten, phase, all]⟩ fun rest => by simp [rested] at rest
  | shrinking =>
    simp only [threadFunc, phase] at ok
    split at ok <;> cases Option.some.inj ok <;>
      exact .still (by simp [swaps, phase]) (by simp [duty, phase]) ⟨rfl, by simp [passed, unwritten, phase]⟩
        fun rest => by simp [rested] at rest
  | recycling1 | recycling2 =>
    simp only [threadFunc, phase] at ok
    split at ok
    · obtain ⟨taken, _, last⟩ := Option.bind_eq_some_iff.mp ok
      cases Option.some.inj last
      exact .still (by simp [swaps, phase]) (by simp [duty, phase]) ⟨rfl, by simp [passed, unwritten, phase]⟩
        fun rest => by simp [rested] at rest
    · cases Option.some.inj ok
      exact .still (by simp [swaps, phase]) (by simp [duty, phase]) ⟨rfl, by simp [passed, unwritten, phase]⟩
        fun rest => by simp [rested] at rest
  | clearing =>
    simp only [threadFunc, phase] at ok
    cases Option.some.inj ok
    exact .flushed (by simp [swaps, phase]) (by simp [duty, phase]) ⟨rfl, by simp [passed, unwritten, phase]⟩
  | exited => simp [threadFunc, phase] at ok

def arrays (s : AsyncLogging size) : List Bytes := s.output.map written

structure Inv (rollSize : Int) (s : State size) : Prop where
  custody : LogCustody.Inv s.custody
  stored : Stored rollSize (arrays s.custody.log) s.disk
  within : s.swapped ≤ s.custody.lines.length
  round : Grouped (passed s.custody.log) (s.custody.lines.take s.swapped)
  flushed : rested s.custody.log = true → ∀ file ∈ s.disk.files, file.flushed = file.content.length

theorem startInv {now : Int} (positive : 0 < now) (basename : Bytes) (rollSize : Int) :
    Inv rollSize (start libc size basename rollSize now) := by
  refine ⟨LogCustody.startInv size, storedMake positive basename rollSize, Nat.zero_le _, ⟨[], rfl, rfl⟩, fun _ => ?_⟩
  simp [start, LogFile.make, LogFile.rollFile, positive, LogFile.files]

theorem swapArrays (s : AsyncLogging size) : arrays s.swapSection = arrays s ∧ rested s.swapSection = false := by
  unfold swapSection
  simp only
  split <;> exact ⟨rfl, rfl⟩

theorem backendInv (accepts : Accepts libc) {s : State size} (inv : Inv rollSize s)
    (running : s.custody.log.phase ≠ .exited) {check roll : Int} (positive : 0 < roll) :
    ∃ t, step libc s (.backend check roll) = some t ∧ Inv rollSize t := by
  obtain ⟨custody, moved, next⟩ := LogCustody.stepInv (a := .backend) inv.custody running
  obtain ⟨log, done, last⟩ := Option.bind_eq_some_iff.mp moved
  cases Option.some.inj last
  simp only [step, moved, bind, Option.bind_some]
  cases backendMoved done with
  | swapped swap duty ahead same =>
    obtain ⟨output, busy⟩ := swapArrays s.custody.log
    rw [← same] at output busy
    simp only [duty, Duty.perform, Option.bind_some, if_pos swap]
    refine ⟨_, rfl, next, by rw [output]; exact inv.stored, Nat.le_refl _, ?_, ?_⟩
    · rw [List.take_length, same, swapPassed ahead]
      exact inv.custody.whole
    · exact fun rest => absurd (busy.symm.trans rest) (by simp)
  | wrote swap b duty output passed busy =>
    obtain ⟨disk, appended, stored⟩ := storedAppend accepts inv.stored
      (show 0 < (⟨written b, check, roll⟩ : LogFile.Call).roll from positive)
    simp only [duty, Duty.perform, appended, Option.bind_some, swap, Bool.false_eq_true, if_false]
    refine ⟨_, rfl, next, ?_, inv.within, passed ▸ inv.round, ?_⟩
    · rw [arrays, output, List.map_append]
      exact stored
    · exact fun rest => absurd (busy.symm.trans rest) (by simp)
  | flushed swap duty still =>
    obtain ⟨disk, flushed, stored, all⟩ := storedFlush inv.stored
    simp only [duty, Duty.perform, flushed, Option.bind_some, swap, Bool.false_eq_true, if_false]
    refine ⟨_, rfl, next, ?_, inv.within, still.passed ▸ inv.round, fun _ => all⟩
    rw [arrays, still.output]
    exact stored
  | still swap duty still rest =>
    simp only [duty, Duty.perform, Option.bind_some, swap, Bool.false_eq_true, if_false]
    refine ⟨_, rfl, next, ?_, inv.within, still.passed ▸ inv.round, fun now => inv.flushed (rest now)⟩
    rw [arrays, still.output]
    exact inv.stored

theorem stepInv (accepts : Accepts libc) {s : State size} {a : Action size} (inv : Inv rollSize s)
    (allowed : Allowed s a) : ∃ t, step libc s a = some t ∧ Inv rollSize t := by
  cases a with
  | append logline garbage =>
    obtain ⟨custody, moved, next⟩ := LogCustody.stepInv (a := .append logline garbage) inv.custody allowed
    obtain ⟨log, done, last⟩ := Option.bind_eq_some_iff.mp moved
    cases Option.some.inj last
    obtain ⟨output, phase, _⟩ := appendFields done
    simp only [step, moved, bind, Option.bind_some]
    refine ⟨_, rfl, next, ?_, ?_, ?_, ?_⟩
    · rw [arrays, output]
      exact inv.stored
    · exact Nat.le_trans inv.within (by simp)
    · rw [appendPassed done, List.take_append_of_le_length inv.within]
      exact inv.round
    · rw [rested, phase]
      exact inv.flushed
  | backend check roll => exact backendInv accepts inv allowed.1 allowed.2
  | stop =>
    obtain ⟨custody, moved, next⟩ := LogCustody.stepInv (a := .stop) inv.custody trivial
    cases Option.some.inj moved
    exact ⟨_, rfl, next, inv.stored, inv.within, inv.round, inv.flushed⟩

/- Every file is a row of whole arrays, every array starts with its block of whole
lines; and once a round is over, the lines from before its swap are on disk. -/
structure OnDisk (s : State size) : Prop where
  files : Grouped (s.disk.files.map FileUtil.content) (s.custody.log.output.map fun b => b.data.bytes)
  blocks : Grouped (contents s.custody.log) s.custody.lines
  round : rested s.custody.log = true →
    Grouped (s.custody.log.output.map FixedBuffer.content) (s.custody.lines.take s.swapped)
  whole : rested s.custody.log = true → ∀ line ∈ s.custody.lines.take s.swapped,
    ∃ file ∈ s.disk.files, file.flushed = file.content.length ∧ line <:+: file.content

theorem writtenWhole (b : FixedBuffer size) : written b = b.data.bytes :=
  List.take_of_length_le (Nat.le_of_eq b.data.sized)

theorem groupedInfix {whole parts : List Bytes} (grouped : Grouped whole parts) {part : Bytes} (member : part ∈ parts) :
    ∃ block ∈ whole, part <:+: block := by
  obtain ⟨groups, rfl, rfl⟩ := grouped
  obtain ⟨group, inside, here⟩ := List.mem_flatten.mp member
  exact ⟨group.flatten, List.mem_map_of_mem inside, List.infix_of_mem_flatten here⟩

theorem invOnDisk {s : State size} (inv : Inv rollSize s) : OnDisk s := by
  have files : Grouped (s.disk.files.map FileUtil.content) (s.custody.log.output.map fun b => b.data.bytes) := by
    have grouped := inv.stored.grouped
    rwa [arrays, List.map_congr_left fun b _ => writtenWhole b] at grouped
  have round (rest : rested s.custody.log = true) :
      Grouped (s.custody.log.output.map FixedBuffer.content) (s.custody.lines.take s.swapped) := by
    have all := inv.round
    have none_ : unwritten s.custody.log = [] := by
      unfold unwritten
      split
      · rename_i writing
        simp [rested, writing] at rest
      · rfl
    rwa [passed, none_, List.map_nil, List.append_nil] at all
  refine ⟨files, inv.custody.whole, round, fun rest line member => ?_⟩
  obtain ⟨block, inside, here⟩ := groupedInfix (round rest) member
  obtain ⟨b, output, rfl⟩ := List.mem_map.mp inside
  obtain ⟨content, file, there⟩ := groupedInfix files (List.mem_map_of_mem output)
  obtain ⟨f, opened, rfl⟩ := List.mem_map.mp file
  have front : b.content <:+: b.data.bytes := by
    exact (List.drop_suffix _ _).isInfix.trans (List.take_prefix _ _).isInfix
  exact ⟨f, opened, inv.flushed rest f opened, here.trans (front.trans there)⟩

theorem logOnDisk (accepts : Accepts libc) (basename : Bytes) (rollSize : Int) {now : Int} (positive : 0 < now)
    {actions : List (Action size)} (allowed : Along (step libc) Allowed (start libc size basename rollSize now) actions) :
    ∃ s, run (step libc) (start libc size basename rollSize now) actions = some s ∧ OnDisk s := by
  obtain ⟨s, ok, inv⟩ := runProgress (stepInv accepts) (startInv positive basename rollSize) allowed
  exact ⟨s, ok, invOnDisk inv⟩

def oneRound : List (Action 4) :=
  [.append [97, 98] (.zero 4), .append [99, 100] (.zero 4)] ++
    (List.range 9).map fun turn => .backend (turn + 5) (turn + 5)

theorem logOnDiskSample :
    ∃ s, run (step sampleLibc) (start sampleLibc 4 (ascii "log") 3 1) oneRound = some s ∧
      s.disk.files.map FileUtil.content = [[97, 98, 0, 0], [99, 100, 0, 0], []] ∧ OnDisk s := by
  obtain ⟨s, ok, good⟩ := @logOnDisk 4 sampleLibc (fun _ => rfl) (ascii "log") 3 1 (by decide) oneRound
    (by decide +kernel)
  have files : (run (step sampleLibc) (start sampleLibc 4 (ascii "log") 3 1) oneRound).map
      (fun s => s.disk.files.map FileUtil.content) = some [[97, 98, 0, 0], [99, 100, 0, 0], []] := by
    decide +kernel
  rw [ok] at files
  exact ⟨s, ok, Option.some.inj files, good⟩

end TinyNetwork.LogPipeline
