import TinyNetwork.LogInsertions
import TinyNetwork.LogPipeline

/-! A program that logs through AsyncLogging. Any thread executes log statements, each of
them appends the whole array of its stream, and the back end brings the arrays to disk. A
LOG_FATAL stops the program where it is; what has been flushed by then stays. -/
namespace TinyNetwork.LogProgram
open Runs Windows AsyncLogging LogCustody LogRolling LogPipeline LogStatement

variable {size : Nat}

def rank : LogLevel → Nat
  | .trace => 0
  | .debug => 1
  | .info => 2
  | .warn => 3
  | .error => 4
  | .fatal => 5

/- The macros: LOG_DEBUG and LOG_INFO look at g_logLevel, the others do not. -/
def enabled (logLevel : LogLevel) : LogLevel → Bool
  | .debug => rank logLevel ≤ rank .debug
  | .info => rank logLevel ≤ rank .info
  | _ => true

/- One execution of a log statement; `array` is what the memory of its stream held. -/
structure Statement where
  logger : Logger
  pieces : List Piece
  array : Storage kSmallBuffer

/- `said` are the statements with what their destructors passed to append, in the order of
the appends; `saved` counts those from before the swap of the last round that is over. -/
structure State (size : Nat) where
  pipeline : LogPipeline.State size
  said : List (Statement × Bytes)
  saved : Nat
  aborted : Bool

inductive Action (size : Nat) where
  | log (statement : Statement) (garbage : Storage size)
  | backend (check roll : Int)
  | stop

def settled (s : State size) (pipeline : LogPipeline.State size) : State size :=
  { s with pipeline, saved := if rested pipeline.custody.log then pipeline.swapped else s.saved }

def step (libc : Libc) (logLevel : LogLevel) (s : State size) : Action size → Option (State size)
  | .log statement garbage =>
      if enabled logLevel statement.logger.level then do
        let data ← statement.logger.output statement.array statement.pieces
        let pipeline ← LogPipeline.step libc s.pipeline (.append data garbage)
        some { s with
          pipeline
          said := s.said ++ [(statement, data)]
          aborted := statement.logger.level = .fatal }
      else some s
  | .backend check roll => do
      let pipeline ← LogPipeline.step libc s.pipeline (.backend check roll)
      some (settled s pipeline)
  | .stop => do
      let pipeline ← LogPipeline.step libc s.pipeline .stop
      some (settled s pipeline)

def start (libc : Libc) (size : Nat) (basename : Bytes) (rollSize now : Int) : State size :=
  ⟨LogPipeline.start libc size basename rollSize now, [], 0, false⟩

def Allowed (s : State size) : Action size → Prop
  | .log _ _ => s.aborted = false
  | .backend check roll => s.aborted = false ∧ LogPipeline.Allowed s.pipeline (.backend check roll)
  | .stop => s.aborted = false

instance (s : State size) (a : Action size) : Decidable (Allowed s a) := by
  cases a <;> unfold Allowed <;> infer_instance

def durable (file : FileUtil) : Bytes := file.content.take file.flushed

structure Grows (l t : LogFile) : Prop where
  sound : ∀ file ∈ t.files, file.flushed ≤ file.content.length
  keeps : ∀ file ∈ l.files, ∃ after ∈ t.files, durable file <+: durable after

section Files
variable {libc : Libc} {l t : LogFile} {s u : State size}

theorem growsSame (sound : ∀ file ∈ l.files, file.flushed ≤ file.content.length) : Grows l l :=
  ⟨sound, fun file member => ⟨file, member, List.prefix_refl _⟩⟩

theorem durableFlush (file : FileUtil) : durable file.flush = file.content :=
  List.take_of_length_le (Nat.le_refl _)

theorem growsOpen {file after : FileUtil} {more : List FileUtil} (opened : l.file = some file)
    (sound : ∀ file ∈ l.files, file.flushed ≤ file.content.length) (files : t.files = l.closed ++ after :: more)
    (keeps : durable file <+: durable after) (inside : ∀ new ∈ after :: more, new.flushed ≤ new.content.length) :
    Grows l t := by
  rw [filesOpen opened] at sound
  obtain ⟨closed, -⟩ := List.forall_mem_append.mp sound
  refine ⟨?_, ?_⟩
  · rw [files]
    exact List.forall_mem_append.mpr ⟨closed, inside⟩
  · rw [filesOpen opened, files]
    refine List.forall_mem_append.mpr ⟨fun old member => ?_, List.forall_mem_singleton.mpr ?_⟩
    · exact ⟨old, List.mem_append_left _ member, List.prefix_refl _⟩
    · exact ⟨after, List.mem_append_right _ List.mem_cons_self, keeps⟩

theorem flushGrows (sound : ∀ file ∈ l.files, file.flushed ≤ file.content.length) (ok : l.flush = some t) :
    Grows l t := by
  obtain ⟨file, opened, same⟩ := Option.bind_eq_some_iff.mp ok
  have files : t.files = l.closed ++ [file.flush] := by
    rw [← Option.some.inj same]
    rfl
  refine growsOpen opened sound files ?_ (List.forall_mem_singleton.mpr (Nat.le_refl _))
  rw [durableFlush]
  exact List.take_prefix _ _

theorem durableGrown {file : FileUtil} (sound : file.flushed ≤ file.content.length) (data : Bytes) :
    durable (grown file data) = durable file := List.take_append_of_le_length sound

theorem appendGrows (accepts : Accepts libc) (sound : ∀ file ∈ l.files, file.flushed ≤ file.content.length)
    {call : LogFile.Call} (ok : l.append libc call = some t) : Grows l t := by
  obtain ⟨file, opened, -⟩ := Option.bind_eq_some_iff.mp ok
  obtain ⟨u, same, appended⟩ := appendCases opened (appendGrown accepts file call.data)
  cases ok.symm.trans same
  have inside : file.flushed ≤ file.content.length := sound file (by simp [filesOpen opened])
  have more : file.flushed ≤ (grown file call.data).content.length :=
    Nat.le_trans inside (List.prefix_append _ _).length_le
  have keeps : durable file <+: durable (grown file call.data).flush := by
    rw [durableFlush]
    exact (List.take_prefix _ _).trans (List.prefix_append _ _)
  cases appended with
  | rolled rolled =>
    have files := filesOpen rolled.file
    rw [rolled.closed, List.append_assoc] at files
    refine growsOpen opened sound files keeps ?_
    exact List.forall_mem_cons.mpr ⟨Nat.le_refl _, List.forall_mem_singleton.mpr (Nat.le_refl _)⟩
  | stayed stayed =>
    rcases stayed.file with same | flushed
    · have files := filesOpen same
      rw [stayed.closed] at files
      have same : durable (grown file call.data) = durable file := durableGrown inside call.data
      exact growsOpen opened sound files (same ▸ List.prefix_refl _) (List.forall_mem_singleton.mpr more)
    · have files := filesOpen flushed
      rw [stayed.closed] at files
      exact growsOpen opened sound files keeps (List.forall_mem_singleton.mpr (Nat.le_refl _))

theorem performGrows (accepts : Accepts libc) {duty : Duty size} {check roll : Int}
    (sound : ∀ file ∈ l.files, file.flushed ≤ file.content.length)
    (ok : duty.perform libc l check roll = some t) : Grows l t := by
  cases duty with
  | nothing =>
    rw [← Option.some.inj ok]
    exact growsSame sound
  | append b => exact appendGrows accepts sound ok
  | flush => exact flushGrows sound ok

theorem pipelineGrows (accepts : Accepts libc) {s t : LogPipeline.State size} {a : LogPipeline.Action size}
    (sound : ∀ file ∈ s.disk.files, file.flushed ≤ file.content.length) (ok : LogPipeline.step libc s a = some t) :
    Grows s.disk t.disk := by
  cases a with
  | append logline garbage =>
    obtain ⟨custody, -, same⟩ := Option.bind_eq_some_iff.mp ok
    rw [← Option.some.inj same]
    exact growsSame sound
  | backend check roll =>
    obtain ⟨custody, -, rest⟩ := Option.bind_eq_some_iff.mp ok
    obtain ⟨disk, performed, same⟩ := Option.bind_eq_some_iff.mp rest
    rw [← Option.some.inj same]
    exact performGrows accepts sound performed
  | stop =>
    rw [← Option.some.inj ok]
    exact growsSame sound

end Files

/- Without an inserted Buffer and shorter than the array of its stream. -/
def Fits (statement : Statement) : Prop :=
  (∀ p ∈ statement.pieces, LogInsertions.Plain p) ∧
    (expected statement.logger statement.pieces).length + LogStream.kMaxNumericSize ≤ kSmallBuffer

structure Passed (statement : Statement) (data : Bytes) : Prop where
  output : statement.logger.output statement.array statement.pieces = some data
  whole : data.length = kSmallBuffer
  front : Fits statement → expected statement.logger statement.pieces <+: data

theorem insertSome (s : LogStream) (p : Piece) : ∃ t, s.insert p = some t := by
  by_cases plain : LogInsertions.Plain p
  · obtain ⟨t, ok, -⟩ := LogInsertions.insertInserted (s := s) plain
    exact ⟨t, (LogInsertions.insertSame s p).symm.trans ok⟩
  · simp only [LogInsertions.Plain, not_forall, ne_eq, not_not] at plain
    obtain ⟨buf, rfl⟩ := plain
    exact ⟨_, rfl⟩

theorem insertAllSome (s : LogStream) (pieces : List Piece) : ∃ t, s.insertAll pieces = some t := by
  induction pieces generalizing s with
  | nil => exact ⟨s, rfl⟩
  | cons p rest ih =>
    obtain ⟨t, ok⟩ := insertSome s p
    obtain ⟨u, all⟩ := ih t
    exact ⟨u, by simp only [LogStream.insertAll, ok, all, bind, Option.bind]⟩

theorem outputPassed (statement : Statement) : ∃ data, Passed statement data := by
  obtain ⟨logger, pieces, array⟩ := statement
  obtain ⟨t, ok⟩ := insertAllSome ⟨.make array⟩ (logger.opening ++ pieces ++ logger.finish)
  have output : logger.output array pieces = some (window t.buffer.data.bytes 0 t.buffer.length) := by
    simp only [Logger.output, ok, bind, Option.bind]
  refine ⟨_, output, ?_, fun fits => ?_⟩
  · rw [FixedBuffer.length, windowLength (Nat.le_of_eq t.buffer.data.sized.symm), Nat.sub_zero]
  · obtain ⟨data, same, front⟩ := statementInFront array fits.2 fits.1
    cases output.symm.trans same
    exact front

structure Inv (rollSize : Int) (s : State size) : Prop where
  pipeline : LogPipeline.Inv rollSize s.pipeline
  lines : s.pipeline.custody.lines = s.said.map Prod.snd
  passed : ∀ entry ∈ s.said, Passed entry.1 entry.2
  sound : ∀ file ∈ s.pipeline.disk.files, file.flushed ≤ file.content.length
  current : rested s.pipeline.custody.log = true → s.saved = s.pipeline.swapped
  within : s.saved ≤ s.said.length
  durable : ∀ entry ∈ s.said.take s.saved, ∃ file ∈ s.pipeline.disk.files, entry.2 <:+: durable file

section Steps
variable {libc : Libc} {logLevel : LogLevel} {rollSize : Int} {s : State size}

theorem startInv {now : Int} (positive : 0 < now) (basename : Bytes) (rollSize : Int) :
    Inv rollSize (start libc size basename rollSize now) where
  pipeline := LogPipeline.startInv positive basename rollSize
  lines := rfl
  passed _ member := absurd member List.not_mem_nil
  sound file member := Nat.le_of_eq ((LogPipeline.startInv positive basename rollSize).flushed rfl file member)
  current _ := rfl
  within := Nat.le_refl _
  durable _ member := absurd member List.not_mem_nil

theorem settledInv (inv : Inv rollSize s) {pipeline : LogPipeline.State size}
    (next : LogPipeline.Inv rollSize pipeline) (lines : pipeline.custody.lines = s.pipeline.custody.lines)
    (grows : Grows s.pipeline.disk pipeline.disk) : Inv rollSize (settled s pipeline) where
  pipeline := next
  lines := lines.trans inv.lines
  passed := inv.passed
  sound := grows.sound
  current rest := if_pos rest
  within := by
    have within := next.within
    rw [lines, inv.lines, List.length_map] at within
    simp only [settled]
    split
    · exact within
    · exact inv.within
  durable := by
    simp only [settled]
    split
    · rename_i rest
      intro entry member
      have line : entry.2 ∈ pipeline.custody.lines.take pipeline.swapped := by
        rw [lines, inv.lines, ← List.map_take]
        exact List.mem_map_of_mem member
      obtain ⟨file, there, flushed, part⟩ := (invOnDisk next).whole rest entry.2 line
      refine ⟨file, there, ?_⟩
      rw [durable, flushed, List.take_length]
      exact part
    · intro entry member
      obtain ⟨file, there, part⟩ := inv.durable entry member
      obtain ⟨after, there', front⟩ := grows.keeps file there
      exact ⟨after, there', part.trans front.isInfix⟩

theorem logInv (larger : kSmallBuffer < size) (inv : Inv rollSize s) (statement : Statement)
    (garbage : Storage size) (accepts : Accepts libc) :
    ∃ t, step libc logLevel s (.log statement garbage) = some t ∧ Inv rollSize t := by
  by_cases on : enabled logLevel statement.logger.level = true
  · obtain ⟨data, passed⟩ := outputPassed statement
    have short : data.length < size := passed.whole ▸ larger
    obtain ⟨pipeline, moved, next⟩ :=
      LogPipeline.stepInv accepts (a := .append data garbage) inv.pipeline short
    obtain ⟨custody, appended, same⟩ := Option.bind_eq_some_iff.mp moved
    obtain ⟨log, done, same'⟩ := Option.bind_eq_some_iff.mp appended
    cases Option.some.inj same
    cases Option.some.inj same'
    obtain ⟨-, phase, -⟩ := LogStop.appendFields done
    simp only [step, if_pos on, passed.output, moved, bind, Option.bind]
    refine ⟨_, rfl, next, ?_, ?_, inv.sound, ?_, ?_, ?_⟩
    · simp [inv.lines]
    · exact List.forall_mem_append.mpr ⟨inv.passed, List.forall_mem_singleton.mpr passed⟩
    · rw [rested, phase]
      exact inv.current
    · exact Nat.le_trans inv.within (by simp)
    · rw [List.take_append_of_le_length inv.within]
      exact inv.durable
  · exact ⟨s, if_neg on, inv⟩

theorem stepInv (larger : kSmallBuffer < size) (accepts : Accepts libc) {a : Action size}
    (inv : Inv rollSize s) (allowed : Allowed s a) :
    ∃ t, step libc logLevel s a = some t ∧ Inv rollSize t := by
  cases a with
  | log statement garbage => exact logInv larger inv statement garbage accepts
  | backend check roll =>
    obtain ⟨pipeline, moved, next⟩ := LogPipeline.stepInv accepts inv.pipeline allowed.2
    refine ⟨settled s pipeline, by simp only [step, moved, bind, Option.bind], ?_⟩
    refine settledInv inv next ?_ (pipelineGrows accepts inv.sound moved)
    obtain ⟨custody, done, rest⟩ := Option.bind_eq_some_iff.mp moved
    obtain ⟨disk, -, same⟩ := Option.bind_eq_some_iff.mp rest
    obtain ⟨log, -, same'⟩ := Option.bind_eq_some_iff.mp done
    rw [← Option.some.inj same, ← Option.some.inj same']
  | stop =>
    obtain ⟨pipeline, moved, next⟩ := LogPipeline.stepInv accepts (a := .stop) inv.pipeline trivial
    refine ⟨settled s pipeline, by simp only [step, moved, bind, Option.bind], ?_⟩
    refine settledInv inv next ?_ (pipelineGrows accepts inv.sound moved)
    rw [← Option.some.inj moved]

end Steps

/- Append got every statement that was executed, in order; what was appended before the swap
of the last round that is over is on disk whatever happens next, and that round is the last
one whenever the back end rests; the files are the buffers written so far, each in one of
them and whole. -/
structure Logged (s : State size) : Prop where
  lines : s.pipeline.custody.lines = s.said.map Prod.snd
  passed : ∀ entry ∈ s.said, Passed entry.1 entry.2
  durable : ∀ entry ∈ s.said.take s.saved, ∃ file ∈ s.pipeline.disk.files, entry.2 <:+: durable file
  current : rested s.pipeline.custody.log = true → s.saved = s.pipeline.swapped
  rows : Grouped (s.pipeline.disk.files.map FileUtil.content)
    (s.pipeline.custody.log.output.map fun b => b.data.bytes)
  whole : ∀ file ∈ s.pipeline.disk.files, size ∣ file.content.length

theorem rowsWhole {blocks : List Bytes} (whole : ∀ block ∈ blocks, block.length = size) :
    size ∣ blocks.flatten.length := by
  induction blocks with
  | nil => exact Nat.dvd_zero size
  | cons block rest ih =>
    obtain ⟨here, others⟩ := List.forall_mem_cons.mp whole
    rw [List.flatten_cons, List.length_append, here]
    exact Nat.dvd_add (Nat.dvd_refl size) (ih others)

theorem invLogged {rollSize : Int} {s : State size} (inv : Inv rollSize s) : Logged s := by
  have rows := (invOnDisk inv.pipeline).files
  refine ⟨inv.lines, inv.passed, inv.durable, inv.current, rows, fun file member => ?_⟩
  obtain ⟨groups, files, arrays⟩ := rows
  have here : file.content ∈ groups.map List.flatten := files ▸ List.mem_map_of_mem member
  obtain ⟨group, inside, same⟩ := List.mem_map.mp here
  rw [← same]
  refine rowsWhole fun block member => ?_
  have array : block ∈ groups.flatten := List.mem_flatten.mpr ⟨group, inside, member⟩
  rw [arrays] at array
  obtain ⟨b, -, rfl⟩ := List.mem_map.mp array
  exact b.data.sized

theorem statementsOnDisk (larger : kSmallBuffer < size) {libc : Libc} (accepts : Accepts libc) (logLevel : LogLevel)
    (basename : Bytes) (rollSize : Int) {now : Int} (positive : 0 < now) {actions : List (Action size)}
    (allowed : Along (step libc logLevel) Allowed (start libc size basename rollSize now) actions) :
    ∃ s, run (step libc logLevel) (start libc size basename rollSize now) actions = some s ∧ Logged s := by
  obtain ⟨s, ok, inv⟩ := runProgress (stepInv larger accepts) (startInv positive basename rollSize) allowed
  exact ⟨s, ok, invLogged inv⟩

def infoThenFatal : List (Action 4001) :=
  [.log ⟨infoSample, [.cString (some (ascii "info"))], .zero kSmallBuffer⟩ (.zero 4001),
    .log ⟨{ infoSample with level := .debug }, [], .zero kSmallBuffer⟩ (.zero 4001)] ++
  (List.range 9).map (fun turn => .backend (turn + 5) (turn + 5)) ++
  [.log ⟨{ infoSample with level := .fatal }, [], .zero kSmallBuffer⟩ (.zero 4001)]

theorem statementsOnDiskSample :
    ∃ s, run (step sampleLibc .info) (start sampleLibc 4001 (ascii "log") 3 1) infoThenFatal = some s ∧
      (s.said.length, s.saved, s.aborted) = (2, 1, true) ∧ Logged s := by
  obtain ⟨s, ok, logged⟩ := @statementsOnDisk 4001 (by decide) sampleLibc (fun _ => rfl) .info (ascii "log") 3 1
    (by decide) infoThenFatal (by decide +kernel)
  have counts : (run (step sampleLibc .info) (start sampleLibc 4001 (ascii "log") 3 1) infoThenFatal).map
      (fun s => (s.said.length, s.saved, s.aborted)) = some (2, 1, true) := by decide +kernel
  rw [ok] at counts
  exact ⟨s, ok, Option.some.inj counts, logged⟩

end TinyNetwork.LogProgram
