import TinyNetwork.FixedWidth
import TinyNetwork.LogFile
import TinyNetwork.Runs

/-! What a LogFile keeps and when it rolls. Nothing that was appended is lost between
two files, the files follow each other by their clock readings, and a file is left for
its size or for a new day, at most once in a second. -/
namespace TinyNetwork.LogRolling
open Runs LogFile FixedWidth

variable {libc : Libc}

def Accepts (libc : Libc) : Prop := ∀ data, libc.fwrite data = data.length

def grown (file : FileUtil) (data : Bytes) : FileUtil :=
  { file with content := file.content ++ data, writtenBytes := offAdd file.writtenBytes data.length }

theorem appendGrown (accepts : Accepts libc) (file : FileUtil) (data : Bytes) :
    file.append libc data = some (grown file data) := by
  by_cases empty : data = []
  · subst empty
    simp [FileUtil.append, FileUtil.appendLoop, grown]
  · have open_ : 0 ≠ data.length := fun none_ => empty (List.length_eq_zero_iff.mp none_.symm)
    have whole : FileUtil.appendLoop libc data (data.length + 1) 0 file =
        some (data.length, { file with content := file.content ++ data }) := by
      unfold FileUtil.appendLoop
      simp only [ne_eq, open_, not_false_eq_true, if_true, List.drop_zero, FileUtil.write, accepts data,
        List.take_length, Nat.zero_add]
      unfold FileUtil.appendLoop
      simp
    simp only [FileUtil.append, whole, bind, Option.bind, grown]

structure Rolled (libc : Libc) (l : LogFile) (call : Call) (full : FileUtil) (t : LogFile) : Prop where
  why : l.rollSize < full.writtenBytes ∨
    l.checkEveryN ≤ l.count + 1 ∧ periodOf call.check ≠ l.startOfPeriod
  newer : l.lastRoll < call.roll
  file : t.file = some { fileName := getLogFileName libc l.basename call.roll, created := call.roll }
  closed : t.closed = l.closed ++ [full.flush]
  lastRoll : t.lastRoll = call.roll
  period : t.startOfPeriod = periodOf call.roll
  count : t.count = l.count ∨ t.count = 0
  config : t.rollSize = l.rollSize ∧ t.checkEveryN = l.checkEveryN

structure Stayed (l : LogFile) (call : Call) (full : FileUtil) (t : LogFile) : Prop where
  tooBig : l.rollSize < full.writtenBytes → call.roll ≤ l.lastRoll
  file : t.file = some full ∨ t.file = some full.flush
  closed : t.closed = l.closed
  lastRoll : t.lastRoll = l.lastRoll
  period : t.startOfPeriod = l.startOfPeriod
  count : t.count = l.count ∨ t.count = 0 ∨ t.count = l.count + 1 ∧ l.count + 1 < l.checkEveryN
  config : t.rollSize = l.rollSize ∧ t.checkEveryN = l.checkEveryN

inductive Appended (libc : Libc) (l : LogFile) (call : Call) (full : FileUtil) (t : LogFile) : Prop where
  | rolled (rolled : Rolled libc l call full t)
  | stayed (stayed : Stayed l call full t)

theorem rollFileCases (l : LogFile) (call : Call) (full : FileUtil) (count : Int)
    (counted : count = l.count ∨ count = 0)
    (why : l.rollSize < full.writtenBytes ∨ l.checkEveryN ≤ l.count + 1 ∧ periodOf call.check ≠ l.startOfPeriod) :
    Appended libc l call full (({ l with file := some full, count } : LogFile).rollFile libc call.roll).2 := by
  unfold rollFile
  simp only
  split
  · rename_i newer
    exact .rolled ⟨why, newer, rfl, rfl, rfl, rfl, counted, rfl, rfl⟩
  · rename_i older
    refine .stayed ⟨fun _ => Int.not_lt.mp older, .inl rfl, rfl, rfl, rfl, ?_, rfl, rfl⟩
    exact counted.imp_right .inl

theorem appendCases {l : LogFile} {call : Call} {file full : FileUtil} (opened : l.file = some file)
    (filled : file.append libc call.data = some full) :
    ∃ t, l.append libc call = some t ∧ Appended libc l call full t := by
  simp only [append, appendInLock, opened, filled, bind, Option.bind]
  split
  · rename_i big
    exact ⟨_, rfl, rollFileCases l call full l.count (.inl rfl) (.inl big)⟩
  · rename_i small
    split
    · rename_i due
      split
      · rename_i changed
        exact ⟨_, rfl, rollFileCases l call full 0 (.inr rfl) (.inr ⟨due, changed⟩)⟩
      · split
        · exact ⟨_, rfl, .stayed ⟨fun big => absurd big small, .inr rfl, rfl, rfl, rfl, .inr (.inl rfl), rfl, rfl⟩⟩
        · exact ⟨_, rfl, .stayed ⟨fun big => absurd big small, .inl rfl, rfl, rfl, rfl, .inr (.inl rfl), rfl, rfl⟩⟩
    · rename_i waiting
      refine ⟨_, rfl, .stayed ⟨fun big => absurd big small, .inl rfl, rfl, rfl, rfl, ?_, rfl, rfl⟩⟩
      exact .inr (.inr ⟨rfl, Int.not_le.mp waiting⟩)

structure Kept (rollSize checkEveryN : Int) (data : Bytes) (l : LogFile) : Prop where
  config : l.rollSize = rollSize ∧ l.checkEveryN = checkEveryN
  opened : l.file ≠ none
  whole : (l.files.map FileUtil.content).flatten = data
  period : l.startOfPeriod = l.lastRoll / 86400 * 86400
  count : 0 ≤ l.count ∧ l.count < checkEveryN
  order : (l.files.map FileUtil.created).Pairwise (· < ·)
  newest : ∀ file ∈ l.files, file.created ≤ l.lastRoll

structure Rolls (l : LogFile) (call : Call) (full : FileUtil) (t : LogFile) : Prop where
  replaced : t.closed ≠ l.closed →
    l.rollSize < full.writtenBytes ∨ l.checkEveryN ≤ l.count + 1 ∧ periodOf call.check ≠ l.startOfPeriod
  full : l.rollSize < full.writtenBytes → l.lastRoll < call.roll →
    t.closed = l.closed ++ [full.flush] ∧
      ∃ new, t.file = some new ∧ new.created = call.roll ∧ new.writtenBytes = 0 ∧ new.content = []

theorem periodFloor {now : Int} (positive : 0 < now) : periodOf now = now / 86400 * 86400 := by
  rw [periodOf, Int.tdiv_eq_ediv_of_nonneg (Int.le_of_lt positive)]
  rfl

theorem rollsOf {l t : LogFile} {call : Call} {full : FileUtil} (done : Appended libc l call full t) :
    Rolls l call full t := by
  cases done with
  | rolled rolled =>
    exact ⟨fun _ => rolled.why, fun _ _ => ⟨rolled.closed, _, rolled.file, rfl, rfl, rfl⟩⟩
  | stayed stayed =>
    refine ⟨fun moved => absurd stayed.closed moved, fun big newer => ?_⟩
    have older := stayed.tooBig big
    omega

theorem filesOpen {l : LogFile} {file : FileUtil} (opened : l.file = some file) : l.files = l.closed ++ [file] := by
  rw [files, opened]
  rfl

section Step
variable {rollSize checkEveryN : Int} {data : Bytes} {l t : LogFile} {call : Call} {file : FileUtil}

theorem keptRolled (kept : Kept rollSize checkEveryN data l) (opened : l.file = some file) (positive : 0 < call.roll)
    (rolled : Rolled libc l call (grown file call.data) t) : Kept rollSize checkEveryN (data ++ call.data) t := by
  obtain ⟨config, _, whole, _, count, order, newest⟩ := kept
  obtain ⟨rollSizeKept, everyKept⟩ := rolled.config
  rw [filesOpen opened] at whole order newest
  have contents : t.files = l.closed ++ [(grown file call.data).flush] ++
      [{ fileName := getLogFileName libc l.basename call.roll, created := call.roll }] := by
    rw [filesOpen rolled.file, rolled.closed]
  have newer := rolled.newer
  refine ⟨?_, ?_, ?_, ?_, ?_, ?_, ?_⟩
  · rw [rollSizeKept, everyKept]
    exact config
  · rw [rolled.file]
    exact Option.some_ne_none _
  · rw [contents, ← whole]
    simp [grown, FileUtil.flush]
  · rw [rolled.period, rolled.lastRoll, periodFloor positive]
  · rcases rolled.count with same | zero <;> omega
  · have sorted : ((l.closed ++ [(grown file call.data).flush]).map FileUtil.created).Pairwise (· < ·) := by
      simpa [grown, FileUtil.flush] using order
    rw [contents, List.map_append, List.pairwise_append]
    refine ⟨sorted, List.pairwise_singleton _ _, ?_⟩
    simp only [List.mem_map, List.map_cons, List.map_nil, List.mem_singleton, forall_eq]
    rintro created ⟨old, member, rfl⟩
    have before : old.created ≤ l.lastRoll := by
      rcases List.mem_append.mp member with inside | last
      · exact newest old (List.mem_append_left _ inside)
      · rw [List.mem_singleton.mp last]
        exact newest file (by simp)
    omega
  · rw [contents, rolled.lastRoll]
    intro old member
    simp only [List.mem_append, List.mem_singleton] at member
    rcases member with (inside | rfl) | rfl
    · have before := newest old (List.mem_append_left _ inside)
      omega
    · have before := newest file (by simp)
      simp only [grown, FileUtil.flush]
      omega
    · exact Int.le_refl _

theorem keptStayed (kept : Kept rollSize checkEveryN data l) (opened : l.file = some file)
    (stayed : Stayed l call (grown file call.data) t) : Kept rollSize checkEveryN (data ++ call.data) t := by
  obtain ⟨config, _, whole, period, count, order, newest⟩ := kept
  obtain ⟨rollSizeKept, everyKept⟩ := stayed.config
  rw [filesOpen opened] at whole order newest
  -- a flush changes neither the content nor the reading of the file
  obtain ⟨now, here, content, created⟩ : ∃ now, t.file = some now ∧ now.content = file.content ++ call.data ∧
      now.created = file.created := by
    rcases stayed.file with same | flushed
    · exact ⟨_, same, rfl, rfl⟩
    · exact ⟨_, flushed, rfl, rfl⟩
  have contents : t.files = l.closed ++ [now] := by rw [filesOpen here, stayed.closed]
  refine ⟨?_, ?_, ?_, ?_, ?_, ?_, ?_⟩
  · rw [rollSizeKept, everyKept]
    exact config
  · rw [here]
    exact Option.some_ne_none _
  · rw [contents, ← whole]
    simp [content]
  · rw [stayed.period, stayed.lastRoll, period]
  · rcases stayed.count with same | zero | ⟨more, below⟩ <;> omega
  · rw [contents]
    simpa [created] using order
  · rw [contents, stayed.lastRoll]
    simp only [List.forall_mem_append, List.forall_mem_singleton] at newest ⊢
    exact ⟨newest.1, created ▸ newest.2⟩

theorem appendKept (accepts : Accepts libc) (kept : Kept rollSize checkEveryN data l) (positive : 0 < call.roll) :
    ∃ t, l.append libc call = some t ∧ Kept rollSize checkEveryN (data ++ call.data) t := by
  obtain ⟨file, opened⟩ := Option.ne_none_iff_exists'.mp kept.opened
  obtain ⟨t, done, cases_⟩ := appendCases opened (appendGrown accepts file call.data)
  refine ⟨t, done, ?_⟩
  cases cases_ with
  | rolled rolled => exact keptRolled kept opened positive rolled
  | stayed stayed => exact keptStayed kept opened stayed

end Step

theorem makeKept {now : Int} (positive : 0 < now) (basename : Bytes) (rollSize flushInterval : Int)
    {checkEveryN : Int} (each : 1 ≤ checkEveryN) :
    Kept rollSize checkEveryN [] (make libc basename rollSize flushInterval checkEveryN now) := by
  simp only [make, rollFile, if_pos positive]
  exact ⟨⟨rfl, rfl⟩, by simp, by simp [files], periodFloor positive, ⟨Int.le_refl _, each⟩, by simp [files],
    by simp [files]⟩

def AlwaysRolls (libc : Libc) (l : LogFile) (calls : List Call) : Prop :=
  Along (append libc)
    (fun l call => ∀ t file full, l.append libc call = some t → l.file = some file →
      file.append libc call.data = some full → Rolls l call full t) l calls

theorem appendRolls {l t : LogFile} {call : Call} {file full : FileUtil} (done : l.append libc call = some t)
    (opened : l.file = some file) (filled : file.append libc call.data = some full) : Rolls l call full t := by
  obtain ⟨u, same, cases_⟩ := appendCases opened filled
  cases Option.some.inj (done.symm.trans same)
  exact rollsOf cases_

theorem runKept (accepts : Accepts libc) {rollSize checkEveryN : Int} {data : Bytes} {l : LogFile}
    (kept : Kept rollSize checkEveryN data l) {calls : List Call} (positive : ∀ call ∈ calls, 0 < call.roll) :
    ∃ last, run (append libc) l calls = some last ∧
      Kept rollSize checkEveryN (data ++ (calls.map Call.data).flatten) last := by
  induction calls generalizing l data with
  | nil => exact ⟨l, rfl, by simpa using kept⟩
  | cons call calls ih =>
    obtain ⟨first, others⟩ := List.forall_mem_cons.mp positive
    obtain ⟨t, done, next⟩ := appendKept accepts kept first
    obtain ⟨last, later, good⟩ := ih next others
    refine ⟨last, runCons.mpr ⟨t, done, later⟩, ?_⟩
    rwa [List.map_cons, List.flatten_cons, ← List.append_assoc]

theorem logFileRolling (accepts : Accepts libc) (basename : Bytes) (rollSize flushInterval : Int)
    {checkEveryN now : Int} (each : 1 ≤ checkEveryN) (positive : 0 < now) {calls : List Call}
    (readings : ∀ call ∈ calls, 0 < call.roll) :
    (∃ last, run (append libc) (make libc basename rollSize flushInterval checkEveryN now) calls = some last ∧
      Kept rollSize checkEveryN (calls.map Call.data).flatten last) ∧
    AlwaysRolls libc (make libc basename rollSize flushInterval checkEveryN now) calls := by
  constructor
  · obtain ⟨last, done, kept⟩ := runKept accepts (makeKept positive basename rollSize flushInterval each) readings
    exact ⟨last, done, kept⟩
  · exact alongOf (fun _ _ _ _ _ _ done opened filled => appendRolls done opened filled) _

def sampleCalls : List Call := [⟨ascii "abc", 2, 2⟩, ⟨ascii "d", 90000, 90001⟩, ⟨ascii "e", 90002, 90002⟩]

/- strftime in UTC for the first days of the epoch. -/
def sampleLibc : Libc where
  fwrite := List.length
  timebuf now :=
    let seconds := now.toNat
    ascii ".197001" ++ fixed 2 (seconds / 86400 + 1) ++ ascii "-" ++
      fixed 2 (seconds / 3600 % 24) ++ fixed 2 (seconds / 60 % 60) ++ fixed 2 (seconds % 60)

theorem logFileRollingSample :
    ∃ last, run (append sampleLibc) (make sampleLibc (ascii "log") 2 3 1 1) sampleCalls = some last ∧
      Kept 2 1 (ascii "abcde") last := by
  have done := @logFileRolling sampleLibc (fun _ => rfl) (ascii "log") 2 3 1 1 (by decide) (by decide) sampleCalls
    (by decide)
  exact done.1

example : (run (append sampleLibc) (make sampleLibc (ascii "log") 2 3 1 1) sampleCalls).map
    (fun last => last.files.map (fun file => (file.fileName, file.content))) =
    some [(ascii "log.19700101-000001.log", ascii "abc"), (ascii "log.19700101-000002.log", ascii "d"),
      (ascii "log.19700102-010001.log", ascii "e")] := by
  decide +kernel

end TinyNetwork.LogRolling
