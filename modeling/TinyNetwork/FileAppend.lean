import TinyNetwork.LogFile

/-! The loop of FileUtil::append against a stream that may stop taking bytes. The
stream is a sequence of answers, one for each fwrite. An error is put on stderr and
nothing else follows from it, so a stream that accepts no more keeps the loop going. -/
namespace TinyNetwork.FileAppend

/- How many bytes a call accepts if it is offered that many, and ferror after it. -/
structure Answer where
  count : Nat
  error : Nat
  deriving DecidableEq, Repr

/- The stream and the variables of append. `calls` counts the fwrites and `reported`
are the errors on stderr. -/
structure Turn where
  file : FileUtil
  written : Nat
  calls : Nat
  reported : List Nat
  deriving DecidableEq, Repr

def turn (answers : Nat → Answer) (data : Bytes) (t : Turn) : Turn :=
  let remain := data.length - t.written
  let answer := answers t.calls
  let n := min answer.count remain
  { file := { t.file with content := t.file.content ++ (data.drop t.written).take n }
    written := t.written + n
    calls := t.calls + 1
    reported := if n ≠ remain ∧ answer.error ≠ 0 then t.reported ++ [answer.error] else t.reported }

def loop (answers : Nat → Answer) (data : Bytes) : Nat → Turn → Option Turn
  | fuel, t =>
      if t.written ≠ data.length then
        match fuel with
        | 0 => none
        | fuel + 1 => loop answers data fuel (turn answers data t)
      else some t

def append (answers : Nat → Answer) (fuel : Nat) (f : FileUtil) (data : Bytes) : Option FileUtil := do
  let t ← loop answers data fuel ⟨f, 0, 0, []⟩
  some { t.file with writtenBytes := offAdd t.file.writtenBytes t.written }

def Meets (answers : Nat → Answer) (f : FileUtil) (data : Bytes) : Prop :=
  ∃ fuel g n, append answers fuel f data = some g ∧ g.content = f.content ++ data.take n ∧ n ≤ data.length ∧
    g.writtenBytes = offAdd f.writtenBytes n ∧
    (0 ≤ f.writtenBytes → f.writtenBytes + n < 2 ^ 63 → g.writtenBytes = f.writtenBytes + n)

def accepted (answers : Nat → Answer) : Nat → Nat
  | 0 => 0
  | k + 1 => accepted answers k + (answers k).count

section
variable {answers : Nat → Answer} {data : Bytes} {f : FileUtil}

theorem offAddExact {a : Int} {n : Nat} (positive : 0 ≤ a) (fits : a + n < 2 ^ 63) : offAdd a n = a + n := by
  unfold offAdd
  exact Int.bmod_eq_of_le (by omega) (by omega)

theorem acceptedNone (none : ∀ i, (answers i).count = 0) (k : Nat) : accepted answers k = 0 := by
  induction k with
  | zero => rfl
  | succ k ih => rw [accepted, ih, none]

structure Inv (answers : Nat → Answer) (data : Bytes) (f : FileUtil) (t : Turn) : Prop where
  written : t.written = min data.length (accepted answers t.calls)
  file : t.file = { f with content := f.content ++ data.take t.written }

theorem turnInv {t : Turn} (inv : Inv answers data f t) : Inv answers data f (turn answers data t) := by
  have written := inv.written
  refine ⟨?_, ?_⟩
  · simp only [turn, accepted]
    omega
  · simp only [turn, inv.file, List.append_assoc, List.take_add]

theorem loopEnds (fuel : Nat) {t : Turn} (inv : Inv answers data f t)
    (enough : data.length ≤ accepted answers (t.calls + fuel)) :
    ∃ last, loop answers data fuel t = some last := by
  induction fuel generalizing t with
  | zero =>
    have written := inv.written
    exact ⟨t, by unfold loop; rw [if_neg (by simp only [Nat.add_zero] at enough; omega)]⟩
  | succ fuel ih =>
    unfold loop
    split
    · exact ih (turnInv inv) (by simpa only [turn, Nat.add_assoc, Nat.add_comm 1] using enough)
    · exact ⟨t, rfl⟩

theorem loopInv {fuel : Nat} {t last : Turn} (inv : Inv answers data f t)
    (ok : loop answers data fuel t = some last) : Inv answers data f last ∧ last.written = data.length := by
  induction fuel generalizing t with
  | zero =>
    unfold loop at ok
    split at ok <;> try contradiction
    rename_i done
    cases Option.some.inj ok
    exact ⟨inv, by simpa using done⟩
  | succ fuel ih =>
    unfold loop at ok
    split at ok
    · exact ih (turnInv inv) ok
    · rename_i done
      cases Option.some.inj ok
      exact ⟨inv, by simpa using done⟩

theorem startInv : Inv answers data f ⟨f, 0, 0, []⟩ := ⟨by simp [accepted], by simp⟩

theorem appendEnds (answers : Nat → Answer) (f : FileUtil) (data : Bytes) :
    Meets answers f data ↔ ∃ k, data.length ≤ accepted answers k := by
  constructor
  · rintro ⟨fuel, g, n, ok, _⟩
    obtain ⟨last, looped, _⟩ := Option.bind_eq_some_iff.mp ok
    obtain ⟨inv, all⟩ := loopInv startInv looped
    have written := inv.written
    exact ⟨last.calls, by omega⟩
  · rintro ⟨k, enough⟩
    obtain ⟨last, looped⟩ := loopEnds k (startInv (f := f)) (by simpa using enough)
    obtain ⟨inv, all⟩ := loopInv startInv looped
    refine ⟨k, { last.file with writtenBytes := offAdd last.file.writtenBytes last.written }, data.length, ?_, ?_,
      Nat.le_refl _, by rw [all, inv.file], fun positive fits => ?_⟩
    · simp only [append, looped, bind, Option.bind]
    · rw [← all, inv.file]
    · rw [all, inv.file]
      exact offAddExact positive fits

def Reported (answers : Nat → Answer) : Prop := ∀ i, 0 < (answers i).count ∨ (answers i).error ≠ 0

/- A stream that stays in error: every call accepts nothing and has ferror set. -/
theorem stuckStream : Reported (fun _ => ⟨0, 1⟩) ∧
    ¬ Meets (fun _ => ⟨0, 1⟩) { fileName := ascii "a.log", created := 0 } [65] := by
  refine ⟨fun _ => .inr (show 1 ≠ 0 by decide), ?_⟩
  rintro ⟨fuel, g, n, ok, _⟩
  obtain ⟨last, looped, _⟩ := Option.bind_eq_some_iff.mp ok
  obtain ⟨inv, all⟩ := loopInv startInv looped
  have written := inv.written
  rw [acceptedNone (fun _ => rfl)] at written
  simp only [List.length_singleton] at all
  omega

end

def offset (libc : Libc) (data : Bytes) : Nat → Nat
  | 0 => 0
  | k + 1 => offset libc data k + libc.fwrite (data.drop (offset libc data k))

def answersOf (libc : Libc) (data : Bytes) (k : Nat) : Answer :=
  ⟨libc.fwrite (data.drop (offset libc data k)), 0⟩

section
variable {libc : Libc} {data : Bytes}

theorem loopOfLibc (bounded : ∀ block, libc.fwrite block ≤ block.length) (fuel k : Nat) (f : FileUtil) :
    FileUtil.appendLoop libc data fuel (offset libc data k) f =
      (loop (answersOf libc data) data fuel ⟨f, offset libc data k, k, []⟩).map fun t => (t.written, t.file) := by
  induction fuel generalizing k f with
  | zero =>
    unfold FileUtil.appendLoop loop
    split <;> rfl
  | succ fuel ih =>
    unfold FileUtil.appendLoop loop
    split
    · have short := bounded (data.drop (offset libc data k))
      rw [List.length_drop] at short
      have next : turn (answersOf libc data) data ⟨f, offset libc data k, k, []⟩ =
          ⟨(f.write libc (data.drop (offset libc data k))).2, offset libc data (k + 1), k + 1, []⟩ := by
        simp [turn, answersOf, FileUtil.write, offset, Nat.min_eq_left short]
      rw [next]
      exact ih (k + 1) _
    · rfl

theorem appendOfLibc (bounded : ∀ block, libc.fwrite block ≤ block.length) (f : FileUtil) :
    FileUtil.append libc f data = append (answersOf libc data) (data.length + 1) f data := by
  have looped : FileUtil.appendLoop libc data (data.length + 1) 0 f =
      (loop (answersOf libc data) data (data.length + 1) ⟨f, 0, 0, []⟩).map fun t => (t.written, t.file) :=
    loopOfLibc bounded (data.length + 1) 0 f
  rw [FileUtil.append, looped, append]
  cases loop (answersOf libc data) data (data.length + 1) ⟨f, 0, 0, []⟩ <;> rfl

end

end TinyNetwork.FileAppend
