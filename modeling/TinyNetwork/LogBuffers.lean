import TinyNetwork.LogCustody

/-! That no buffer is missing. Lines may be of any length here: one that fits no buffer
makes append hand on the current buffer and then leaves no byte. When nextBuffer_ is
used up a buffer has been handed on since the last swap, so that at least two come back
with the vector and both spare buffers can be taken from it. -/
namespace TinyNetwork.LogBuffers
open Runs AsyncLogging LogCustody

variable {size : Nat}

def step (s : AsyncLogging size) : Action size → Option (AsyncLogging size)
  | .append logline garbage => s.append logline garbage
  | .backend => s.threadFunc
  | .stop => some s.stop

/- The back end moves until it has exited; everything else may come at any time. -/
def Allowed (s : AsyncLogging size) : Action size → Prop
  | .backend => s.phase ≠ .exited
  | _ => True

instance (s : AsyncLogging size) : (a : Action size) → Decidable (Allowed s a)
  | .backend => inferInstanceAs (Decidable (s.phase ≠ .exited))
  | .append _ _ | .stop => .isTrue trivial

structure Present (s : AsyncLogging size) : Prop where
  current : s.currentBuffer.isSome
  swapped1 : s.phase = .locking ∨ s.phase = .waiting → s.newBuffer1.isSome
  swapped2 : s.phase = .locking ∨ s.phase = .waiting → s.nextBuffer.isNone → s.newBuffer2.isSome
  written : ∀ next p, s.phase = .writing next → s.buffersToWrite[next]? = some p → p.isSome
  recycled1 : s.phase = .recycling1 → s.newBuffer1.isNone → ∃ b, s.buffersToWrite.getLast? = some (some b)
  recycled2 : s.phase = .recycling2 → s.newBuffer2.isNone → ∃ b, s.buffersToWrite.getLast? = some (some b)

theorem longInv {s : State size} (inv : Inv s) {logline : Bytes} (long : size ≤ logline.length)
    (garbage : Storage size) : ∃ log, s.log.append logline garbage = some log ∧ Inv ⟨log, s.lines⟩ := by
  obtain ⟨current, present⟩ := Option.isSome_iff_exists.mp inv.current
  obtain ⟨b, taken, empty⟩ := replacement inv garbage
  have never (c : FixedBuffer size) : ¬ logline.length < c.avail := by
    unfold FixedBuffer.avail
    omega
  have same : b.append logline = b := dif_neg (never b)
  refine ⟨{ s.log.replaceCurrent garbage with currentBuffer := some b }, ?_, ?_⟩
  · simp only [append, present, bind, Option.bind, if_neg (never current), taken, same]
  · have handed : Inv ⟨{ s.log.replaceCurrent garbage with currentBuffer := some b }, s.lines ++ []⟩ :=
      replaceInv inv garbage empty
    rwa [List.append_nil] at handed

theorem lastPresent {buffers : List (BufferPtr size)} (nonempty : buffers ≠ []) (solid : ∀ p ∈ buffers, p.isSome) :
    ∃ b, buffers.getLast? = some (some b) := by
  obtain ⟨b, found⟩ := Option.isSome_iff_exists.mp (solid _ (List.getLast_mem nonempty))
  exact ⟨b, by rw [List.getLast?_eq_some_getLast nonempty, found]⟩

theorem presentOf {s : State size} (inv : Inv s) : Present s.log := by
  have stage := inv.stage
  refine ⟨inv.current, fun phase => ?_, fun phase _ => ?_, fun next p _ found => ?_, fun phase none_ => ?_,
    fun phase none_ => ?_⟩
  · rcases phase with phase | phase <;> simp only [Stage, phase] at stage <;> exact stage.1
  · rcases phase with phase | phase <;> simp only [Stage, phase] at stage <;> exact stage.2.1
  · exact inv.toWrite p (List.mem_of_getElem? found)
  · simp only [Stage, phase] at stage
    refine lastPresent (fun nothing => ?_) inv.toWrite
    have enough := stage.2
    rw [nothing, needed] at enough
    split at enough <;> simp at enough
  · simp only [Stage, phase] at stage
    exact lastPresent (stage.2 none_) inv.toWrite

theorem stepPresent {s : AsyncLogging size} {a : Action size} (inv : ∃ lines, Inv ⟨s, lines⟩)
    (allowed : Allowed s a) : ∃ t, step s a = some t ∧ ∃ lines, Inv ⟨t, lines⟩ := by
  obtain ⟨lines, inv⟩ := inv
  cases a with
  | append logline garbage =>
    by_cases short : logline.length < size
    · obtain ⟨log, ok, inv'⟩ := appendInv inv short garbage
      exact ⟨log, ok, _, inv'⟩
    · obtain ⟨log, ok, inv'⟩ := longInv inv (Nat.not_lt.mp short) garbage
      exact ⟨log, ok, _, inv'⟩
  | backend =>
    obtain ⟨t, ok, inv'⟩ := LogCustody.stepInv (a := .backend) inv allowed
    obtain ⟨log, moved, last⟩ := Option.bind_eq_some_iff.mp ok
    rw [← Option.some.inj last] at inv'
    exact ⟨log, moved, _, inv'⟩
  | stop =>
    obtain ⟨t, ok, inv'⟩ := LogCustody.stepInv (a := .stop) inv trivial
    rw [← Option.some.inj ok] at inv'
    exact ⟨_, rfl, _, inv'⟩

theorem buffersPresent {actions : List (Action size)} (allowed : Along step Allowed (started size) actions) :
    ∃ s, run step (started size) actions = some s ∧ Present s := by
  obtain ⟨s, ok, lines, inv⟩ := runProgress stepPresent ⟨[], startInv size⟩ allowed
  exact ⟨s, ok, presentOf inv⟩

theorem buffersPresentSample :
    ∃ s, run step (started 4) [.append [97, 98] (.zero 4), .append [99, 100, 101, 102, 103] (.zero 4), .backend,
      .backend, .backend, .backend, .backend, .backend] = some s ∧ Present s :=
  buffersPresent (by decide)

end TinyNetwork.LogBuffers
