import TinyNetwork.LogDigits
import TinyNetwork.Runs

/-! Insertions into the array of a LogStream, in any order up to its end. Strings and
chars are copied when they are shorter than the room that is left; an integer is stored
char by char, without a check, when the room is at least kMaxNumericSize. Either way an
insertion is done completely or not at all, and what is in the stream stays there. -/
namespace TinyNetwork.LogInsertions
open Runs Windows Decimals LogStream LogStatement

def insert (s : LogStream) : Piece → Option LogStream
  | .integer v => LogDigits.formatInteger s v.value
  | p => s.insert p

def Dropped (s : LogStream) : Piece → Prop
  | .integer _ => s.buffer.avail < kMaxNumericSize
  | p => s.buffer.avail ≤ (rendered p).length

structure Kept (s t : LogStream) : Prop where
  order : s.buffer.cur ≤ t.buffer.cur
  inside : t.buffer.cur ≤ kSmallBuffer
  below : t.buffer.data.bytes.take s.buffer.cur = s.buffer.data.bytes.take s.buffer.cur

structure Inserted (s t : LogStream) (p : Piece) : Prop where
  dropped : Dropped s p → t = s
  whole : ¬ Dropped s p → t.buffer.content = s.buffer.content ++ rendered p
  kept : Kept s t

/- An insertion of a Buffer is left out: it is a string as long as the array. -/
def Plain (p : Piece) : Prop := ∀ buf, p ≠ .buffer buf

section
variable {s t u : LogStream} {p : Piece}

theorem insertSame (s : LogStream) (p : Piece) : insert s p = s.insert p := by
  cases p with
  | integer v => exact LogDigits.formatIntegerSame v
  | char | cString | string | general | buffer => rfl

theorem insertAllSame (s : LogStream) (pieces : List Piece) : run insert s pieces = s.insertAll pieces := by
  induction pieces generalizing s with
  | nil => rfl
  | cons p rest ih => simp only [run, insertAll, insertSame, ih]

theorem keptSelf (s : LogStream) : Kept s s := ⟨Nat.le_refl _, s.buffer.inside, rfl⟩

theorem keptTrans (first : Kept s t) (second : Kept t u) : Kept s u := by
  refine ⟨Nat.le_trans first.order second.order, second.inside, ?_⟩
  have below := congrArg (List.take s.buffer.cur) second.below
  rw [List.take_take, List.take_take, Nat.min_eq_left first.order] at below
  rw [below, first.below]

theorem keptOf {data : Bytes} (content : t.buffer.content = s.buffer.content ++ data) : Kept s t := by
  have length : t.buffer.cur = s.buffer.cur + data.length := by
    rw [← contentLength, content, List.length_append, contentLength]
  refine ⟨by omega, t.buffer.inside, ?_⟩
  have front := congrArg (List.take s.buffer.cur) content
  have exact_ : s.buffer.content.length = s.buffer.cur := contentLength s.buffer
  rw [List.take_left' exact_] at front
  simpa [FixedBuffer.content, window, List.take_take, length] using front

theorem insertedOf (dropped : Dropped s p → t = s)
    (whole : ¬ Dropped s p → t.buffer.content = s.buffer.content ++ rendered p) : Inserted s t p := by
  refine ⟨dropped, whole, ?_⟩
  by_cases none : Dropped s p
  · rw [dropped none]
    exact keptSelf s
  · exact keptOf (whole none)

theorem appendFull {data : Bytes} (full : s.buffer.avail ≤ data.length) : s.append data = s := by
  rw [LogStream.append, FixedBuffer.append, dif_neg (by omega)]

theorem insertInserted (plain : Plain p) : ∃ t, insert s p = some t ∧ Inserted s t p := by
  have copied (data : Bytes) (same : rendered p = data) (exactly : Dropped s p ↔ s.buffer.avail ≤ data.length) :
      Inserted s (s.append data) p := by
    refine insertedOf (fun full => appendFull (exactly.mp full)) fun room => ?_
    rw [same]
    exact FixedBuffer.appendContent (by have := exactly.not.mp room; omega)
  cases p with
  | integer v =>
    by_cases room : kMaxNumericSize ≤ s.buffer.avail
    · obtain ⟨t, ok, content⟩ := LogDigits.formatIntegerContent v room
      refine ⟨t, ok, insertedOf (fun full => ?_) fun _ => content⟩
      exact absurd room (Nat.not_le.mpr full)
    · refine ⟨s, if_neg room, insertedOf (fun _ => rfl) fun enough => ?_⟩
      exact absurd (Nat.not_le.mp room) enough
  | char c => exact ⟨_, rfl, copied [c] rfl .rfl⟩
  | cString str =>
    cases str with
    | none => exact ⟨_, rfl, copied _ rfl .rfl⟩
    | some str => exact ⟨_, rfl, copied _ rfl .rfl⟩
  | string str => exact ⟨_, rfl, copied str rfl .rfl⟩
  | general data => exact ⟨_, rfl, copied data rfl .rfl⟩
  | buffer buf => exact absurd rfl (plain buf)

theorem runKept {pieces : List Piece} (plain : ∀ p ∈ pieces, Plain p) (s : LogStream) :
    ∃ t, run insert s pieces = some t ∧ Kept s t := by
  induction pieces generalizing s with
  | nil => exact ⟨s, rfl, keptSelf s⟩
  | cons p rest ih =>
    obtain ⟨here, others⟩ := List.forall_mem_cons.mp plain
    obtain ⟨t, ok, inserted⟩ := insertInserted (s := s) here
    obtain ⟨u, ran, kept⟩ := ih others t
    exact ⟨u, runCons.mpr ⟨t, ok, ran⟩, keptTrans inserted.kept kept⟩

theorem insertionsWhole (garbage : Storage kSmallBuffer) {pieces : List Piece} (plain : ∀ p ∈ pieces, Plain p) :
    Along insert (fun s p => ∀ t, insert s p = some t → Inserted s t p) ⟨.make garbage⟩ pieces ∧
      ∀ front back, pieces = front ++ back → ∃ s t, run insert ⟨.make garbage⟩ front = some s ∧
        run insert s back = some t ∧ Kept s t := by
  refine ⟨?_, ?_⟩
  · have each {s : LogStream} {p : Piece} (_ : True) (here : Plain p) :
        ∃ t, insert s p = some t ∧ True ∧ Inserted s t p := by
      obtain ⟨t, ok, inserted⟩ := insertInserted (s := s) here
      exact ⟨t, ok, trivial, inserted⟩
    exact (runProgressWith each trivial (alongOf (fun _ => plain) _)).1
  · rintro front back rfl
    obtain ⟨here, others⟩ := List.forall_mem_append.mp plain
    obtain ⟨s, ran, _⟩ := runKept here ⟨.make garbage⟩
    obtain ⟨t, ran', kept⟩ := runKept others s
    exact ⟨s, t, ran, ran', kept⟩

theorem insertionsWholeSample : ∃ s t, run insert ⟨.make (.zero kSmallBuffer)⟩
      [.integer ⟨-7, by decide, by decide⟩, .string (List.replicate 4000 65)] = some s ∧
    run insert s [.cString none] = some t ∧ Kept s t := by
  have plain : ∀ p ∈ [.integer ⟨-7, by decide, by decide⟩, .string (List.replicate 4000 65), .cString none],
      Plain p :=
    List.forall_mem_cons.mpr ⟨fun _ => nofun, List.forall_mem_cons.mpr ⟨fun _ => nofun,
      List.forall_mem_singleton.mpr fun _ => nofun⟩⟩
  exact (insertionsWhole (.zero kSmallBuffer) plain).2 [_, _] [_] rfl

end

end TinyNetwork.LogInsertions
