import TinyNetwork.FixedWidth
import TinyNetwork.LogStatement

/-! What the time in front of a log line tells. The calendar text has nineteen chars and
formatTime inserts seventeen of them, so the seconds never come out: instants of one
minute are told apart by their microseconds alone. -/
namespace TinyNetwork.LogTimes
open Decimals FixedWidth LogStream LogStatement

def seconds (now : Timestamp) : Int := now.microSecondsSinceEpoch.tdiv Timestamp.kMicroSecondsPerSecond

def micros (now : Timestamp) : Int := now.microSecondsSinceEpoch.tmod Timestamp.kMicroSecondsPerSecond

def stamp (localtime : Int → Tm) (garbage : Storage kSmallBuffer) (l : Logger) (now : Timestamp) : Option Bytes := do
  let stream ← LogStream.insertAll ⟨.make garbage⟩ { l with now, tm := localtime (seconds now) }.formatTime
  some stream.buffer.content

structure Calendar (tm : Tm) : Prop where
  year : 1000 ≤ tm.year + 1900 ∧ tm.year + 1900 ≤ 9999
  mon : 0 ≤ tm.mon ∧ tm.mon ≤ 11
  mday : 1 ≤ tm.mday ∧ tm.mday ≤ 31
  hour : 0 ≤ tm.hour ∧ tm.hour ≤ 23
  min : 0 ≤ tm.min ∧ tm.min ≤ 59
  sec : 0 ≤ tm.sec ∧ tm.sec ≤ 60

def minute (tm : Tm) : List Int := [tm.year, tm.mon, tm.mday, tm.hour, tm.min]

def fields (tm : Tm) : List Int := minute tm ++ [tm.sec]

def Ordered (localtime : Int → Tm) (a b : Timestamp) : Prop :=
  seconds a < seconds b ↔ fields (localtime (seconds a)) < fields (localtime (seconds b))

def Tells (localtime : Int → Tm) (garbage : Storage kSmallBuffer) (l : Logger) (a b : Timestamp) : Prop :=
  ∃ p q, stamp localtime garbage l a = some p ∧ stamp localtime garbage l b = some q ∧ p ≠ q ∧
    (Ordered localtime a b → (a.microSecondsSinceEpoch < b.microSecondsSinceEpoch ↔ p < q))

/- The place of a microsecond part among the texts of seven chars. Before the epoch the
parts are negative: one of six digits loses its space, and the others keep it. -/
def key (k : Nat) : Nat := if k < 100000 then 11 * k else 11 * (k / 10) + k % 10 + 1

def rank (m : Int) : Int := if 0 ≤ m then m else key m.natAbs - 2000000

def Apart (localtime : Int → Tm) (a b : Timestamp) : Prop :=
  minute (localtime (seconds a)) ≠ minute (localtime (seconds b)) ∨
    micros a ≠ micros b ∧ (Ordered localtime a b →
      (a.microSecondsSinceEpoch < b.microSecondsSinceEpoch ↔ rank (micros a) < rank (micros b)))

def minuteText (tm : Tm) : Bytes :=
  fixed 4 (tm.year + 1900).toNat ++ 47 :: (fixed 2 (tm.mon + 1).toNat ++ 47 :: (fixed 2 tm.mday.toNat ++
    32 :: (fixed 2 tm.hour.toNat ++ 58 :: (fixed 2 tm.min.toNat ++ [58]))))

section
variable {t u : Tm}

theorem zeroPaddedFixed {w : Nat} {v : Int} (positive : 0 < w) (low : 0 ≤ v) (high : v < 10 ^ w) :
    zeroPadded w v = fixed w v.toNat := by
  obtain ⟨n, rfl⟩ := Int.eq_ofNat_of_zero_le low
  rw [zeroPadded, if_neg (by omega), Int.natAbs_natCast, Int.toNat_natCast]
  exact padLeftFixed positive (by exact_mod_cast high)

theorem tTimeSpec (calendar : Calendar t) : (Logger.tTime t).take 17 = minuteText t := by
  obtain ⟨year, mon, mday, hour, min, sec⟩ := calendar
  have four : padLeft 32 4 (integer (t.year + 1900)) = fixed 4 (t.year + 1900).toNat := by
    have wide := naturalWide (n := (t.year + 1900).toNat) (k := 3) (by decide) (by omega)
    rw [integer, if_neg (by omega), show (t.year + 1900).natAbs = (t.year + 1900).toNat by omega,
      ← padLeftFixed (by decide) (by omega), padLeftWide wide, padLeftWide wide]
  rw [Logger.tTime, four, zeroPaddedFixed (by decide) (by omega) (by omega),
    zeroPaddedFixed (by decide) (by omega) (by omega), zeroPaddedFixed (by decide) (by omega) (by omega),
    zeroPaddedFixed (by decide) (by omega) (by omega), zeroPaddedFixed (by decide) (by omega) (by omega)]
  have length : (minuteText t).length = 17 := by simp [minuteText]
  have whole : fixed 4 (t.year + 1900).toNat ++ [47] ++ fixed 2 (t.mon + 1).toNat ++ [47] ++ fixed 2 t.mday.toNat ++
      [32] ++ fixed 2 t.hour.toNat ++ [58] ++ fixed 2 t.min.toNat ++ [58] ++ fixed 2 t.sec.toNat =
      minuteText t ++ fixed 2 t.sec.toNat := by
    simp only [minuteText, List.append_assoc, List.cons_append, List.nil_append]
  rw [whole, List.take_take]
  exact List.take_left' length

theorem minuteTextLt (left : Calendar t) (right : Calendar u) : minuteText t < minuteText u ↔ minute t < minute u := by
  obtain ⟨year, mon, mday, hour, min, _⟩ := left
  obtain ⟨year', mon', mday', hour', min', _⟩ := right
  rw [minuteText, minuteText, fixedConsLt (by omega) (by omega), fixedConsLt (by omega) (by omega),
    fixedConsLt (by omega) (by omega), fixedConsLt (by omega) (by omega), fixedConsLt (by omega) (by omega)]
  simp only [minute, List.cons_lt_cons_iff, List.lt_irrefl, and_false, or_false]
  omega

theorem minuteTextEq (left : Calendar t) (right : Calendar u) : minuteText t = minuteText u ↔ minute t = minute u := by
  obtain ⟨year, mon, mday, hour, min, _⟩ := left
  obtain ⟨year', mon', mday', hour', min', _⟩ := right
  rw [minuteText, minuteText, fixedConsEq (by omega) (by omega), fixedConsEq (by omega) (by omega),
    fixedConsEq (by omega) (by omega), fixedConsEq (by omega) (by omega), fixedConsEq (by omega) (by omega)]
  simp only [minute, List.cons.injEq, and_true]
  omega

end

section
variable {m n : Int}

def microShown (m : Int) : Bytes := (zeroPadded 6 m ++ [32]).take 7

theorem microPositive (low : 0 ≤ m) (high : m < 1000000) : microShown m = fixed 6 m.toNat ++ [32] := by
  rw [microShown, zeroPaddedFixed (by decide) low (by omega)]
  exact List.take_of_length_le (by simp)

theorem microNegative (low : -1000000 < m) (high : m < 0) :
    ∃ k c, microShown m = 45 :: (fixed 5 k ++ [c]) ∧ k < 10 ^ 5 ∧
      (m.natAbs < 100000 ∧ k = m.natAbs ∧ c = 32 ∨
        100000 ≤ m.natAbs ∧ k = m.natAbs / 10 ∧ c = byteOf (m.natAbs % 10).digitChar) := by
  by_cases small : m.natAbs < 100000
  · refine ⟨m.natAbs, 32, ?_, by omega, .inl ⟨small, rfl, rfl⟩⟩
    rw [microShown, zeroPadded, if_pos high, padLeftFixed (by decide) (by omega)]
    exact List.take_of_length_le (by simp)
  · have wide := naturalWide (n := m.natAbs) (k := 5) (by decide) (by omega)
    refine ⟨m.natAbs / 10, _, ?_, by omega, .inr ⟨by omega, rfl, rfl⟩⟩
    have six : natural m.natAbs = fixed 5 (m.natAbs / 10) ++ [byteOf (m.natAbs % 10).digitChar] := by
      have padded : padLeft 48 6 (natural m.natAbs) = natural m.natAbs := padLeftWide wide
      rw [← padded, padLeftFixed (by decide) (by omega), fixed]
    rw [microShown, zeroPadded, if_pos high, padLeftWide (by omega), six]
    exact List.take_left' (by simp)

theorem keyBound {k : Nat} (small : k < 1000000) : key k < 2000000 := by
  unfold key
  split <;> omega

theorem keyInj {j k : Nat} (equal : key j = key k) : j = k := by
  unfold key at equal
  split at equal <;> split at equal <;> omega

theorem rankInj (lowM : -1000000 < m) (lowN : -1000000 < n) (equal : rank m = rank n) : m = n := by
  unfold rank at equal
  split at equal <;> split at equal
  · exact equal
  · have bound := keyBound (k := n.natAbs) (by omega)
    omega
  · have bound := keyBound (k := m.natAbs) (by omega)
    omega
  · have same := keyInj (j := m.natAbs) (k := n.natAbs) (by omega)
    omega

theorem signLt (k a : Nat) (xs ys : Bytes) :
    45 :: xs < fixed (k + 1) a ++ ys ∧ ¬ fixed (k + 1) a ++ ys < 45 :: xs := by
  obtain ⟨c, rest, text⟩ := List.exists_cons_of_length_pos (l := fixed (k + 1) a) (by simp)
  have digit := (fixedDigits (k + 1) a c (text ▸ List.mem_cons_self)).1
  have less : (45 : UInt8) < c := UInt8.lt_of_lt_of_le (by decide) digit
  rw [text, List.cons_append, List.cons_lt_cons_iff, List.cons_lt_cons_iff]
  refine ⟨.inl less, ?_⟩
  rintro (greater | ⟨rfl, _⟩)
  · exact absurd (UInt8.lt_trans less greater) (UInt8.lt_irrefl _)
  · exact absurd digit (by decide)

theorem microLtNegative (lowM : -1000000 < m) (highM : m < 0) (lowN : -1000000 < n) (highN : n < 0) :
    microShown m < microShown n ↔ key m.natAbs < key n.natAbs := by
  obtain ⟨k, c, textM, smallK, shownM⟩ := microNegative lowM highM
  obtain ⟨j, d, textN, smallJ, shownN⟩ := microNegative lowN highN
  have compare : microShown m < microShown n ↔ k < j ∨ k = j ∧ c < d := by
    rw [textM, textN, List.cons_lt_cons_iff, appendLt (by simp), fixedLt smallK smallJ, fixedInj smallK smallJ,
      List.cons_lt_cons_iff]
    simp only [UInt8.lt_irrefl, List.lt_irrefl, true_and, false_or, and_false, or_false]
  rw [compare]
  unfold key
  have digit (x : Nat) := digitBounds (Nat.mod_lt x (by decide : 0 < 10))
  rcases shownM with ⟨few, rfl, rfl⟩ | ⟨many, rfl, rfl⟩ <;> rcases shownN with ⟨few', rfl, rfl⟩ | ⟨many', rfl, rfl⟩
  · rw [if_pos few, if_pos few']
    simp only [UInt8.lt_irrefl, and_false, or_false]
    omega
  · have less : (32 : UInt8) < byteOf (n.natAbs % 10).digitChar := UInt8.lt_of_lt_of_le (by decide) (digit n.natAbs).2.1
    rw [if_pos few, if_neg (by omega)]
    simp only [less, and_true]
    omega
  · have more : ¬ byteOf (m.natAbs % 10).digitChar < (32 : UInt8) :=
      UInt8.not_lt.mpr (UInt8.le_trans (by decide) (digit m.natAbs).2.1)
    rw [if_neg (by omega), if_pos few']
    simp only [more, and_false, or_false]
    omega
  · rw [if_neg (by omega), if_neg (by omega), digitLt (Nat.mod_lt _ (by decide)) (Nat.mod_lt _ (by decide))]
    omega

theorem microLt (lowM : -1000000 < m) (highM : m < 1000000) (lowN : -1000000 < n) (highN : n < 1000000) :
    microShown m < microShown n ↔ rank m < rank n := by
  unfold rank
  rcases Int.lt_or_le m 0 with negM | posM <;> rcases Int.lt_or_le n 0 with negN | posN
  · rw [microLtNegative lowM negM lowN negN, if_neg (by omega), if_neg (by omega)]
    omega
  · obtain ⟨k, c, text, _⟩ := microNegative lowM negM
    have bound := keyBound (k := m.natAbs) (by omega)
    rw [text, microPositive posN highN, if_neg (by omega), if_pos posN]
    exact iff_of_true (signLt 5 _ _ _).1 (by omega)
  · obtain ⟨k, c, text, _⟩ := microNegative lowN negN
    have bound := keyBound (k := n.natAbs) (by omega)
    rw [text, microPositive posM highM, if_pos posM, if_neg (by omega)]
    exact iff_of_false (signLt 5 _ _ _).2 (by omega)
  · rw [microPositive posM highM, microPositive posN highN, appendLt (by simp), fixedLt (by omega) (by omega),
      if_pos posM, if_pos posN]
    simp only [List.lt_irrefl, and_false, or_false]
    omega

theorem microEq (lowM : -1000000 < m) (highM : m < 1000000) (lowN : -1000000 < n) (highN : n < 1000000) :
    microShown m = microShown n ↔ m = n := by
  refine ⟨fun equal => rankInj lowM lowN ?_, fun equal => by rw [equal]⟩
  have forward := microLt lowM highM lowN highN
  have backward := microLt lowN highN lowM highM
  simp only [equal, List.lt_irrefl, false_iff] at forward backward
  omega

end

section
variable {localtime : Int → Tm} {a b : Timestamp}

theorem stampSpec (garbage : Storage kSmallBuffer) (l : Logger) {now : Timestamp}
    (calendar : Calendar (localtime (seconds now))) :
    stamp localtime garbage l now = some (minuteText (localtime (seconds now)) ++ microShown (micros now)) := by
  let whole : Logger := { l with now, tm := localtime (seconds now) }
  have same : whole.formatTime.flatMap rendered = whole.formatTime.flatMap printed := by
    simp only [Logger.formatTime, List.flatMap_cons, List.flatMap_nil, printed, rendered]
  have text : whole.formatTime.flatMap printed =
      minuteText (localtime (seconds now)) ++ microShown (micros now) := by
    rw [← tTimeSpec calendar]
    simp only [Logger.formatTime, List.flatMap_cons, List.flatMap_nil, printed, rendered, List.append_nil, whole,
      Logger.microText, microShown, micros]
  have short : (microShown (micros now)).length ≤ 7 := List.length_take_le 7 _
  have length : (minuteText (localtime (seconds now))).length = 17 := by simp [minuteText]
  have small : (whole.formatTime.flatMap rendered).length + kMaxNumericSize ≤ kSmallBuffer := by
    rw [same, text, List.length_append, length]
    exact Nat.le_trans (Nat.add_le_add_right (Nat.add_le_add_left short 17) _) (by decide)
  have room : (FixedBuffer.make garbage).cur + (whole.formatTime.flatMap rendered).length + kMaxNumericSize ≤
      kSmallBuffer := by
    rw [FixedBuffer.make, Nat.zero_add]
    exact small
  obtain ⟨t, ok, content⟩ := insertAllSpec (s := ⟨.make garbage⟩) room
  rw [FixedBuffer.makeContent, List.nil_append, text] at content
  have done : stamp localtime garbage l now = some t.buffer.content := by
    rw [stamp, show LogStream.insertAll _ _ = some t from ok]
    rfl
  rw [done, content]

theorem microsBounds (now : Timestamp) : -1000000 < micros now ∧ micros now < 1000000 := by
  have size : (micros now).natAbs = now.microSecondsSinceEpoch.natAbs % 1000000 := Int.natAbs_tmod _ _
  omega

theorem secondsLt (differ : seconds a ≠ seconds b) :
    a.microSecondsSinceEpoch < b.microSecondsSinceEpoch ↔ seconds a < seconds b := by
  constructor
  · intro before
    have order : seconds a ≤ seconds b := Int.tdiv_le_tdiv (by decide) (Int.le_of_lt before)
    omega
  · intro before
    by_contra after
    have order : seconds b ≤ seconds a := Int.tdiv_le_tdiv (by decide) (Int.not_lt.mp after)
    omega

theorem tellsIff (garbage : Storage kSmallBuffer) (l : Logger) (left : Calendar (localtime (seconds a)))
    (right : Calendar (localtime (seconds b))) :
    Tells localtime garbage l a b ↔ Apart localtime a b := by
  obtain ⟨lowA, highA⟩ := microsBounds a
  obtain ⟨lowB, highB⟩ := microsBounds b
  have length : (minuteText (localtime (seconds a))).length = (minuteText (localtime (seconds b))).length := by
    simp [minuteText]
  have equal : minuteText (localtime (seconds a)) ++ microShown (micros a) =
      minuteText (localtime (seconds b)) ++ microShown (micros b) ↔
      minute (localtime (seconds a)) = minute (localtime (seconds b)) ∧ micros a = micros b :=
    (appendEq length).trans (and_congr (minuteTextEq left right) (microEq lowA highA lowB highB))
  have less : minuteText (localtime (seconds a)) ++ microShown (micros a) <
      minuteText (localtime (seconds b)) ++ microShown (micros b) ↔
      minute (localtime (seconds a)) < minute (localtime (seconds b)) ∨
        minute (localtime (seconds a)) = minute (localtime (seconds b)) ∧ rank (micros a) < rank (micros b) :=
    (appendLt length).trans
      (or_congr (minuteTextLt left right) (and_congr (minuteTextEq left right) (microLt lowA highA lowB highB)))
  have shown : Tells localtime garbage l a b ↔
      ¬ (minute (localtime (seconds a)) = minute (localtime (seconds b)) ∧ micros a = micros b) ∧
      (Ordered localtime a b → (a.microSecondsSinceEpoch < b.microSecondsSinceEpoch ↔
        minute (localtime (seconds a)) < minute (localtime (seconds b)) ∨
          minute (localtime (seconds a)) = minute (localtime (seconds b)) ∧ rank (micros a) < rank (micros b))) := by
    rw [Tells, stampSpec garbage l left, stampSpec garbage l right]
    simp only [Option.some.injEq, exists_and_left, exists_eq_left', Ne, equal, less]
  rw [shown, Apart]
  by_cases same : minute (localtime (seconds a)) = minute (localtime (seconds b))
  · simp only [same, true_and, ne_eq, not_true, false_or, List.lt_irrefl]
  · refine iff_of_true ⟨fun both => same both.1, fun ordered => ?_⟩ (.inl same)
    have differ : seconds a ≠ seconds b := fun equal => same (by rw [equal])
    have sizes : (minute (localtime (seconds a))).length = (minute (localtime (seconds b))).length := rfl
    rw [secondsLt differ, show seconds a < seconds b ↔ _ from ordered, fields, fields, appendLt sizes]
    simp only [same, false_and, or_false]

end

/- An injective calendar: the first day of 1970 in UTC, and the other days in years of
their own. -/
def firstDay (s : Int) : Tm := ⟨70 + s / 86400, 0, 1, s % 86400 / 3600, s % 3600 / 60, s % 60⟩

theorem tellsIffSample : Tells firstDay (.zero kSmallBuffer) infoSample ⟨0⟩ ⟨61000000⟩ := by
  refine (tellsIff (.zero kSmallBuffer) infoSample ?_ ?_).mpr (.inl (by decide))
  · exact ⟨by decide, by decide, by decide, by decide, by decide, by decide⟩
  · exact ⟨by decide, by decide, by decide, by decide, by decide, by decide⟩

theorem secondsCutOff : Function.Injective firstDay ∧ seconds ⟨0⟩ ≠ seconds ⟨1000000⟩ ∧
    stamp firstDay (.zero kSmallBuffer) infoSample ⟨0⟩ = some (ascii "1970/01/01 00:00:000000 ") ∧
    stamp firstDay (.zero kSmallBuffer) infoSample ⟨1000000⟩ = some (ascii "1970/01/01 00:00:000000 ") ∧
    ¬ Tells firstDay (.zero kSmallBuffer) infoSample ⟨0⟩ ⟨1000000⟩ := by
  have first : stamp firstDay (.zero kSmallBuffer) infoSample ⟨0⟩ = some (ascii "1970/01/01 00:00:000000 ") := by
    rw [stampSpec _ _ ⟨by decide, by decide, by decide, by decide, by decide, by decide⟩]
    decide
  have second : stamp firstDay (.zero kSmallBuffer) infoSample ⟨1000000⟩ =
      some (ascii "1970/01/01 00:00:000000 ") := by
    rw [stampSpec _ _ ⟨by decide, by decide, by decide, by decide, by decide, by decide⟩]
    decide
  refine ⟨fun s t same => ?_, by decide, first, second, ?_⟩
  · simp only [firstDay, Tm.mk.injEq] at same
    omega
  · rintro ⟨p, q, left, right, differ, _⟩
    exact differ (Option.some.inj ((left.symm.trans first).trans (second.symm.trans right)))

end TinyNetwork.LogTimes
