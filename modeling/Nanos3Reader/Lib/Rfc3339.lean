import Nanos3Reader.Lib.Strptime

/-!
# Internet date-times

A date-time names an instant: a date and a time of day, with an offset from UTC, and a fraction of
the second that may be as long as it likes. The letters in it have no case.
-/

open ByteText

namespace Calendar

/-- How far the local time is ahead of UTC. -/
inductive UtcOffset
  | utc (letter : UInt8)
  | numeric (ahead : Bool) (hour minute : ℕ)
deriving DecidableEq

namespace UtcOffset

def text : UtcOffset → Bytes
  | utc letter => [letter]
  | numeric ahead hour minute =>
    (if ahead then 43 else 45) :: twoDigits hour ++ 58 :: twoDigits minute

/-- In seconds. -/
def seconds : UtcOffset → ℤ
  | utc _ => 0
  | numeric ahead hour minute =>
    if ahead then hour * 3600 + minute * 60 else -(hour * 3600 + minute * 60)

def WellFormed : UtcOffset → Prop
  | utc letter => letter = 90 ∨ letter = 122
  | numeric _ hour minute => hour < 24 ∧ minute < 60

instance : DecidablePred WellFormed
  | utc _ => inferInstanceAs (Decidable (_ ∨ _))
  | numeric _ _ _ => inferInstanceAs (Decidable (_ ∧ _))

theorem abs_seconds_lt {o : UtcOffset} (h : o.WellFormed) : |o.seconds| < 86400 := by
  cases o with
  | utc letter => simp [seconds]
  | numeric ahead hour minute =>
    obtain ⟨hhour, hminute⟩ := h
    rw [seconds, abs_lt]
    split <;> omega

end UtcOffset

/-- No fraction, or a point and digits. -/
def IsFraction (s : Bytes) : Prop :=
  s = [] ∨ (s.head? = some 46 ∧ s.tail ≠ [] ∧ ∀ c ∈ s.tail, isDigit c = true)

instance : DecidablePred IsFraction := fun _ ↦ inferInstanceAs (Decidable (_ ∨ _))

/-- A date-time. The second 60 is that of a leap second. -/
structure DateTime where
  date : Date
  hour : ℕ
  minute : ℕ
  second : ℕ
  separator : UInt8 := 84
  fraction : Bytes := []
  offset : UtcOffset
  year_lt : date.year < 10000 := by decide
  month_ok : 1 ≤ date.month ∧ date.month ≤ 12 := by decide
  day_ok : 1 ≤ date.day ∧ date.day ≤ monthLength date.year date.month := by decide
  hour_lt : hour < 24 := by decide
  minute_lt : minute < 60 := by decide
  second_le : second ≤ 60 := by decide
  separator_ok : separator = 84 ∨ separator = 116 := by decide
  fraction_ok : IsFraction fraction := by decide
  offset_ok : offset.WellFormed := by decide

namespace DateTime

variable (t : DateTime)

/-- What follows the second. -/
def tail : Bytes := t.fraction ++ t.offset.text

def text : Bytes :=
  fourDigits t.date.year ++ 45 :: (twoDigits t.date.month ++ 45 :: (twoDigits t.date.day ++
    t.separator :: (twoDigits t.hour ++ 58 :: (twoDigits t.minute ++ 58 ::
      (twoDigits t.second ++ t.tail)))))

/-- The second of the instant, counted from the Epoch. -/
def seconds : ℤ :=
  ((t.date.number : ℤ) - epoch.number) * 86400 + t.hour * 3600 + t.minute * 60 + t.second
    - t.offset.seconds

/-- The time of day and the date, in the fields of a `struct tm`. -/
def tm : Tm := ⟨t.date.year - 1900, t.date.month - 1, t.date.day, t.hour, t.minute, t.second⟩

theorem day_le : t.date.day ≤ 31 := by
  refine t.day_ok.2.trans ?_
  rw [monthLength]
  split <;> split <;> omega

theorem timegm_tm : timegm t.tm = t.seconds + t.offset.seconds := by
  rw [tm, timegm_eq t.month_ok.1 t.month_ok.2 t.day_ok.1, seconds]
  omega

/-- **A date-time is read up to its second**, if the letter between date and time is upper case. -/
theorem strptime_text : strptime (utf8 "%Y-%m-%dT%H:%M:%S") t.text {}
    = if t.separator = 84 then some (t.tm, t.tail) else none := by
  have hformat : utf8 "%Y-%m-%dT%H:%M:%S"
      = [37, 89, 45, 37, 109, 45, 37, 100, 84, 37, 72, 58, 37, 77, 58, 37, 83] := by decide
  have hliteral (c : UInt8) (h : c = 45 ∨ c = 58 ∨ c = 84) : isSpace c = false ∧ c ≠ 37 := by
    rcases h with rfl | rfl | rfl <;> decide
  have hdash := hliteral 45 (.inl rfl)
  have hcolon := hliteral 58 (.inr (.inl rfl))
  have hletter := hliteral 84 (.inr (.inr rfl))
  have hmonth := t.month_ok
  have hday := t.day_ok.1
  have hday' := t.day_le
  have hhour := t.hour_lt
  have hminute := t.minute_lt
  have hsecond := t.second_le
  rw [hformat, text, strptime_conversion rfl _ (getNumber_fourDigits t.year_lt _),
    strptime_literal hdash.1 hdash.2, if_pos rfl,
    strptime_conversion rfl _ (getNumber_twoDigits hmonth.1 hmonth.2 (by omega) _),
    strptime_literal hdash.1 hdash.2, if_pos rfl,
    strptime_conversion rfl _ (getNumber_twoDigits hday hday' (by omega) _),
    strptime_literal hletter.1 hletter.2]
  refine if_congr Iff.rfl ?_ rfl
  rw [strptime_conversion rfl _
      (getNumber_twoDigits (Nat.zero_le _) (Nat.le_sub_one_of_lt hhour) (by omega) _),
    strptime_literal hcolon.1 hcolon.2, if_pos rfl,
    strptime_conversion rfl _
      (getNumber_twoDigits (Nat.zero_le _) (Nat.le_sub_one_of_lt hminute) (by omega) _),
    strptime_literal hcolon.1 hcolon.2, if_pos rfl,
    strptime_conversion rfl _
      (getNumber_twoDigits (Nat.zero_le _) (hsecond.trans (by decide : 60 ≤ 61)) (by omega) _)]
  rfl

theorem text_ne_nil : t.text ≠ [] := by
  simp [text, fourDigits, twoDigits]

theorem zero_notMem_twoDigits {n : ℕ} (hn : n < 100) : 0 ∉ twoDigits n := by
  have hdigit : ∀ d < 10, digit d ≠ 0 := by decide
  simp [twoDigits, (hdigit (n / 10) (by omega)).symm, (hdigit (n % 10) (by omega)).symm]

theorem zero_notMem_tail : 0 ∉ t.tail := by
  rw [tail, List.mem_append, not_or]
  constructor
  · rcases t.fraction_ok with h | ⟨hhead, -, hdigits⟩
    · simp [h]
    · obtain ⟨rest, h⟩ := List.head?_eq_some_iff.mp hhead
      have hzero : 0 ∉ rest := fun hmem ↦ absurd (hdigits 0 (by simpa [h] using hmem)) (by decide)
      simp [h, hzero]
  · have hoffset := t.offset_ok
    cases ho : t.offset with
    | utc letter =>
      rw [ho] at hoffset
      rcases hoffset with rfl | rfl <;> decide
    | numeric ahead hour minute =>
      rw [ho] at hoffset
      obtain ⟨hhour, hminute⟩ := hoffset
      have hsign : (0 : UInt8) ≠ if ahead then 43 else 45 := by split <;> decide
      simp [UtcOffset.text, hsign, zero_notMem_twoDigits (hhour.trans (by decide : 24 < 100)),
        zero_notMem_twoDigits (hminute.trans (by decide : 60 < 100))]

theorem zero_notMem_text : 0 ∉ t.text := by
  have hyear := t.year_lt
  have hmonth := t.month_ok
  have hday := t.day_le
  have hhour := t.hour_lt
  have hminute := t.minute_lt
  have hsecond := t.second_le
  have hseparator : (0 : UInt8) ≠ t.separator := by
    rcases t.separator_ok with h | h <;> rw [h] <;> decide
  simp only [text, fourDigits, List.mem_append, List.mem_cons, not_or]
  refine ⟨⟨zero_notMem_twoDigits ?_, zero_notMem_twoDigits ?_⟩, by decide, zero_notMem_twoDigits ?_,
    by decide, zero_notMem_twoDigits ?_, hseparator, zero_notMem_twoDigits ?_, by decide,
    zero_notMem_twoDigits ?_, by decide, zero_notMem_twoDigits ?_, t.zero_notMem_tail⟩ <;> omega

end DateTime

end Calendar
