import Mathlib.Algebra.BigOperators.Group.Finset.Basic
import Mathlib.Data.Finset.Range
import Mathlib.Tactic.IntervalCases
import Mathlib.Tactic.LinearCombination

/-!
# The calendar

Days are counted in the Gregorian calendar, extended to years before it, and seconds from the Epoch
as POSIX counts them. POSIX gives a formula for that; a day's number here is the number of days
before it, and the formula is shown to give the same.
-/

open Finset

namespace Calendar

def IsLeap (y : ℕ) : Prop := y % 4 = 0 ∧ (y % 100 ≠ 0 ∨ y % 400 = 0)

instance : DecidablePred IsLeap := fun _ ↦ inferInstanceAs (Decidable (_ ∧ _))

def yearLength (y : ℕ) : ℕ := if IsLeap y then 366 else 365

/-- Months are counted from 1. -/
def monthLength (y m : ℕ) : ℕ :=
  if m = 2 then if IsLeap y then 29 else 28
  else if m = 4 ∨ m = 6 ∨ m = 9 ∨ m = 11 then 30 else 31

/-- A day of a year from 0 on. -/
structure Date where
  year : ℕ
  month : ℕ
  day : ℕ
deriving DecidableEq

/-- The days before it since the beginning of year 0. -/
def Date.number (d : Date) : ℕ :=
  ∑ y ∈ range d.year, yearLength y + ∑ m ∈ range (d.month - 1), monthLength d.year (m + 1)
    + (d.day - 1)

/-- The Epoch. -/
def epoch : Date := ⟨1970, 1, 1⟩

/-! ## C time -/

/-- `struct tm`. Years are counted from 1900, months from 0. -/
structure Tm where
  year : ℤ := 0
  mon : ℤ := 0
  mday : ℤ := 0
  hour : ℤ := 0
  min : ℤ := 0
  sec : ℤ := 0
deriving DecidableEq

/-- The days before each month of a year that is not a leap year. -/
def cumulativeDays : List ℤ := [0, 31, 59, 90, 120, 151, 181, 212, 243, 273, 304, 334]

/-- The day of the year, counted from 0. -/
def Tm.yday (tm : Tm) : ℤ :=
  cumulativeDays.getD tm.mon.toNat 0 + (tm.mday - 1)
    + if 2 ≤ tm.mon ∧ IsLeap (tm.year + 1900).toNat then 1 else 0

/-- `timegm`: the seconds since the Epoch by the formula of POSIX. -/
def timegm (tm : Tm) : ℤ :=
  tm.sec + tm.min * 60 + tm.hour * 3600 + tm.yday * 86400 + (tm.year - 70) * 31536000
    + (tm.year - 69) / 4 * 86400 - (tm.year - 1) / 100 * 86400 + (tm.year + 299) / 400 * 86400

theorem sum_yearLength (y : ℕ) :
    ∑ k ∈ range y, yearLength k + (y + 99) / 100 = 365 * y + (y + 3) / 4 + (y + 399) / 400 := by
  induction y with
  | zero => rfl
  | succ y ih =>
    rw [sum_range_succ, yearLength]
    by_cases hleap : IsLeap y
    · rw [if_pos hleap]
      rw [IsLeap] at hleap
      omega
    · rw [if_neg hleap]
      rw [IsLeap, not_and_or, not_or] at hleap
      rcases hleap with h4 | ⟨h100, h400⟩
      · have h100 : (y + 1 + 99) / 100 = (y + 99) / 100 := by omega
        have h400 : (y + 1 + 399) / 400 = (y + 399) / 400 := by omega
        omega
      · have h4 : (y + 1 + 3) / 4 = (y + 3) / 4 + 1 := by omega
        have h400' : (y + 1 + 399) / 400 = (y + 399) / 400 := by omega
        omega

theorem cumulativeDays_succ (y : ℕ) {m : ℕ} (hm : m + 1 < 12) :
    cumulativeDays.getD (m + 1) 0 + (if 2 ≤ m + 1 ∧ IsLeap y then 1 else 0)
      = cumulativeDays.getD m 0 + (if 2 ≤ m ∧ IsLeap y then 1 else 0) + monthLength y (m + 1) := by
  have hmonth : m < 11 := by omega
  rw [monthLength]
  by_cases hleap : IsLeap y
  · simp only [hleap, and_true, if_true]
    interval_cases m <;> rfl
  · simp only [hleap, and_false, if_false]
    interval_cases m <;> rfl

theorem sum_monthLength (y : ℕ) {m : ℕ} (hm : m < 12) :
    ((∑ k ∈ range m, monthLength y (k + 1) : ℕ) : ℤ)
      = cumulativeDays.getD m 0 + if 2 ≤ m ∧ IsLeap y then 1 else 0 := by
  induction m with
  | zero => simp [cumulativeDays]
  | succ m ih =>
    have hbefore := ih (by omega)
    rw [sum_range_succ, Nat.cast_add, hbefore, cumulativeDays_succ y hm]

theorem number_epoch : epoch.number = 719528 := by
  have hyears := sum_yearLength 1970
  have hmonths : ∑ m ∈ range (epoch.month - 1), monthLength epoch.year (m + 1) = 0 := rfl
  rw [Date.number, hmonths]
  simp only [epoch] at *
  omega

/-- **The formula counts the days since the Epoch.** -/
theorem timegm_eq {d : Date} (hm : 1 ≤ d.month) (hm' : d.month ≤ 12) (hd : 1 ≤ d.day)
    (hour min sec : ℕ) :
    timegm ⟨d.year - 1900, d.month - 1, d.day, hour, min, sec⟩
      = ((d.number : ℤ) - epoch.number) * 86400 + hour * 3600 + min * 60 + sec := by
  have hyears : ((d.year : ℤ) - 1900 - 70) * 365 + ((d.year : ℤ) - 1900 - 69) / 4
        - ((d.year : ℤ) - 1900 - 1) / 100 + ((d.year : ℤ) - 1900 + 299) / 400
      = (∑ y ∈ range d.year, yearLength y : ℕ) - 719528 := by
    have hsum := sum_yearLength d.year
    omega
  have hmonths := sum_monthLength d.year (show d.month - 1 < 12 by omega)
  have hmon : ((d.month : ℤ) - 1).toNat = d.month - 1 := by omega
  have hyear : ((d.year : ℤ) - 1900 + 1900).toNat = d.year := by omega
  have hlate : (2 ≤ (d.month : ℤ) - 1 ∧ IsLeap d.year) ↔ (2 ≤ d.month - 1 ∧ IsLeap d.year) :=
    and_congr_left' (by omega)
  have hyday : Tm.yday ⟨d.year - 1900, d.month - 1, d.day, hour, min, sec⟩
      = ((∑ k ∈ range (d.month - 1), monthLength d.year (k + 1) : ℕ) : ℤ) + (d.day - 1) := by
    rw [Tm.yday, hmonths]
    simp only [hmon, hyear, hlate]
    omega
  rw [timegm, hyday, number_epoch, Date.number]
  dsimp only
  rw [Nat.cast_add, Nat.cast_add, Nat.cast_sub hd]
  linear_combination 86400 * hyears

end Calendar
