import Mathlib.Data.Nat.Digits.Defs
import Nanos3Reader.Lib.ByteText

/-!
# Decimal numerals

A numeral is a text of decimal digits, with leading zeros or without. A reader that goes through it
from the left, and gives up as soon as the number so far is out of bounds, reads just the numerals
that are within bounds: the number never gets smaller on the way.
-/

open ByteText

namespace Numerals

def IsDecimalDigit (c : UInt8) : Prop := 48 ≤ c ∧ c ≤ 57

instance : DecidablePred IsDecimalDigit := fun _ ↦ inferInstanceAs (Decidable (_ ∧ _))

/-- What a digit stands for. -/
def digit (c : UInt8) : ℕ := c.toNat - 48

def AllDigits (s : Bytes) : Prop := ∀ c ∈ s, IsDecimalDigit c

instance : DecidablePred AllDigits := fun s ↦ List.decidableBAll IsDecimalDigit s

@[simp] theorem allDigits_nil : AllDigits [] := List.forall_mem_nil _

theorem allDigits_concat {s : Bytes} {c : UInt8} :
    AllDigits (s ++ [c]) ↔ AllDigits s ∧ IsDecimalDigit c := by
  rw [AllDigits, List.forall_mem_append, List.forall_mem_singleton, AllDigits]

def IsNumeral (s : Bytes) : Prop := s ≠ [] ∧ AllDigits s

instance : DecidablePred IsNumeral := fun _ ↦ inferInstanceAs (Decidable (_ ∧ _))

/-- The number that a text of digits stands for. -/
def value (s : Bytes) : ℕ := Nat.ofDigits 10 (s.reverse.map digit)

@[simp] theorem value_nil : value [] = 0 := rfl

theorem value_concat (s : Bytes) (c : UInt8) : value (s ++ [c]) = value s * 10 + digit c := by
  rw [value, List.reverse_append, List.reverse_singleton, List.singleton_append, List.map_cons,
    Nat.ofDigits_cons, value]
  omega

theorem digit_lt {c : UInt8} (h : IsDecimalDigit c) : digit c < 10 := by
  have hle : c.toNat ≤ 57 := UInt8.le_iff_toNat_le.mp h.2
  rw [digit]
  omega

theorem value_decimal (n : ℕ) : value (decimal n) = n := by
  have hdigit : ∀ n < 10, value [48 + n.toUInt8] = n := by decide
  induction n using Nat.strongRecOn with
  | ind n ih =>
    by_cases hn : n < 10
    · rw [decimal_of_lt hn, hdigit n hn]
    · have hlast : n % 10 < 10 := Nat.mod_lt n (by decide)
      have hone := hdigit (n % 10) hlast
      rw [← List.nil_append [48 + (n % 10).toUInt8], value_concat, value_nil] at hone
      rw [decimal_of_ge (not_lt.mp hn), decimal_of_lt hlast, value_concat, ih (n / 10) (by omega)]
      omega

/-! ## Readers with a bound -/

/-- A reader that takes one byte more, and stands for the number `read` of what it has taken. It
takes digits only, and only as long as the number is below `bound`. -/
structure ReadsBelow {V : Type*} (bound : ℕ) (read : V → ℕ) (step : V → UInt8 → Option V) :
    Prop where
  map_step : ∀ v c, (step v c).map read
    = if IsDecimalDigit c ∧ read v * 10 + digit c < bound then some (read v * 10 + digit c)
      else none

namespace ReadsBelow

variable {V : Type*} {bound : ℕ} {read : V → ℕ} {step : V → UInt8 → Option V} {v₀ v : V}

/-- **A reader with a bound** reads the numerals below it, to their values; by induction on the
text, from the end. -/
theorem map_foldlM (h : ReadsBelow bound read step) (h0 : read v₀ = 0) (hbound : 0 < bound)
    (s : Bytes) : (s.foldlM step v₀).map read
      = if AllDigits s ∧ value s < bound then some (value s) else none := by
  induction s using List.reverseRecOn with
  | nil => simp [h0, hbound]
  | append_singleton s c ih =>
    rw [List.foldlM_append, value_concat]
    simp only [List.foldlM_cons, List.foldlM_nil, bind_pure, allDigits_concat]
    rcases hs : s.foldlM step v₀ with _ | v
    · rw [hs, Option.map_none] at ih
      -- what has been given up on is not taken up again
      have hout : ¬(AllDigits s ∧ value s < bound) := fun hin ↦ by
        rw [if_pos hin] at ih
        cases ih
      rw [Option.bind_eq_bind, Option.bind_none, Option.map_none, if_neg]
      exact fun hin ↦ hout ⟨hin.1.1, by omega⟩
    · rw [hs, Option.map_some] at ih
      split at ih
      · next hin =>
        have hdigits : AllDigits s ∧ IsDecimalDigit c ↔ IsDecimalDigit c := and_iff_right hin.1
        rw [Option.bind_eq_bind, Option.bind_some, h.map_step, Option.some.inj ih]
        simp only [hdigits]
      · cases ih

theorem foldlM_eq_some (h : ReadsBelow bound read step) (h0 : read v₀ = 0) (hbound : 0 < bound)
    {s : Bytes} (hs : s.foldlM step v₀ = some v) :
    AllDigits s ∧ value s < bound ∧ read v = value s := by
  have hmap := h.map_foldlM h0 hbound s
  rw [hs, Option.map_some] at hmap
  split at hmap
  · next hin => exact ⟨hin.1, hin.2, Option.some.inj hmap⟩
  · cases hmap

theorem isSome_foldlM (h : ReadsBelow bound read step) (h0 : read v₀ = 0) (hbound : 0 < bound)
    (s : Bytes) :
    (s.foldlM step v₀).isSome ↔ AllDigits s ∧ value s < bound := by
  have hmap := h.map_foldlM h0 hbound s
  rw [← Option.isSome_map, hmap]
  split
  · next hin => exact iff_of_true rfl hin
  · next hout => exact iff_of_false Bool.false_ne_true hout

end ReadsBelow

end Numerals
