import Nanos3Reader.Lib.Numerals
import Nanos3Reader.Xml

/-!
# Numbers in replies

`parse_u64` computes in 64 bits, and looks before each digit whether the number would still fit. The
look itself cannot go wrong either, and it is exact: no number that fits is turned away. Pages of a
listing are parsed with natural numbers, which `parseU64_eq` shows to be these.
-/

open ByteText Numerals

namespace Nanos3Reader

/-- The loop of `parse_u64` for one character, with the number so far; `none` when it fails. -/
def parseU64Digit (v : UInt64) (c : UInt8) : Option UInt64 :=
  if c < 48 ∨ 57 < c then none
  else
    let d := (c - 48).toUInt64
    if (0xFFFFFFFFFFFFFFFF - d) / 10 < v then none else some (v * 10 + d)

/-- `parse_u64`, and what `out` holds when it returns. -/
def parseU64Into (s : Bytes) (out : UInt64) : Bool × UInt64 :=
  if s = [] then (false, out)
  else
    match s.foldlM parseU64Digit 0 with
    | none => (false, out)
    | some v => (true, v)

/-- None of the operations on the number so far and a digit wraps around; those behind the look at
the bound are done only if it lets the digit pass. -/
structure ExactDigit (v : UInt64) (c : UInt8) : Prop where
  minus : (c - 48).toUInt64.toNat = digit c
  bound : (0xFFFFFFFFFFFFFFFF - (c - 48).toUInt64).toNat = 2 ^ 64 - 1 - digit c
  shift : parseU64Digit v c ≠ none → (v * 10).toNat = v.toNat * 10
  add : parseU64Digit v c ≠ none → (v * 10 + (c - 48).toUInt64).toNat = v.toNat * 10 + digit c

theorem isDecimalDigit_iff {c : UInt8} : ¬(c < 48 ∨ 57 < c) ↔ IsDecimalDigit c := by
  rw [not_or, UInt8.not_lt, UInt8.not_lt, IsDecimalDigit]

theorem toNat_digit {c : UInt8} (h : IsDecimalDigit c) : (c - 48).toUInt64.toNat = digit c := by
  have hle : 48 ≤ c.toNat := UInt8.le_iff_toNat_le.mp h.1
  rw [UInt8.toNat_toUInt64, UInt8.toNat_sub_of_le _ _ h.1, digit]
  rfl

theorem toNat_bound {d : UInt64} (h : d.toNat < 10) :
    (0xFFFFFFFFFFFFFFFF - d).toNat = 2 ^ 64 - 1 - d.toNat := by
  have hle : d ≤ 0xFFFFFFFFFFFFFFFF := UInt64.le_iff_toNat_le.mpr (by
    have hmax : (0xFFFFFFFFFFFFFFFF : UInt64).toNat = 2 ^ 64 - 1 := rfl
    omega)
  rw [UInt64.toNat_sub_of_le _ _ hle]
  rfl

/-- **The look at the bound is exact.** -/
theorem guard_iff {v d : UInt64} (h : d.toNat < 10) :
    (0xFFFFFFFFFFFFFFFF - d) / 10 < v ↔ 2 ^ 64 ≤ v.toNat * 10 + d.toNat := by
  have hten : (10 : UInt64).toNat = 10 := rfl
  rw [UInt64.lt_iff_toNat_lt, UInt64.toNat_div, toNat_bound h, hten]
  omega

theorem parseU64Digit_eq_some {v v' : UInt64} {c : UInt8} (h : parseU64Digit v c = some v') :
    IsDecimalDigit c ∧ v.toNat * 10 + digit c < 2 ^ 64 ∧ v' = v * 10 + (c - 48).toUInt64 := by
  rw [parseU64Digit] at h
  split at h
  · cases h
  · next hc =>
    have hdigit := isDecimalDigit_iff.mp hc
    have hd := toNat_digit hdigit
    dsimp only at h
    split at h
    · cases h
    · next hfits =>
      rw [guard_iff (hd ▸ digit_lt hdigit), hd] at hfits
      exact ⟨hdigit, by omega, (Option.some.inj h).symm⟩

theorem toNat_mul_ten {v : UInt64} (h : v.toNat * 10 < 2 ^ 64) : (v * 10).toNat = v.toNat * 10 := by
  have hten : (10 : UInt64).toNat = 10 := rfl
  rw [UInt64.toNat_mul, hten, Nat.mod_eq_of_lt h]

theorem toNat_mul_ten_add {v : UInt64} {c : UInt8} (hc : IsDecimalDigit c)
    (h : v.toNat * 10 + digit c < 2 ^ 64) :
    (v * 10 + (c - 48).toUInt64).toNat = v.toNat * 10 + digit c := by
  rw [UInt64.toNat_add, toNat_mul_ten (by omega), toNat_digit hc, Nat.mod_eq_of_lt h]

theorem readsBelow_parseU64Digit : ReadsBelow (2 ^ 64) UInt64.toNat parseU64Digit where
  map_step v c := by
    split
    · next hin =>
      have hd := toNat_digit hin.1
      have hfits : ¬(0xFFFFFFFFFFFFFFFF - (c - 48).toUInt64) / 10 < v := by
        rw [guard_iff (hd ▸ digit_lt hin.1), hd]
        omega
      rw [parseU64Digit, if_neg (isDecimalDigit_iff.mpr hin.1), if_neg hfits, Option.map_some,
        toNat_mul_ten_add hin.1 hin.2]
    · next hout =>
      rcases hstep : parseU64Digit v c with _ | v'
      · rfl
      · obtain ⟨hdigit, hfits, -⟩ := parseU64Digit_eq_some hstep
        exact absurd ⟨hdigit, hfits⟩ hout

theorem exactDigit (v : UInt64) {c : UInt8} (hc : IsDecimalDigit c) : ExactDigit v c := by
  have hd := toNat_digit hc
  have hstep (h : parseU64Digit v c ≠ none) : v.toNat * 10 + digit c < 2 ^ 64 := by
    obtain ⟨v', hv'⟩ := Option.ne_none_iff_exists'.mp h
    exact (parseU64Digit_eq_some hv').2.1
  refine ⟨hd, ?_, fun h ↦ toNat_mul_ten ?_, fun h ↦ toNat_mul_ten_add hc (hstep h)⟩
  · rw [toNat_bound (hd ▸ digit_lt hc), hd]
  · have hfits := hstep h
    omega

/-- **`parse_u64` is exact.** It accepts the numerals below `2 ^ 64`, of any length, and yields
their values; otherwise it leaves the output alone. On the way nothing wraps around. -/
theorem parseU64_exact (s : Bytes) (out : UInt64) :
    ((parseU64Into s out).1 = true ↔ IsNumeral s ∧ value s < 2 ^ 64) ∧
    ((parseU64Into s out).1 = true → (parseU64Into s out).2.toNat = value s) ∧
    ((parseU64Into s out).1 = false → (parseU64Into s out).2 = out) ∧
    ∀ front c rest v, s = front ++ c :: rest → front.foldlM parseU64Digit 0 = some v →
      IsDecimalDigit c → ExactDigit v c := by
  have hzero : UInt64.toNat 0 = 0 := rfl
  have hread := readsBelow_parseU64Digit.isSome_foldlM hzero (by decide) s
  refine ⟨?_, ?_, ?_, fun front c rest v _ _ hc ↦ exactDigit v hc⟩
  · rw [parseU64Into, IsNumeral, and_assoc, ← hread]
    split
    · next hnil => simp [hnil]
    · next hne =>
      rw [and_iff_right hne]
      cases s.foldlM parseU64Digit 0 <;> simp
  · rw [parseU64Into]
    split
    · simp
    · split
      · simp
      · next v hv =>
        exact fun _ ↦ (readsBelow_parseU64Digit.foldlM_eq_some hzero (by decide) hv).2.2
  · rw [parseU64Into]
    split
    · simp
    · split <;> simp

/-! ## In listings -/

theorem readsBelow_parseDigit : ReadsBelow (2 ^ 64) id parseDigit where
  map_step v c := by
    have hfits (hc : IsDecimalDigit c) :
        (2 ^ 64 - 1 - digit c) / 10 < v ↔ ¬v * 10 + digit c < 2 ^ 64 := by
      have hlt := digit_lt hc
      omega
    rw [Option.map_id, id_eq, id_eq, parseDigit]
    split
    · next hc => rw [if_neg fun hin ↦ isDecimalDigit_iff.mpr hin.1 hc]
    · next hc =>
      have hdigit := isDecimalDigit_iff.mp hc
      simp only [hdigit, true_and]
      rw [show c.toNat - 48 = digit c from rfl]
      split
      · next hlarge => rw [if_neg ((hfits hdigit).mp hlarge)]
      · next hsmall => rw [if_pos (not_not.mp (mt (hfits hdigit).mpr hsmall))]

/-- **The sizes in a listing are read so.** -/
theorem parseU64_eq (s : Bytes) (out : UInt64) : parseU64 s
    = if (parseU64Into s out).1 then some (parseU64Into s out).2.toNat else none := by
  rw [parseU64, parseU64Into]
  split
  · rfl
  · have hnat := readsBelow_parseDigit.map_foldlM rfl (by decide) s
    have hword := readsBelow_parseU64Digit.map_foldlM UInt64.toNat_zero (by decide) s
    rw [Option.map_id, id_eq, ← hword] at hnat
    rw [hnat]
    cases s.foldlM parseU64Digit 0 <;> rfl

end Nanos3Reader
