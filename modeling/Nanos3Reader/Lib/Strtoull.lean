import Nanos3Reader.Lib.Numerals
import Nanos3Reader.Lib.Strptime

/-!
# `strtoull` in base ten

The C function skips blanks, takes a sign or none, and then the longest run of digits. A number out
of range is read as the greatest one in range, and a minus sign negates in 64 bits: every text of
blanks, a sign and digits is a number, and none of them is negative.
-/

open ByteText Numerals

open Calendar (isSpace)

namespace Strtoull

/-- Whether there is a minus sign, and what follows the sign. -/
def takeSign : Bytes → Bool × Bytes
  | 45 :: s => (true, s)
  | 43 :: s => (false, s)
  | s => (false, s)

/-- The 64 bits for a number with or without a minus sign. -/
def saturate (negative : Bool) (n : ℕ) : UInt64 :=
  if 2 ^ 64 ≤ n then .ofNat (2 ^ 64 - 1)
  else if negative then -.ofNat n
  else .ofNat n

/-- The number, and the text behind it; where there is none, the text from its start. -/
def strtoull (s : Bytes) : UInt64 × Bytes :=
  let (negative, t) := takeSign (s.dropWhile isSpace)
  let digits := t.takeWhile fun c ↦ IsDecimalDigit c
  if digits = [] then (0, s)
  else (saturate negative (value digits), t.dropWhile fun c ↦ IsDecimalDigit c)

/-! ## The texts it takes whole -/

/-- A text of blanks, a sign or none, and digits. -/
structure IsIntegerText (s blanks sign digits : Bytes) : Prop where
  eq : s = blanks ++ (sign ++ digits)
  blank : ∀ c ∈ blanks, isSpace c = true
  sign : sign = [] ∨ sign = [43] ∨ sign = [45]
  numeral : IsNumeral digits

theorem isSpace_eq_false {c : UInt8} (h : IsDecimalDigit c ∨ c = 43 ∨ c = 45) :
    isSpace c = false := by
  have hlow : ∀ c : UInt8, 43 ≤ c → isSpace c = false := by
    intro c hc
    have hge := UInt8.le_iff_toNat_le.mp hc
    have h32 : c ≠ 32 := by
      rintro rfl
      simp at hge
    have h13 : ¬c ≤ 13 := fun hle ↦ by
      have := UInt8.le_iff_toNat_le.mp hle
      simp at this hge
      omega
    simp [isSpace, h32, h13]
  rcases h with h | rfl | rfl
  · exact hlow c (UInt8.le_trans (show (43 : UInt8) ≤ 48 by decide) h.1)
  · exact hlow 43 (by decide)
  · exact hlow 45 (by decide)

theorem takeSign_of_isDecimalDigit {c : UInt8} (h : IsDecimalDigit c) (s : Bytes) :
    takeSign (c :: s) = (false, c :: s) := by
  rw [takeSign.eq_def]
  split
  · next heq =>
    obtain ⟨rfl, -⟩ := List.cons.inj heq
    exact absurd h (by decide)
  · next heq =>
    obtain ⟨rfl, -⟩ := List.cons.inj heq
    exact absurd h (by decide)
  · rfl

theorem takeSign_eq (s : Bytes) : ∃ sign, (sign = [] ∨ sign = [43] ∨ sign = [45]) ∧
    s = sign ++ (takeSign s).2 ∧ (takeSign s).1 = decide (sign = [45]) := by
  rw [takeSign.eq_def]
  split
  · exact ⟨[45], .inr (.inr rfl), rfl, rfl⟩
  · exact ⟨[43], .inr (.inl rfl), rfl, rfl⟩
  · exact ⟨[], .inl rfl, rfl, rfl⟩

namespace IsIntegerText

variable {s blanks sign digits : Bytes}

theorem takeSign_append (h : IsIntegerText s blanks sign digits) :
    takeSign (sign ++ digits) = (decide (sign = [45]), digits) := by
  obtain ⟨hne, hdigits⟩ := h.numeral
  rcases h.sign with rfl | rfl | rfl
  · obtain ⟨c, t, rfl⟩ := List.exists_cons_of_ne_nil hne
    exact takeSign_of_isDecimalDigit (hdigits c List.mem_cons_self) t
  · rfl
  · rfl

theorem dropWhile_isSpace (h : IsIntegerText s blanks sign digits) :
    s.dropWhile isSpace = sign ++ digits := by
  obtain ⟨hne, hdigits⟩ := h.numeral
  rw [h.eq, List.dropWhile_append_of_pos h.blank]
  rcases h.sign with rfl | rfl | rfl
  · obtain ⟨c, t, rfl⟩ := List.exists_cons_of_ne_nil hne
    rw [List.nil_append, List.dropWhile_cons_of_neg]
    simp [isSpace_eq_false (.inl (hdigits c List.mem_cons_self))]
  · rfl
  · rfl

/-- **Such a text is taken whole.** -/
theorem strtoull_eq (h : IsIntegerText s blanks sign digits) :
    strtoull s = (saturate (decide (sign = [45])) (value digits), []) := by
  have htake : digits.takeWhile (fun c ↦ decide (IsDecimalDigit c)) = digits :=
    List.takeWhile_eq_self_iff.mpr fun c hc ↦ decide_eq_true (h.numeral.2 c hc)
  have hdrop : digits.dropWhile (fun c ↦ decide (IsDecimalDigit c)) = [] :=
    List.dropWhile_eq_nil_iff.mpr fun c hc ↦ decide_eq_true (h.numeral.2 c hc)
  rw [strtoull, h.dropWhile_isSpace, h.takeSign_append]
  dsimp only
  rw [htake, hdrop, if_neg h.numeral.1]

theorem unique {blanks' sign' digits' : Bytes} (h : IsIntegerText s blanks sign digits)
    (h' : IsIntegerText s blanks' sign' digits') :
    blanks = blanks' ∧ sign = sign' ∧ digits = digits' := by
  have hdrop : sign ++ digits = sign' ++ digits' := by
    rw [← h.dropWhile_isSpace, h'.dropWhile_isSpace]
  have hdigits : digits = digits' := by
    have htake := h.takeSign_append
    rw [hdrop, h'.takeSign_append] at htake
    exact (Prod.mk.inj htake).2.symm
  have hsign : sign = sign' := List.append_cancel_right (hdigits ▸ hdrop)
  refine ⟨List.append_cancel_right (?_ : blanks ++ (sign' ++ digits') = _), hsign, hdigits⟩
  rw [← h'.eq, ← hdrop, ← h.eq]

end IsIntegerText

theorem isIntegerText_self {s : Bytes} (hs : IsNumeral s) : IsIntegerText s [] [] s where
  eq := rfl
  blank := nofun
  sign := .inl rfl
  numeral := hs

/-- **Nothing else is taken whole.** -/
theorem exists_isIntegerText {s : Bytes} (hrest : (strtoull s).2 = []) (hs : s ≠ []) :
    ∃ blanks sign digits, IsIntegerText s blanks sign digits := by
  obtain ⟨sign, hsign, heq, -⟩ := takeSign_eq (s.dropWhile isSpace)
  rw [strtoull] at hrest
  dsimp only at hrest
  split at hrest
  · exact absurd hrest hs
  · next hne =>
    refine ⟨s.takeWhile isSpace, sign, (takeSign (s.dropWhile isSpace)).2, ?_, ?_, hsign, ?_, ?_⟩
    · rw [← heq, List.takeWhile_append_dropWhile]
    · exact fun c hc ↦ List.mem_takeWhile_imp hc
    · rintro hnil
      exact hne (by rw [hnil, List.takeWhile_nil])
    · intro c hc
      exact of_decide_eq_true (List.dropWhile_eq_nil_iff.mp hrest c hc)

/-! ## The number -/

theorem saturate_pos_iff {negative : Bool} {n : ℕ} : 0 < (saturate negative n).toNat ↔ 0 < n := by
  rw [saturate]
  split
  · next h => exact iff_of_true (by decide) (lt_of_lt_of_le (by decide) h)
  · next h =>
    have hn : n % 2 ^ 64 = n := Nat.mod_eq_of_lt (not_le.mp h)
    split
    · rw [UInt64.toNat_neg, UInt64.toNat_ofNat', UInt64.size, hn]
      omega
    · rw [UInt64.toNat_ofNat', hn]

theorem toNat_saturate_of_lt {n : ℕ} (h : n < 2 ^ 64) : (saturate false n).toNat = n := by
  rw [saturate, if_neg (not_le.mpr h), if_neg Bool.false_ne_true, UInt64.toNat_ofNat',
    Nat.mod_eq_of_lt h]

end Strtoull
