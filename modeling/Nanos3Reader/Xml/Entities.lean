import Mathlib.Data.List.Forall2
import Mathlib.Data.Nat.Digits.Defs
import Nanos3Reader.Xml

/-!
# Characters and their spellings

A document may write a character as it is, by its name, or by its number in one of two radices.
`xmlUnescape` works on bytes and looks ahead for a semicolon; here it is shown to read every
sequence of spellings as the UTF-8 of the characters that are spelled.
-/

open ByteText

namespace Nanos3Reader

/-! ## UTF-8 -/

theorem toNat_char_le (c : Char) : c.toNat ≤ 0x10FFFF := by
  rcases c.valid with h | h
  · exact (Nat.le_of_lt h).trans (by decide)
  · exact Nat.le_of_lt_succ h.2

theorem utf8Encode_toNat (c : Char) : utf8Encode c.toNat = String.utf8EncodeChar c := by
  have htail (v : ℕ) : (0x80 ||| v &&& 0x3F).toUInt8 = UInt8.ofNat (v % 0x40 + 0x80) := by
    have hmod : v % 0x40 < 2 ^ 6 := Nat.mod_lt v (by decide)
    rw [show (0x3F : ℕ) = 2 ^ 6 - 1 from rfl, Nat.and_two_pow_sub_one_eq_mod,
      show (0x80 : ℕ) = 2 ^ 6 * 2 from rfl, ← Nat.two_pow_add_eq_or_of_lt hmod, Nat.add_comm]
  have hlead {v : ℕ} (i m : ℕ) (hv : v < 2 ^ i) :
      (2 ^ i * m ||| v).toUInt8 = UInt8.ofNat (v % 2 ^ i + 2 ^ i * m) := by
    rw [Nat.mod_eq_of_lt hv, ← Nat.two_pow_add_eq_or_of_lt hv, Nat.add_comm]
  have hbound := toNat_char_le c
  have htoNat : c.val.toNat = c.toNat := rfl
  simp only [utf8Encode, String.utf8EncodeChar, htoNat]
  generalize c.toNat = v at hbound
  simp only [Nat.lt_succ_iff, htail, Nat.shiftRight_eq_div_pow]
  by_cases h1 : v ≤ 0x7F
  · rw [if_pos h1, if_pos h1]
  · rw [if_neg h1, if_neg h1]
    by_cases h2 : v ≤ 0x7FF
    · rw [if_pos h2, if_pos h2]
      exact congrArg₂ List.cons (hlead 5 6 (by omega)) rfl
    · rw [if_neg h2, if_neg h2]
      by_cases h3 : v ≤ 0xFFFF
      · rw [if_pos h3, if_pos h3]
        exact congrArg₂ List.cons (hlead 4 14 (by omega)) rfl
      · rw [if_neg h3, if_neg h3]
        exact congrArg₂ List.cons (hlead 3 30 (by omega)) rfl

theorem notMem_utf8EncodeChar {c : Char} (h : c ≠ '&') : 38 ∉ String.utf8EncodeChar c := by
  have hne : c.toNat ≠ 38 := fun heq ↦ h (Char.toNat_inj.mp heq)
  have hbound := toNat_char_le c
  have hbyte {v : ℕ} (hv : v < 256) (hne : v ≠ 38) : (38 : UInt8) ≠ UInt8.ofNat v := by
    intro heq
    have hval := congrArg UInt8.toNat heq
    rw [UInt8.toNat_ofNat_of_lt' hv] at hval
    exact hne hval.symm
  have htoNat : c.val.toNat = c.toNat := rfl
  have hcons {v : ℕ} {s : Bytes} (hs : 38 ∉ s) (hv : v < 256) (hne : v ≠ 38) :
      38 ∉ UInt8.ofNat v :: s :=
    List.not_mem_cons_of_ne_of_not_mem (hbyte hv hne) hs
  have hnil : (38 : UInt8) ∉ ([] : Bytes) := List.not_mem_nil
  simp only [String.utf8EncodeChar, htoNat]
  split
  · exact hcons hnil (by omega) hne
  · split
    · exact hcons (hcons hnil (by omega) (by omega)) (by omega) (by omega)
    · split
      · exact hcons (hcons (hcons hnil (by omega) (by omega)) (by omega) (by omega))
          (by omega) (by omega)
      · exact hcons (hcons (hcons (hcons hnil (by omega) (by omega)) (by omega) (by omega))
          (by omega) (by omega)) (by omega) (by omega)

/-! ## Numbers -/

/-- `c` is the digit `d` in a radix up to sixteen; a digit above nine is a letter in either case. -/
def IsDigit (radix : ℕ) (c : UInt8) (d : ℕ) : Prop :=
  d < radix ∧ (d < 10 ∧ c = 48 + d.toUInt8 ∨ 10 ≤ d ∧ (c = 87 + d.toUInt8 ∨ c = 55 + d.toUInt8))

instance (radix : ℕ) (c : UInt8) (d : ℕ) : Decidable (IsDigit radix c d) :=
  inferInstanceAs (Decidable (_ ∧ _))

/-- The text `s` is the number `n` in this radix, behind any number of zeros. -/
def Writes (radix : ℕ) (s : Bytes) (n : ℕ) : Prop :=
  s ≠ [] ∧ ∃ ds, List.Forall₂ (IsDigit radix) s ds ∧ Nat.ofDigits radix ds.reverse = n

theorem referenceDigit_decimal {c : UInt8} {d : ℕ} (h : IsDigit 10 c d) :
    referenceDigit false c = some d ∧ c ≠ 59 ∧ c ≠ 120 ∧ c ≠ 88 := by
  have hall : ∀ d < 10, referenceDigit false (48 + d.toUInt8) = some d ∧
      48 + d.toUInt8 ≠ 59 ∧ 48 + d.toUInt8 ≠ 120 ∧ 48 + d.toUInt8 ≠ 88 := by decide
  rcases h with ⟨hd, ⟨-, rfl⟩ | ⟨hge, -⟩⟩
  · exact hall d hd
  · exact absurd hd (by omega)

theorem referenceDigit_hexadecimal {c : UInt8} {d : ℕ} (h : IsDigit 16 c d) :
    referenceDigit true c = some d ∧ c ≠ 59 := by
  have hdecimal :
      ∀ d < 10, referenceDigit true (48 + d.toUInt8) = some d ∧ 48 + d.toUInt8 ≠ 59 := by decide
  have hletter : ∀ d < 16, 10 ≤ d →
      (referenceDigit true (87 + d.toUInt8) = some d ∧ 87 + d.toUInt8 ≠ 59) ∧
      referenceDigit true (55 + d.toUInt8) = some d ∧ 55 + d.toUInt8 ≠ 59 := by decide
  rcases h with ⟨hd, ⟨hlt, rfl⟩ | ⟨hge, rfl | rfl⟩⟩
  · exact hdecimal d hlt
  · exact (hletter d hd hge).1
  · exact (hletter d hd hge).2

/-- The value so far never passes the value of the whole number, so the bound is not hit early. -/
theorem foldlM_referenceDigit {radix : ℕ} {hex : Bool} {s : Bytes} {ds : List ℕ}
    (h : List.Forall₂ (fun c d ↦ referenceDigit hex c = some d) s ds)
    (hradix : radix = if hex then 16 else 10) (acc : ℕ)
    (hbound : acc * radix ^ ds.length + Nat.ofDigits radix ds.reverse ≤ 0x10FFFF) :
    s.foldlM (fun cp c ↦ (referenceDigit hex c).bind fun d ↦
        if 0x10FFFF < cp * (if hex then 16 else 10) + d then none
        else some (cp * (if hex then 16 else 10) + d)) acc
      = some (acc * radix ^ ds.length + Nat.ofDigits radix ds.reverse) := by
  induction h generalizing acc with
  | nil => simp
  | @cons c d s ds hdigit htail ih =>
    have hpos : 0 < radix ^ ds.length := Nat.pow_pos (hradix ▸ by split <;> decide)
    have hvalue : acc * radix ^ (d :: ds).length + Nat.ofDigits radix (d :: ds).reverse
        = (acc * radix + d) * radix ^ ds.length + Nat.ofDigits radix ds.reverse := by
      rw [List.reverse_cons, Nat.ofDigits_append, Nat.ofDigits_singleton, List.length_cons,
        List.length_reverse, Nat.pow_succ]
      ring
    rw [hvalue] at hbound ⊢
    have hstep : acc * radix + d ≤ 0x10FFFF :=
      (Nat.le_mul_of_pos_right _ hpos).trans ((Nat.le_add_right _ _).trans hbound)
    rw [List.foldlM_cons, hdigit, Option.bind_some, ← hradix, if_neg (by omega)]
    exact hradix ▸ ih _ hbound

theorem Writes.foldlM_eq_some {radix : ℕ} {hex : Bool} {s : Bytes} {n : ℕ}
    (h : Writes radix s n) (hradix : radix = if hex then 16 else 10)
    (hdigit : ∀ c d, IsDigit radix c d → referenceDigit hex c = some d) (hn : n ≤ 0x10FFFF) :
    s.foldlM (fun cp c ↦ (referenceDigit hex c).bind fun d ↦
        if 0x10FFFF < cp * (if hex then 16 else 10) + d then none
        else some (cp * (if hex then 16 else 10) + d)) 0 = some n := by
  obtain ⟨-, ds, hdigits, rfl⟩ := h
  have hfold := foldlM_referenceDigit (hdigits.imp hdigit) hradix 0 (by simpa using hn)
  rwa [Nat.zero_mul, Nat.zero_add] at hfold

theorem numericReference_decimal {s : Bytes} {n : ℕ} (h : Writes 10 s n) (hn : n ≤ 0x10FFFF) :
    numericReference s = some n := by
  have hfold := h.foldlM_eq_some rfl (fun _ _ h ↦ (referenceDigit_decimal h).1) hn
  obtain ⟨hne, ds, hdigits, rfl⟩ := h
  obtain ⟨c, s, rfl⟩ := List.exists_cons_of_ne_nil hne
  obtain ⟨d, ds', hc, -, rfl⟩ := List.forall₂_cons_left_iff.mp hdigits
  obtain ⟨-, -, hlower, hupper⟩ := referenceDigit_decimal hc
  have hhex :
      (decide ((c :: s).head? = some 120) || decide ((c :: s).head? = some 88)) = false := by
    simp [hlower, hupper]
  simp only [numericReference, hhex]
  exact (if_neg hne).trans hfold

theorem numericReference_hexadecimal {x : UInt8} {s : Bytes} {n : ℕ} (hx : x = 120 ∨ x = 88)
    (h : Writes 16 s n) (hn : n ≤ 0x10FFFF) : numericReference (x :: s) = some n := by
  have hfold := h.foldlM_eq_some rfl (fun _ _ h ↦ (referenceDigit_hexadecimal h).1) hn
  have hhex : (decide ((x :: s).head? = some 120) || decide ((x :: s).head? = some 88)) = true := by
    simpa using hx
  simp only [numericReference, hhex]
  exact (if_neg h.1).trans hfold

theorem decodeEntity_number (s : Bytes) :
    decodeEntity (35 :: s) = (numericReference s).map utf8Encode := by
  have hname (name : Bytes) (h : name.head? ≠ some 35) : ¬35 :: s = name := fun heq ↦
    h (heq ▸ rfl)
  rw [decodeEntity, if_neg (hname _ (by decide)), if_neg (hname _ (by decide)),
    if_neg (hname _ (by decide)), if_neg (hname _ (by decide)), if_neg (hname _ (by decide)),
    if_pos List.head?_cons, List.drop_one, List.tail_cons]

/-! ## Spellings -/

/-- The characters that have a name. -/
def namedCharacters : List (Bytes × Char) :=
  [(utf8 "amp", '&'), (utf8 "lt", '<'), (utf8 "gt", '>'), (utf8 "quot", Char.ofNat 34),
    (utf8 "apos", Char.ofNat 39)]

/-- The ways to write a character: as it is, by its name, or by its number. -/
inductive Spells : Char → Bytes → Prop
  | literal {c : Char} (hc : c ≠ '&') : Spells c (String.utf8EncodeChar c)
  | named {c : Char} {name : Bytes} (h : (name, c) ∈ namedCharacters) :
      Spells c (38 :: name ++ [59])
  | decimal {c : Char} {digits : Bytes} (h : Writes 10 digits c.toNat)
      (hlen : (35 :: digits).length ≤ 11) : Spells c (38 :: (35 :: digits) ++ [59])
  | hexadecimal {c : Char} {x : UInt8} {digits : Bytes} (hx : x = 120 ∨ x = 88)
      (h : Writes 16 digits c.toNat) (hlen : (35 :: x :: digits).length ≤ 11) :
      Spells c (38 :: (35 :: x :: digits) ++ [59])

theorem xmlUnescape_literal {s : Bytes} (h : 38 ∉ s) (t : Bytes) :
    xmlUnescape (s ++ t) = s ++ xmlUnescape t := by
  induction s with
  | nil => rfl
  | cons c s ih =>
    rw [List.mem_cons, not_or] at h
    rw [List.cons_append, xmlUnescape_cons (Ne.symm h.1), ih h.2, List.cons_append]

theorem notMem_of_forall₂ {R : UInt8 → ℕ → Prop} {s : Bytes} {ds : List ℕ}
    (h : List.Forall₂ R s ds) {b : UInt8} (hne : ∀ c d, R c d → c ≠ b) : b ∉ s := by
  induction h with
  | nil => exact List.not_mem_nil
  | cons hdigit _ ih => exact List.not_mem_cons_of_ne_of_not_mem (hne _ _ hdigit).symm ih

/-- **A spelled character is read** as its UTF-8, whatever comes behind. -/
theorem Spells.unescape {c : Char} {s : Bytes} (h : Spells c s) (t : Bytes) :
    xmlUnescape (s ++ t) = String.utf8EncodeChar c ++ xmlUnescape t := by
  have hentity {ent : Bytes} (hsemi : 59 ∉ ent) (hlen : ent.length ≤ 11)
      (hdecode : decodeEntity ent = some (String.utf8EncodeChar c)) :
      xmlUnescape ((38 :: ent ++ [59]) ++ t) = String.utf8EncodeChar c ++ xmlUnescape t := by
    rw [List.append_assoc, List.singleton_append, xmlUnescape_entity hsemi hlen hdecode]
  have hnumber {s : Bytes} (h : numericReference s = some c.toNat) :
      decodeEntity (35 :: s) = some (String.utf8EncodeChar c) := by
    rw [decodeEntity_number, h, Option.map_some, utf8Encode_toNat]
  cases h with
  | literal hc => exact xmlUnescape_literal (notMem_utf8EncodeChar hc) t
  | named h =>
    have hall : ∀ p ∈ namedCharacters, 59 ∉ p.1 ∧ p.1.length ≤ 11 ∧
        decodeEntity p.1 = some (String.utf8EncodeChar p.2) := by decide
    obtain ⟨hsemi, hlen, hdecode⟩ := hall _ h
    exact hentity hsemi hlen hdecode
  | @decimal digits h hlen =>
    have hsemi : 59 ∉ digits :=
      notMem_of_forall₂ h.2.choose_spec.1 fun _ _ h ↦ (referenceDigit_decimal h).2.1
    exact hentity (List.not_mem_cons_of_ne_of_not_mem (by decide) hsemi) hlen
      (hnumber (numericReference_decimal h (toNat_char_le c)))
  | @hexadecimal x digits hx h hlen =>
    have hsemi : 59 ∉ x :: digits :=
      List.not_mem_cons_of_ne_of_not_mem (by rcases hx with rfl | rfl <;> decide)
        (notMem_of_forall₂ h.2.choose_spec.1 fun _ _ h ↦ (referenceDigit_hexadecimal h).2)
    exact hentity (List.not_mem_cons_of_ne_of_not_mem (by decide) hsemi) hlen
      (hnumber (numericReference_hexadecimal hx h (toNat_char_le c)))

/-- **Text is read as it is spelled.** Each character is written in a way of its own, and the whole
is read as the UTF-8 of the characters; what `xmlEscape` writes is read back whatever the bytes. -/
theorem xmlUnescape_spelling {chars : List Char} {spellings : List Bytes}
    (h : List.Forall₂ Spells chars spellings) (s : Bytes) :
    xmlUnescape spellings.flatten = chars.flatMap String.utf8EncodeChar ∧
      xmlUnescape (xmlEscape s) = s := by
  refine ⟨?_, xmlUnescape_xmlEscape s⟩
  induction h with
  | nil => rw [List.flatten_nil, List.flatMap_nil, xmlUnescape]
  | cons hchar _ ih => rw [List.flatten_cons, hchar.unescape, ih, List.flatMap_cons]

/-- The letter é by its number, in hexadecimal, behind an ampersand by its name. -/
theorem xmlUnescape_accent :
    xmlUnescape (utf8 "&amp;a&#x00e9;") = utf8 "&aé" ∧ xmlUnescape (xmlEscape [255]) = [255] := by
  have hdigits : List.Forall₂ (IsDigit 16) (utf8 "00e9") [0, 0, 14, 9] := by decide
  have haccent : Spells 'é' (utf8 "&#x00e9;") :=
    .hexadecimal (.inl rfl) ⟨by decide, _, hdigits, by decide⟩ (by decide)
  have hamp : Spells '&' (utf8 "&amp;") :=
    .named (show (utf8 "amp", '&') ∈ namedCharacters by decide)
  have ha : Spells 'a' (utf8 "a") := .literal (by decide)
  exact xmlUnescape_spelling (.cons hamp (.cons ha (.cons haccent .nil))) [255]

end Nanos3Reader
