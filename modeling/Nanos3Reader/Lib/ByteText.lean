import Mathlib.Algebra.Order.Ring.Nat
import Mathlib.Data.List.Basic
import Mathlib.Data.List.DropRight
import Mathlib.Tactic.Common

/-!
# Byte strings

A C++ `std::string` is a sequence of bytes with no encoding attached, so text is a `List UInt8`
throughout. This file has the few operations on such strings that a program working on protocol
text performs — literals, decimal rendering, trimming, searching for a substring, passing a string
to a C function — together with the facts about them that hold whatever the text is about.

Searching is phrased as *cutting*: `cut pat s` returns what stands before the first occurrence of
`pat` and what stands after it. That is the pair of substrings a caller of `std::string::find`
goes on to compute, and it makes the position arithmetic disappear.

The second half is about text built by joining lines. Joining loses nothing as long as no line
contains the separator, and that is the only fact an unambiguous-format argument needs.
-/

namespace ByteText

/-- A byte string. -/
abbrev Bytes := List UInt8

/-- The bytes of a string literal of the source. -/
def utf8 (s : String) : Bytes := s.toList.flatMap String.utf8EncodeChar

@[simp] theorem utf8_eq_nil {s : String} : utf8 s = [] ↔ s = "" := by
  rw [utf8, List.flatMap_eq_nil_iff, ← String.toList_eq_nil_iff]
  constructor
  · intro h
    exact List.eq_nil_iff_forall_not_mem.mpr fun c hc ↦ absurd (h c hc) String.utf8EncodeChar_ne_nil
  · intro h
    simp [h]

/-- Decimal rendering of an unsigned integer. -/
def decimal (n : ℕ) : Bytes := (Nat.toDigits 10 n).flatMap String.utf8EncodeChar

/-- `c` as `std::tolower` maps it in the C locale. -/
def toLower (c : UInt8) : UInt8 := if 65 ≤ c ∧ c ≤ 90 then c + 32 else c

/-- What a C function sees of a string passed by `c_str()`: everything up to the first NUL. -/
def cStr (s : Bytes) : Bytes := s.takeWhile (· ≠ 0)

theorem cStr_eq_self {s : Bytes} (h : 0 ∉ s) : cStr s = s := by
  rw [cStr, List.takeWhile_eq_self_iff]
  intro c hc
  simpa using ne_of_mem_of_not_mem hc h

/-- NUL-free text in front of a string survives `c_str()` whole. -/
theorem cStr_append {s t : Bytes} (h : 0 ∉ s) : cStr (s ++ t) = s ++ cStr t := by
  rw [cStr, cStr, List.takeWhile_append_of_pos]
  intro c hc
  simpa using ne_of_mem_of_not_mem hc h

/-! ## Trimming -/

/-- `s` without the bytes satisfying `p` at both its ends. -/
def trimBy (p : UInt8 → Bool) (s : Bytes) : Bytes := (s.dropWhile p).rdropWhile p

theorem forall_mem_of_all {p : UInt8 → Prop} [DecidablePred p] {s : Bytes}
    (h : s.all (fun c ↦ decide (p c)) = true) : ∀ c ∈ s, p c := by
  simpa using h

theorem mem_of_mem_trimBy {p : UInt8 → Bool} {s : Bytes} {c : UInt8} (h : c ∈ trimBy p s) :
    c ∈ s :=
  (s.dropWhile_suffix p).subset ((List.rdropWhile_prefix p _).subset h)

/-! ## Cutting at a substring -/

/-- The text before the first occurrence of `pat` in `s`, and the text after it. -/
def cut (pat : Bytes) : Bytes → Option (Bytes × Bytes)
  | [] => if pat.isPrefixOf [] then some ([], []) else none
  | c :: s =>
    if pat.isPrefixOf (c :: s) then some ([], (c :: s).drop pat.length)
    else (cut pat s).map fun q ↦ (c :: q.1, q.2)

theorem cut_eq_some {pat : Bytes} : ∀ {s : Bytes} {q : Bytes × Bytes}, cut pat s = some q →
    s = q.1 ++ pat ++ q.2 := by
  have hpre : ∀ s : Bytes, pat.isPrefixOf s = true → s = pat ++ s.drop pat.length := by
    intro s h
    obtain ⟨t, rfl⟩ := List.isPrefixOf_iff_prefix.mp h
    rw [List.drop_left]
  intro s
  induction s with
  | nil =>
    intro q h
    rw [cut] at h
    split at h
    · next hp =>
      cases h
      simpa using hpre [] hp
    · cases h
  | cons c s ih =>
    intro q h
    rw [cut] at h
    split at h
    · next hp =>
      cases h
      simpa using hpre (c :: s) hp
    · obtain ⟨q', hq', rfl⟩ := Option.map_eq_some_iff.mp h
      simpa using ih hq'

theorem length_lt_of_cut {pat s : Bytes} {q : Bytes × Bytes} (hp : pat ≠ [])
    (h : cut pat s = some q) : q.2.length < s.length := by
  have hpos : 0 < pat.length := List.length_pos_of_ne_nil hp
  have hlen : s.length = q.1.length + pat.length + q.2.length := by
    conv_lhs => rw [cut_eq_some h]
    simp only [List.length_append]
  omega

theorem cut_singleton_append {c : UInt8} {s : Bytes} (h : c ∉ s) (t : Bytes) :
    cut [c] (s ++ c :: t) = some (s, t) := by
  induction s with
  | nil => simp [cut]
  | cons a s ih =>
    rw [List.mem_cons, not_or] at h
    rw [List.cons_append, cut, if_neg (by simp [h.1]), ih h.2]
    rfl

/-- What stands before the first `c`, or all of the text, does not contain it. -/
theorem notMem_cut_getD (c : UInt8) (s : Bytes) : c ∉ ((cut [c] s).getD (s, [])).1 := by
  by_cases h : c ∈ s
  · obtain ⟨a, b, rfl, ha⟩ := List.eq_append_cons_of_mem h
    rw [cut_singleton_append ha]
    exact ha
  · cases hcut : cut [c] s with
    | none => exact h
    | some q =>
      rw [cut_eq_some hcut] at h
      simp at h

theorem cut_append_self (pat t : Bytes) : cut pat (pat ++ t) = some ([], t) := by
  have hpre : pat.isPrefixOf (pat ++ t) = true :=
    List.isPrefixOf_iff_prefix.mpr (List.prefix_append _ _)
  rw [cut.eq_def]
  split
  · next h =>
    obtain ⟨rfl, rfl⟩ := List.append_eq_nil_iff.mp h
    rfl
  · next c s h =>
    rw [← h, if_pos hpre, List.drop_left]

/-- The search for `pat` passes `s`, whatever comes behind. -/
def Passes (pat s : Bytes) : Prop :=
  ∀ t, cut pat (s ++ t) = (cut pat t).map fun q ↦ (s ++ q.1, q.2)

theorem Passes.append {pat s t : Bytes} (hs : Passes pat s) (ht : Passes pat t) :
    Passes pat (s ++ t) := by
  intro u
  rw [List.append_assoc, hs, ht, Option.map_map]
  congr 1
  funext q
  simp

theorem passes_of_notMem {c : UInt8} {s : Bytes} (h : c ∉ s) (pat : Bytes) :
    Passes (c :: pat) s := by
  intro t
  induction s with
  | nil => simp
  | cons a s ih =>
    rw [List.mem_cons, not_or] at h
    rw [List.cons_append, cut, if_neg (by simp [h.1]), ih h.2, Option.map_map]
    rfl

theorem passes_cons {c : UInt8} {s : Bytes} (h : c ∉ s) {pat : Bytes}
    (hpat : ∀ t, ¬pat <+: s ++ t) : Passes (c :: pat) (c :: s) := by
  intro t
  have hno : ¬(c :: pat).isPrefixOf (c :: (s ++ t)) = true := by
    rw [List.isPrefixOf_iff_prefix, List.prefix_cons_inj]
    exact hpat t
  rw [List.cons_append, cut, if_neg hno, passes_of_notMem h, Option.map_map]
  rfl

theorem cut_append_append (pat u v : Bytes) :
    ∃ q, cut pat (u ++ pat ++ v) = some q ∧ q.1.length ≤ u.length := by
  induction u with
  | nil => exact ⟨([], v), by rw [List.nil_append, cut_append_self], le_rfl⟩
  | cons c u ih =>
    obtain ⟨q, hq, hle⟩ := ih
    rw [List.cons_append, List.cons_append, cut]
    split
    · exact ⟨_, rfl, Nat.zero_le _⟩
    · exact ⟨(c :: q.1, q.2), by rw [hq, Option.map_some], Nat.succ_le_succ hle⟩

theorem cut_eq_none_iff {pat s : Bytes} : cut pat s = none ↔ ¬pat <:+: s := by
  constructor
  · rintro h ⟨u, v, rfl⟩
    obtain ⟨q, hq, -⟩ := cut_append_append pat u v
    rw [h] at hq
    cases hq
  · intro h
    refine Option.eq_none_iff_forall_ne_some.mpr fun q hq ↦ h ?_
    exact ⟨q.1, q.2, (cut_eq_some hq).symm⟩

theorem cut_through {pat s : Bytes} {q : Bytes × Bytes} (h : cut pat s = some q) :
    cut pat (q.1 ++ pat) = some (q.1, []) := by
  obtain ⟨p, hp, hle⟩ := cut_append_append pat q.1 []
  rw [List.append_nil] at hp
  have hshort : q.1 ++ pat = p.1 ++ pat ++ p.2 := cut_eq_some hp
  -- an earlier occurrence would have been the first of the whole text
  have hfirst : q.1.length ≤ p.1.length := by
    obtain ⟨p', hp', hle'⟩ := cut_append_append pat p.1 (p.2 ++ q.2)
    rw [← List.append_assoc, ← hshort, ← cut_eq_some h, h] at hp'
    obtain rfl := Option.some.inj hp'
    exact hle'
  rw [List.append_assoc] at hshort
  obtain ⟨hbefore, hafter⟩ := List.append_inj hshort (Nat.le_antisymm hfirst hle)
  have hnil : p.2 = [] := by simpa using hafter
  rw [hp, hbefore, ← hnil]

/-- What a search passes holds no occurrence, and neither does any beginning of it. -/
theorem Passes.cut_eq_none {pat s c : Bytes} (h : Passes pat s) (hpat : pat ≠ []) (hc : c <+: s) :
    cut pat c = none := by
  have hnil : cut pat [] = none := by
    rw [cut_eq_none_iff, List.infix_nil]
    exact hpat
  have hs : cut pat s = none := by
    have hs := h []
    rwa [List.append_nil, hnil, Option.map_none] at hs
  rw [cut_eq_none_iff] at hs ⊢
  exact fun hwithin ↦ hs (hwithin.trans hc.isInfix)

/-- Behind a text that a search passes, it finds nothing short of the whole pattern. -/
theorem Passes.cut_eq_none_of_short {pat s c : Bytes} (h : Passes pat s) (hc : c <+: s ++ pat)
    (hne : c ≠ s ++ pat) : cut pat c = none := by
  rw [cut_eq_none_iff]
  rintro ⟨u, v, rfl⟩
  obtain ⟨w, hw⟩ := hc
  obtain ⟨q, hq, hle⟩ := cut_append_append pat u (v ++ w)
  have hself : cut pat pat = some ([], []) := by simpa using cut_append_self pat []
  have hfirst := h pat
  rw [hself, Option.map_some, ← hw, List.append_assoc, hq, Option.some.injEq] at hfirst
  have hlen := congrArg List.length hw
  rw [hfirst] at hle
  simp only [List.length_append, List.append_nil] at hle hlen
  have hvw : w = [] := List.eq_nil_of_length_eq_zero (by omega)
  exact hne (by rw [← hw, hvw, List.append_nil])

/-! ## Decimal numbers -/

theorem decimal_of_lt {n : ℕ} (h : n < 10) : decimal n = [48 + n.toUInt8] := by
  have hall : ∀ n < 10, decimal n = [48 + n.toUInt8] := by decide
  exact hall n h

theorem decimal_of_ge {n : ℕ} (h : 10 ≤ n) : decimal n = decimal (n / 10) ++ decimal (n % 10) := by
  rw [decimal, decimal, decimal, ← List.flatMap_append, Nat.toDigits_of_base_le (by decide) h,
    Nat.toDigits_of_lt_base (Nat.mod_lt n (by decide))]

theorem mem_decimal {n : ℕ} {c : UInt8} (h : c ∈ decimal n) : 48 ≤ c ∧ c ≤ 57 := by
  induction n using Nat.strongRecOn with
  | ind n ih =>
    by_cases hn : n < 10
    · rw [decimal_of_lt hn, List.mem_singleton] at h
      have hall : ∀ n < 10, 48 ≤ 48 + n.toUInt8 ∧ 48 + n.toUInt8 ≤ 57 := by decide
      exact h ▸ hall n hn
    · rw [decimal_of_ge (by omega), List.mem_append] at h
      rcases h with h | h
      · exact ih _ (by omega) h
      · exact ih _ (by omega) h

theorem decimal_ne_nil (n : ℕ) : decimal n ≠ [] := by
  induction n using Nat.strongRecOn with
  | ind n ih =>
    by_cases hn : n < 10
    · rw [decimal_of_lt hn]
      exact List.cons_ne_nil _ _
    · rw [decimal_of_ge (by omega)]
      exact List.append_ne_nil_of_left_ne_nil (ih _ (by omega)) _

/-! ## Joined lines -/

theorem eq_of_intercalate_eq {sep : UInt8} {xs ys : List Bytes} (hxne : xs ≠ []) (hyne : ys ≠ [])
    (hx : ∀ l ∈ xs, sep ∉ l) (hy : ∀ l ∈ ys, sep ∉ l)
    (h : [sep].intercalate xs = [sep].intercalate ys) : xs = ys := by
  rw [← List.splitOn_intercalate sep hx hxne, h, List.splitOn_intercalate sep hy hyne]

theorem notMem_of_mem_splitOn {sep : UInt8} {s l : Bytes} (h : l ∈ s.splitOn sep) : sep ∉ l := by
  induction s generalizing l with
  | nil =>
    obtain rfl : l = [] := by simpa using h
    exact List.not_mem_nil
  | cons c s ih =>
    rw [List.splitOn_cons_eq_if_modifyHead] at h
    split at h
    · rcases List.mem_cons.mp h with rfl | h
      · exact List.not_mem_nil
      · exact ih h
    · next hc =>
      obtain ⟨x, xs, hsplit⟩ := List.exists_cons_of_ne_nil (List.splitOn_ne_nil sep s)
      rw [hsplit, List.modifyHead_cons] at h
      rcases List.mem_cons.mp h with rfl | h
      · rw [List.mem_cons, not_or]
        exact ⟨fun heq ↦ hc (by simp [heq]), ih (hsplit ▸ List.mem_cons_self)⟩
      · exact ih (hsplit ▸ List.mem_cons_of_mem _ h)

/-- Joining a non-empty tail of lines behind `xs` puts a separator after each line of `xs`. -/
theorem intercalate_append {sep : UInt8} {ys : List Bytes} (hy : ys ≠ []) (xs : List Bytes) :
    [sep].intercalate (xs ++ ys) = (xs.flatMap fun l ↦ l ++ [sep]) ++ [sep].intercalate ys := by
  obtain ⟨y, ys, rfl⟩ := List.exists_cons_of_ne_nil hy
  induction xs with
  | nil => simp
  | cons x xs ih =>
    have hsplit : [sep].intercalate (x :: (xs ++ y :: ys))
        = x ++ [sep] ++ [sep].intercalate (xs ++ y :: ys) := by
      cases xs <;> simp [List.intercalate]
    rw [List.cons_append, hsplit, ih, List.flatMap_cons, List.append_assoc (x ++ [sep])]

theorem notMem_intercalate {sep c : UInt8} {xs : List Bytes} (hx : ∀ l ∈ xs, c ∉ l)
    (hc : c ≠ sep) : c ∉ [sep].intercalate xs := by
  induction xs with
  | nil => simp [List.intercalate]
  | cons x xs ih =>
    have hx' : c ∉ x := hx x List.mem_cons_self
    have ih' := ih fun l hl ↦ hx l (List.mem_cons_of_mem _ hl)
    cases xs with
    | nil => simpa [List.intercalate] using hx'
    | cons y ys =>
      rw [show x :: y :: ys = [x] ++ y :: ys from rfl,
        intercalate_append (List.cons_ne_nil y ys)]
      simp only [List.flatMap_cons, List.flatMap_nil, List.append_nil, List.mem_append,
        List.mem_singleton, not_or]
      exact ⟨⟨hx', hc⟩, ih'⟩

/-- Two texts that agree up to a separator neither contains before it agree on both sides. -/
theorem append_cons_inj {sep : UInt8} {a b c d : Bytes} (ha : sep ∉ a) (hc : sep ∉ c)
    (h : a ++ sep :: b = c ++ sep :: d) : a = c ∧ b = d := by
  induction a generalizing c with
  | nil =>
    cases c with
    | nil => simpa using h
    | cons x c =>
      rw [List.nil_append, List.cons_append, List.cons.injEq] at h
      exact absurd (h.1 ▸ List.mem_cons_self) hc
  | cons y a ih =>
    cases c with
    | nil =>
      rw [List.nil_append, List.cons_append, List.cons.injEq] at h
      exact absurd (h.1 ▸ List.mem_cons_self) ha
    | cons x c =>
      rw [List.cons_append, List.cons_append, List.cons.injEq] at h
      obtain ⟨rfl, hbd⟩ := ih (fun hm ↦ ha (List.mem_cons_of_mem _ hm))
        (fun hm ↦ hc (List.mem_cons_of_mem _ hm)) h.2
      exact ⟨by rw [h.1], hbd⟩

end ByteText
