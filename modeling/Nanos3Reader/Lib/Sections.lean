import Mathlib.Data.List.Induction

/-!
# Texts in sections

A text in sections is read line by line: a header opens a section, and an entry belongs to the
section of the nearest header before it. Of the entries of a key the last one counts.

Two readings of one text may disagree about what a header is. An entry then moves from one section
to another, which can be seen only where no later entry of the section covers it.
-/

namespace Sections

variable {α σ κ ν : Type*}

/-- How lines are read. -/
structure Reading (α σ κ ν : Type*) where
  header? : α → Option σ
  entry? : α → Option (κ × ν)
  /-- The section of the lines in front of all headers, if they have one. -/
  start : Option σ

namespace Reading

variable (r : Reading α σ κ ν)

/-- Each line with its section, where `current` is the section before them. -/
def withSections (current : Option σ) : List α → List (Option σ × α)
  | [] => []
  | l :: ls => (current, l) :: withSections ((r.header? l).or current) ls

/-- What each line adds to a section. -/
def entries [DecidableEq σ] (name : σ) (ls : List α) : List (Option (κ × ν)) :=
  (r.withSections r.start ls).map fun p ↦ if p.1 = some name then r.entry? p.2 else none

theorem getElem?_withSections (current : Option σ) (ls : List α) (i : ℕ) :
    (r.withSections current ls)[i]?
      = ls[i]?.map fun l ↦ (((ls.take i).reverse.findSome? r.header?).or current, l) := by
  induction ls generalizing current i with
  | nil => rfl
  | cons l ls ih =>
    cases i with
    | zero => rfl
    | succ i =>
      rw [withSections, List.getElem?_cons_succ, ih, List.getElem?_cons_succ, List.take_succ_cons,
        List.reverse_cons, List.findSome?_append, List.findSome?_singleton, Option.or_assoc]

@[simp] theorem length_withSections (current : Option σ) (ls : List α) :
    (r.withSections current ls).length = ls.length := by
  induction ls generalizing current with
  | nil => rfl
  | cons l ls ih => rw [withSections, List.length_cons, ih, List.length_cons]

@[simp] theorem length_entries [DecidableEq σ] (name : σ) (ls : List α) :
    (r.entries name ls).length = ls.length := by
  rw [entries, List.length_map, length_withSections]

/-- Readings that agree on the lines, and on whether a section is open in front of them, agree on
the section. -/
theorem entries_congr [DecidableEq σ] {r r' : Reading α σ κ ν} {name : σ} {ls : List α}
    (hlines : ∀ l ∈ ls, r.header? l = r'.header? l ∧ r.entry? l = r'.entry? l)
    (hstart : r.start = some name ↔ r'.start = some name) :
    r.entries name ls = r'.entries name ls := by
  have hrun : ∀ current current', (current = some name ↔ current' = some name) →
      ((r.withSections current ls).map fun p ↦ if p.1 = some name then r.entry? p.2 else none)
        = (r'.withSections current' ls).map fun p ↦
            if p.1 = some name then r'.entry? p.2 else none := by
    induction ls with
    | nil => exact fun _ _ _ ↦ rfl
    | cons l ls ih =>
      intro current current' hcurrent
      obtain ⟨hheader, hentry⟩ := hlines l List.mem_cons_self
      have hnext :
          (r.header? l).or current = some name ↔ (r'.header? l).or current' = some name := by
        rw [hheader]
        cases r'.header? l with
        | none => exact hcurrent
        | some _ => rfl
      rw [withSections, withSections, List.map_cons, List.map_cons,
        ih (fun l' hl' ↦ hlines l' (List.mem_cons_of_mem _ hl')) _ _ hnext]
      simp only [hcurrent, hentry]
  exact hrun r.start r'.start hstart

end Reading

/-! ## The last entry counts -/

variable [DecidableEq κ]

/-- The value of a key. -/
def lastValue (key : κ) (es : List (Option (κ × ν))) : Option ν :=
  (es.filterMap id).reverse.lookup key

theorem lastValue_append_none (key : κ) (es : List (Option (κ × ν))) :
    lastValue key (es ++ [none]) = lastValue key es := by
  simp [lastValue]

theorem lastValue_append_some (key : κ) (es : List (Option (κ × ν))) (k : κ) (v : ν) :
    lastValue key (es ++ [some (k, v)]) = if key = k then some v else lastValue key es := by
  have hlist : (es ++ [some (k, v)]).filterMap id = es.filterMap id ++ [(k, v)] := by simp
  rw [lastValue, hlist, List.reverse_append, List.reverse_singleton, List.singleton_append,
    List.lookup_cons]
  by_cases h : key = k
  · rw [if_pos h, beq_iff_eq.mpr h]
  · rw [if_neg h, beq_eq_false_iff_ne.mpr h, lastValue]

/-! ## Two readings -/

/-- What a line adds in two readings. -/
abbrev Both (κ ν : Type*) := Option (κ × ν) × Option (κ × ν)

/-- The line adds the key in one of them. -/
def Sets (key : κ) (e : Both κ ν) : Prop :=
  ∃ value, e.1 = some (key, value) ∨ e.2 = some (key, value)

/-- What is said of an entry that only one reading has: by the lines before, the key has its value
in the other one. -/
def Covered (key : κ) (before : List (Both κ ν)) (e : Both κ ν) : Prop :=
  ∀ value, (e = (some (key, value), none) → lastValue key (before.map Prod.snd) = some value) ∧
    (e = (none, some (key, value)) → lastValue key (before.map Prod.fst) = some value)

/-- An entry that only one reading has is covered, unless a later one of its key stands in the
section. -/
def Harmless (es : List (Both κ ν)) : Prop :=
  ∀ key before e behind, es = before ++ e :: behind → (∀ e ∈ behind, ¬Sets key e) →
    Covered key before e

section OneKey

variable {key : κ} {es : List (Both κ ν)} {e : Both κ ν}

theorem covered_of_not_sets (h : ¬Sets key e) : Covered key es e :=
  fun value ↦ ⟨fun he ↦ absurd ⟨value, .inl (he ▸ rfl)⟩ h,
    fun he ↦ absurd ⟨value, .inr (he ▸ rfl)⟩ h⟩

theorem lastValue_of_not_sets (h : ¬Sets key e) (read : Both κ ν → Option (κ × ν))
    (hread : read = Prod.fst ∨ read = Prod.snd) :
    lastValue key ((es ++ [e]).map read) = lastValue key (es.map read) := by
  rw [List.map_append, List.map_singleton]
  cases he : read e with
  | none => exact lastValue_append_none key _
  | some p =>
    have hne : key ≠ p.1 := by
      rintro rfl
      refine h ⟨p.2, ?_⟩
      rcases hread with rfl | rfl
      · exact .inl he
      · exact .inr he
    rw [show p = (p.1, p.2) from rfl, lastValue_append_some, if_neg hne]

/-- At a line that sets the key the two readings agree just when it is covered. -/
theorem lastValue_eq_iff_covered (h : Sets key e) (hagree : e.1 = none ∨ e.2 = none ∨ e.1 = e.2) :
    lastValue key ((es ++ [e]).map Prod.fst) = lastValue key ((es ++ [e]).map Prod.snd)
      ↔ Covered key es e := by
  obtain ⟨first, second⟩ := e
  obtain ⟨value, hvalue⟩ := h
  dsimp only at hagree hvalue
  simp only [List.map_append, List.map_singleton]
  have hboth : first = second → (lastValue key (es.map Prod.fst ++ [first])
      = lastValue key (es.map Prod.snd ++ [second]) ↔ Covered key es (first, second)) := by
    rintro rfl
    have hsome : first = some (key, value) := hvalue.elim id id
    subst hsome
    rw [lastValue_append_some, lastValue_append_some, if_pos rfl, if_pos rfl]
    exact iff_of_true rfl fun _ ↦ ⟨nofun, nofun⟩
  rcases hagree with rfl | rfl | heq
  · obtain rfl : second = some (key, value) := hvalue.resolve_left (by simp)
    rw [lastValue_append_some, lastValue_append_none, if_pos rfl]
    refine ⟨fun hlast w ↦ ⟨nofun, ?_⟩, fun hcovered ↦ (hcovered value).2 rfl⟩
    rintro ⟨rfl, rfl⟩
    exact hlast
  · obtain rfl : first = some (key, value) := hvalue.resolve_right (by simp)
    rw [lastValue_append_some, lastValue_append_none, if_pos rfl]
    refine ⟨fun hlast w ↦ ⟨?_, nofun⟩, fun hcovered ↦ ((hcovered value).1 rfl).symm⟩
    rintro ⟨rfl, rfl⟩
    exact hlast.symm
  · exact hboth heq

end OneKey

/-- **Two readings give a section the same values** just when the entries are harmless that only
one of them has; by induction on the lines, from the end. -/
theorem lastValue_eq_iff {es : List (Both κ ν)}
    (hagree : ∀ e ∈ es, e.1 = none ∨ e.2 = none ∨ e.1 = e.2) :
    (∀ key, lastValue key (es.map Prod.fst) = lastValue key (es.map Prod.snd)) ↔ Harmless es := by
  rw [Harmless]
  refine forall_congr' fun key ↦ ?_
  induction es using List.reverseRecOn with
  | nil => exact iff_of_true rfl fun before e behind h ↦ by simp at h
  | append_singleton es e ih =>
    have hlast {before e' behind} (h : es ++ [e] = before ++ e' :: behind) :
        (behind = [] ∧ before = es ∧ e' = e) ∨
          ∃ rest, behind = rest ++ [e] ∧ es = before ++ e' :: rest := by
      rcases List.eq_nil_or_concat behind with rfl | ⟨rest, last, rfl⟩
      · obtain ⟨rfl, rfl⟩ := List.append_singleton_inj.mp h
        exact .inl ⟨rfl, rfl, rfl⟩
      · rw [List.concat_eq_append, ← List.cons_append, ← List.append_assoc] at h
        obtain ⟨rfl, rfl⟩ := List.append_singleton_inj.mp h
        exact .inr ⟨rest, List.concat_eq_append, rfl⟩
    have hes := ih fun e he ↦ hagree e (List.mem_append_left _ he)
    by_cases hsets : Sets key e
    · rw [lastValue_eq_iff_covered hsets (hagree e (by simp))]
      constructor
      · intro hcovered before e' behind h hbehind
        rcases hlast h with ⟨-, rfl, rfl⟩ | ⟨rest, rfl, -⟩
        · exact hcovered
        · exact absurd hsets (hbehind e (by simp))
      · exact fun hall ↦ hall es e [] rfl fun _ he ↦ absurd he List.not_mem_nil
    · rw [lastValue_of_not_sets hsets _ (.inl rfl), lastValue_of_not_sets hsets _ (.inr rfl), hes]
      constructor
      · intro hall before e' behind h hbehind
        rcases hlast h with ⟨-, rfl, rfl⟩ | ⟨rest, rfl, hes'⟩
        · exact covered_of_not_sets hsets
        · exact hall before e' rest hes' fun q hq ↦ hbehind q (List.mem_append_left _ hq)
      · rintro hall before e' behind rfl hbehind
        refine hall before e' (behind ++ [e]) (by simp) fun q hq ↦ ?_
        rcases List.mem_append.mp hq with hq | hq
        · exact hbehind q hq
        · exact List.mem_singleton.mp hq ▸ hsets

namespace Reading

variable (r r' : Reading α σ κ ν) [DecidableEq σ]

/-- What each line adds to a section, in either reading. -/
def both (name : σ) (ls : List α) : List (Both κ ν) := (r.entries name ls).zip (r'.entries name ls)

variable {r r'}

omit [DecidableEq κ] in
theorem both_agree (h : ∀ l, r.entry? l = none ∨ r'.entry? l = none ∨ r.entry? l = r'.entry? l)
    (name : σ) (ls : List α) :
    ∀ e ∈ r.both r' name ls, e.1 = none ∨ e.2 = none ∨ e.1 = e.2 := by
  have hlines : ∀ current current', ∀ e ∈
      ((r.withSections current ls).map fun p ↦ if p.1 = some name then r.entry? p.2 else none).zip
      ((r'.withSections current' ls).map fun p ↦ if p.1 = some name then r'.entry? p.2 else none),
      e.1 = none ∨ e.2 = none ∨ e.1 = e.2 := by
    induction ls with
    | nil => exact fun _ _ _ he ↦ absurd he List.not_mem_nil
    | cons l ls ih =>
      intro current current' e he
      rcases List.mem_cons.mp he with rfl | he
      · dsimp only
        split
        · split
          · exact h l
          · exact .inr (.inl rfl)
        · exact .inl rfl
      · exact ih _ _ e he
  exact hlines r.start r'.start

/-- Readings that take the same entries from lines differ in a section just when an entry that moves
can be seen. -/
theorem lastValue_entries_eq_iff
    (h : ∀ l, r.entry? l = none ∨ r'.entry? l = none ∨ r.entry? l = r'.entry? l) (name : σ)
    (ls : List α) :
    (∀ key, lastValue key (r.entries name ls) = lastValue key (r'.entries name ls))
      ↔ Harmless (r.both r' name ls) := by
  rw [← lastValue_eq_iff (both_agree h name ls), both, List.map_fst_zip (by simp),
    List.map_snd_zip (by simp)]

end Reading

end Sections
