import Nanos3Reader.Xml

/-!
# Markup that a search passes

`nextElement` looks for two pieces of text and knows nothing of nesting. Whether it goes past the
rest of a document therefore depends on the names of the elements there, at every depth. The
grammar below is that of markup in which some names do not occur, and a search for one of them
passes all of it.
-/

open ByteText

namespace Nanos3Reader

/-- The name of an element. Nothing in it can stand for the end of the name, and it does not begin
like an instruction. -/
def IsName (tag : Bytes) : Prop := IsTagName tag ∧ tag ≠ [] ∧ 32 ∉ tag ∧ 63 ∉ tag

instance (tag : Bytes) : Decidable (IsName tag) := inferInstanceAs (Decidable (_ ∧ _))

/-- The attributes in a start tag, with the space before each. Their values are escaped, so that no
bracket opens there. -/
def IsAttributes (s : Bytes) : Prop := 60 ∉ s ∧ (s = [] ∨ s.head? = some 32)

instance (s : Bytes) : Decidable (IsAttributes s) := inferInstanceAs (Decidable (_ ∧ _))

def startTag (tag attributes : Bytes) : Bytes := utf8 "<" ++ tag ++ attributes ++ utf8 ">"

def endTag (tag : Bytes) : Bytes := utf8 "</" ++ tag ++ utf8 ">"

/-- Markup in which no element has one of these names. -/
inductive MarkupWithout (names : List Bytes) : Bytes → Prop
  | nil : MarkupWithout names []
  | text {s rest : Bytes} (hs : 60 ∉ s) (hrest : MarkupWithout names rest) :
      MarkupWithout names (s ++ rest)
  | instruction {s rest : Bytes} (hs : 60 ∉ s) (hrest : MarkupWithout names rest) :
      MarkupWithout names (utf8 "<?" ++ s ++ rest)
  | emptyElement {tag attributes rest : Bytes} (htag : IsName tag) (hname : tag ∉ names)
      (hattributes : IsAttributes attributes) (hrest : MarkupWithout names rest) :
      MarkupWithout names (startTag tag (attributes ++ utf8 "/") ++ rest)
  | element {tag attributes inner rest : Bytes} (htag : IsName tag) (hname : tag ∉ names)
      (hattributes : IsAttributes attributes) (hinner : MarkupWithout names inner)
      (hrest : MarkupWithout names rest) :
      MarkupWithout names (startTag tag attributes ++ inner ++ endTag tag ++ rest)

namespace MarkupWithout

variable {names : List Bytes}

theorem mono {names' : List Bytes} (hsub : names' ⊆ names) {s : Bytes}
    (h : MarkupWithout names s) : MarkupWithout names' s := by
  induction h with
  | nil => exact .nil
  | text hs _ ih => exact .text hs ih
  | instruction hs _ ih => exact .instruction hs ih
  | emptyElement htag hname hattributes _ ih =>
    exact .emptyElement htag (fun hmem ↦ hname (hsub hmem)) hattributes ih
  | element htag hname hattributes _ _ ihinner ihrest =>
    exact .element htag (fun hmem ↦ hname (hsub hmem)) hattributes ihinner ihrest

theorem append {s t : Bytes} (hs : MarkupWithout names s) (ht : MarkupWithout names t) :
    MarkupWithout names (s ++ t) := by
  induction hs with
  | nil => exact ht
  | text hs _ ih =>
    rw [List.append_assoc]
    exact .text hs ih
  | instruction hs _ ih =>
    rw [List.append_assoc]
    exact .instruction hs ih
  | emptyElement htag hname hattributes _ ih =>
    rw [List.append_assoc]
    exact .emptyElement htag hname hattributes ih
  | element htag hname hattributes hinner _ _ ih =>
    rw [List.append_assoc]
    exact .element htag hname hattributes hinner ih

theorem of_text {s : Bytes} (h : 60 ∉ s) : MarkupWithout names s :=
  List.append_nil s ▸ .text h .nil

theorem of_element {tag inner : Bytes} (htag : IsName tag) (hname : tag ∉ names)
    (hinner : MarkupWithout names inner) :
    MarkupWithout names (Nanos3Reader.element tag inner) := by
  have h := MarkupWithout.element htag hname ⟨List.not_mem_nil, .inl rfl⟩ hinner .nil
  simpa [startTag, endTag, Nanos3Reader.element] using h

end MarkupWithout

/-! ## What is passed -/

section Passing

variable {tag other attributes : Bytes}

/-- A search for a piece that begins with a bracket passes a start tag that does not go on like
it. -/
theorem passes_startTag {pat : Bytes} (hother : IsName other) (hattributes : 60 ∉ attributes)
    (hpat : ∀ x, ¬pat <+: other ++ (attributes ++ 62 :: x)) :
    Passes (60 :: pat) (startTag other attributes) := by
  have hbrackets : utf8 "<" = [60] ∧ utf8 ">" = [62] := by decide
  rw [startTag, hbrackets.1, hbrackets.2, List.append_assoc, List.append_assoc,
    List.singleton_append]
  refine passes_cons ?_ fun t ↦ ?_
  · simp [hother.1.1, hattributes]
  · simpa using hpat t

theorem passes_endTag {pat : Bytes} (hother : IsName other)
    (hpat : ∀ x, ¬pat <+: 47 :: (other ++ 62 :: x)) : Passes (60 :: pat) (endTag other) := by
  rw [endTag, closeTag_eq]
  refine passes_cons ?_ fun t ↦ ?_
  · simp [hother.1.1]
  · simpa using hpat t

theorem not_prefix_of_stop (htag : IsName tag) (hother : IsName other) {c : UInt8}
    (hc : c = 32 ∨ c = 47) (x : Bytes) : ¬tag ++ [62] <+: other ++ c :: x := by
  intro h
  have hmem : c ∉ tag ++ [62] := by
    rcases hc with rfl | rfl
    · simpa using htag.2.2.1
    · simpa using htag.1.2.2
  rcases List.prefix_or_prefix_of_prefix h (List.prefix_append other (c :: x)) with hle | hle
  · exact hother.1.2.1 (hle.subset (by simp))
  · obtain ⟨t, ht⟩ := hle
    rw [← ht, List.prefix_append_right_inj] at h
    cases t with
    | nil =>
      rw [List.append_nil] at ht
      exact hother.1.2.1 (ht ▸ by simp)
    | cons d t =>
      obtain ⟨rfl, -⟩ := List.cons_prefix_cons.mp h
      exact hmem (ht ▸ by simp)

/-- A name with attributes behind it does not begin with another name and the end of a tag. -/
theorem not_prefix_startTag (htag : IsName tag) (hother : IsName other) (h : other ≠ tag)
    (hattributes : IsAttributes attributes) (x : Bytes) :
    ¬tag ++ [62] <+: other ++ (attributes ++ 62 :: x) := by
  rcases hattributes.2 with rfl | hhead
  · exact not_prefix_of_ne htag.1 hother.1 h x
  · obtain ⟨s, rfl⟩ : ∃ s, attributes = 32 :: s := List.head?_eq_some_iff.mp hhead
    exact not_prefix_of_stop htag hother (.inl rfl) _

theorem not_prefix_emptyElement (htag : IsName tag) (hother : IsName other)
    (hattributes : IsAttributes attributes) (x : Bytes) :
    ¬tag ++ [62] <+: other ++ (attributes ++ utf8 "/" ++ 62 :: x) := by
  rcases hattributes.2 with rfl | hhead
  · exact not_prefix_of_stop htag hother (.inr rfl) _
  · obtain ⟨s, rfl⟩ : ∃ s, attributes = 32 :: s := List.head?_eq_some_iff.mp hhead
    exact not_prefix_of_stop htag hother (.inl rfl) _

theorem not_slash_prefix_name (hother : IsName other) (x y : Bytes) : ¬47 :: x <+: other ++ y := by
  obtain ⟨c, s, rfl⟩ := List.exists_cons_of_ne_nil hother.2.1
  rintro h
  obtain ⟨rfl, -⟩ := List.cons_prefix_cons.mp h
  exact hother.1.2.2 List.mem_cons_self

theorem not_prefix_instruction (htag : IsName tag) (x : Bytes) : ¬tag ++ [62] <+: 63 :: x := by
  obtain ⟨c, s, rfl⟩ := List.exists_cons_of_ne_nil htag.2.1
  rintro h
  obtain ⟨rfl, -⟩ := List.cons_prefix_cons.mp h
  exact htag.2.2.2 List.mem_cons_self

end Passing

/-- **A search for an element passes all markup without its name**, for either of its tags. -/
theorem MarkupWithout.passes {names : List Bytes} {s tag : Bytes} (h : MarkupWithout names s)
    (hmem : tag ∈ names) (htag : IsName tag) :
    Passes (utf8 "<" ++ tag ++ utf8 ">") s ∧ Passes (utf8 "</" ++ tag ++ utf8 ">") s := by
  rw [openTag_eq, closeTag_eq]
  induction h with
  | nil => exact ⟨passes_of_notMem List.not_mem_nil _, passes_of_notMem List.not_mem_nil _⟩
  | text hs _ ih =>
    exact ⟨(passes_of_notMem hs _).append ih.1, (passes_of_notMem hs _).append ih.2⟩
  | @instruction s rest hs _ ih =>
    have hquery : utf8 "<?" ++ s = 60 :: (63 :: s) := rfl
    have hnotMem : 60 ∉ 63 :: s := by simpa using hs
    rw [hquery]
    refine ⟨.append (passes_cons hnotMem fun t ↦ ?_) ih.1,
      .append (passes_cons hnotMem fun t ↦ ?_) ih.2⟩
    · exact not_prefix_instruction htag _
    · exact fun h ↦ absurd (List.cons_prefix_cons.mp h).1 (by decide)
  | @emptyElement other attributes rest hother hname hattributes _ ih =>
    have hslash : 60 ∉ attributes ++ utf8 "/" := by
      have hslash : 60 ∉ utf8 "/" := by decide
      simp [hattributes.1, hslash]
    exact ⟨.append (passes_startTag hother hslash (not_prefix_emptyElement htag hother hattributes))
        ih.1,
      .append (passes_startTag hother hslash fun _ ↦ not_slash_prefix_name hother _ _) ih.2⟩
  | @element other attributes inner rest hother hname hattributes _ _ ihinner ihrest =>
    have hne : other ≠ tag := fun heq ↦ hname (heq ▸ hmem)
    refine ⟨.append (.append (.append ?_ ihinner.1) ?_) ihrest.1,
      .append (.append (.append ?_ ihinner.2) ?_) ihrest.2⟩
    · exact passes_startTag hother hattributes.1 (not_prefix_startTag htag hother hne hattributes)
    · exact passes_endTag hother fun _ ↦ not_prefix_slash htag.1 _
    · exact passes_startTag hother hattributes.1 fun _ ↦ not_slash_prefix_name hother _ _
    · refine passes_endTag hother fun x hx ↦ ?_
      rw [List.cons_append, List.prefix_cons_inj] at hx
      exact not_prefix_of_ne htag.1 hother.1 hne x hx

end Nanos3Reader
