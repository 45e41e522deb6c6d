import Nanos3Reader.Lib.ByteText

/-!
# XML replies

The reader takes S3's XML apart by searching for tags. A position in the text is represented by the
text from there on, so each element found leaves a shorter rest to go on with.
-/

open ByteText

namespace Nanos3Reader

/-- One digit of `parse_u64`. -/
def parseDigit (v : ℕ) (c : UInt8) : Option ℕ :=
  let d := c.toNat - 48
  if c < 48 ∨ 57 < c then none
  else if (2 ^ 64 - 1 - d) / 10 < v then none
  else some (v * 10 + d)

/-- `parse_u64`: a decimal number below `2 ^ 64`. -/
def parseU64 (s : Bytes) : Option ℕ := if s = [] then none else s.foldlM parseDigit 0

theorem parseDigit_digit {v d : ℕ} (hd : d < 10) (h : v * 10 + d < 2 ^ 64) :
    parseDigit v (48 + d.toUInt8) = some (v * 10 + d) := by
  have hdigit : ∀ d < 10, ¬(48 + d.toUInt8 < 48 ∨ 57 < 48 + d.toUInt8) ∧
      (48 + d.toUInt8).toNat - 48 = d := by decide
  obtain ⟨hrange, hvalue⟩ := hdigit d hd
  rw [parseDigit, hvalue, if_neg hrange, if_neg (by omega)]

theorem parseU64_decimal {n : ℕ} (h : n < 2 ^ 64) : parseU64 (decimal n) = some n := by
  rw [parseU64, if_neg (decimal_ne_nil n)]
  induction n using Nat.strongRecOn with
  | ind n ih =>
    by_cases hn : n < 10
    · rw [decimal_of_lt hn, List.foldlM_cons, parseDigit_digit hn (by omega)]
      simp
    · have hlast : n % 10 < 10 := Nat.mod_lt n (by decide)
      rw [decimal_of_ge (by omega), List.foldlM_append, ih (n / 10) (by omega) (by omega),
        decimal_of_lt hlast]
      simp only [Option.bind_eq_bind, Option.bind_some, List.foldlM_cons, List.foldlM_nil]
      rw [parseDigit_digit hlast (by omega)]
      simp only [Option.bind_some, Option.pure_def, Option.some.injEq]
      omega

/-! ## Entities -/

/-- `append_utf8`: the bytes it appends. -/
def utf8Encode (cp : ℕ) : Bytes :=
  if cp < 0x80 then [cp.toUInt8]
  else if cp < 0x800 then [(0xC0 ||| cp >>> 6).toUInt8, (0x80 ||| cp &&& 0x3F).toUInt8]
  else if cp < 0x10000 then
    [(0xE0 ||| cp >>> 12).toUInt8, (0x80 ||| cp >>> 6 &&& 0x3F).toUInt8,
      (0x80 ||| cp &&& 0x3F).toUInt8]
  else
    [(0xF0 ||| cp >>> 18).toUInt8, (0x80 ||| cp >>> 12 &&& 0x3F).toUInt8,
      (0x80 ||| cp >>> 6 &&& 0x3F).toUInt8, (0x80 ||| cp &&& 0x3F).toUInt8]

/-- The value of a digit of a numeric reference. -/
def referenceDigit (hex : Bool) (c : UInt8) : Option ℕ :=
  if 48 ≤ c ∧ c ≤ 57 then some (c.toNat - 48)
  else if hex ∧ 97 ≤ c ∧ c ≤ 102 then some (c.toNat - 97 + 10)
  else if hex ∧ 65 ≤ c ∧ c ≤ 70 then some (c.toNat - 65 + 10)
  else none

/-- The code point of a numeric reference, without its `#`. -/
def numericReference (ent : Bytes) : Option ℕ :=
  let hex := ent.head? = some 120 || ent.head? = some 88
  let digits := if hex then ent.drop 1 else ent
  if digits = [] then none
  else
    digits.foldlM (fun cp c ↦
      (referenceDigit hex c).bind fun d ↦
        let cp := cp * (if hex then 16 else 10) + d
        if 0x10FFFF < cp then none else some cp) 0

/-- What stands for the entity between `&` and `;`. -/
def decodeEntity (ent : Bytes) : Option Bytes :=
  if ent = utf8 "amp" then some (utf8 "&")
  else if ent = utf8 "lt" then some (utf8 "<")
  else if ent = utf8 "gt" then some (utf8 ">")
  else if ent = utf8 "quot" then some (utf8 "\"")
  else if ent = utf8 "apos" then some (utf8 "'")
  else if ent.head? = some 35 then (numericReference (ent.drop 1)).map utf8Encode
  else none

/-- `xml_unescape`: an ampersand that starts no entity of at most eleven bytes stands for itself. -/
def xmlUnescape : Bytes → Bytes
  | [] => []
  | c :: rest =>
    if c ≠ 38 then c :: xmlUnescape rest
    else
      match _h : cut [59] rest with
      | none => c :: xmlUnescape rest
      | some (ent, after) =>
        if 12 < ent.length + 1 then c :: xmlUnescape rest
        else
          match decodeEntity ent with
          | none => c :: xmlUnescape rest
          | some decoded => decoded ++ xmlUnescape after
termination_by s => s.length
decreasing_by
  all_goals try simp
  have hlt := length_lt_of_cut (by simp) _h
  dsimp only at hlt
  omega

def xmlEscape (s : Bytes) : Bytes :=
  s.flatMap fun c ↦
    if c = 38 then utf8 "&amp;"
    else if c = 60 then utf8 "&lt;"
    else if c = 62 then utf8 "&gt;"
    else if c = 34 then utf8 "&quot;"
    else if c = 39 then utf8 "&apos;"
    else [c]

theorem xmlUnescape_cons {c : UInt8} (h : c ≠ 38) (s : Bytes) :
    xmlUnescape (c :: s) = c :: xmlUnescape s := by
  rw [xmlUnescape, if_pos h]

theorem xmlUnescape_entity {ent decoded : Bytes} (hsemi : 59 ∉ ent) (hlen : ent.length ≤ 11)
    (hdecode : decodeEntity ent = some decoded) (s : Bytes) :
    xmlUnescape (38 :: ent ++ 59 :: s) = decoded ++ xmlUnescape s := by
  rw [List.cons_append, xmlUnescape, if_neg (by decide)]
  split
  · next hcut =>
    rw [cut_singleton_append hsemi] at hcut
    cases hcut
  · next ent' after hcut =>
    rw [cut_singleton_append hsemi] at hcut
    cases hcut
    rw [if_neg (by omega), hdecode]

/-- **Unescaping undoes escaping.** -/
theorem xmlUnescape_xmlEscape (s : Bytes) : xmlUnescape (xmlEscape s) = s := by
  induction s with
  | nil => rw [xmlEscape, List.flatMap_nil, xmlUnescape]
  | cons c s ih =>
    have hentity (ent : Bytes) (hsemi : 59 ∉ ent) (hlen : ent.length ≤ 11)
        (hdecode : decodeEntity ent = some [c]) :
        xmlUnescape ((38 :: ent ++ [59]) ++ xmlEscape s) = c :: s := by
      rw [List.append_assoc, List.singleton_append, xmlUnescape_entity hsemi hlen hdecode, ih]
      rfl
    rw [xmlEscape, List.flatMap_cons, ← xmlEscape]
    split
    · next h => exact hentity (utf8 "amp") (by decide) (by decide) (h ▸ by decide)
    · split
      · next h => exact hentity (utf8 "lt") (by decide) (by decide) (h ▸ by decide)
      · split
        · next h => exact hentity (utf8 "gt") (by decide) (by decide) (h ▸ by decide)
        · split
          · next h => exact hentity (utf8 "quot") (by decide) (by decide) (h ▸ by decide)
          · split
            · next h => exact hentity (utf8 "apos") (by decide) (by decide) (h ▸ by decide)
            · next h _ _ _ _ => rw [List.singleton_append, xmlUnescape_cons h, ih]

theorem notMem_xmlEscape (s : Bytes) : 60 ∉ xmlEscape s := by
  rw [xmlEscape, List.mem_flatMap]
  rintro ⟨c, -, hc⟩
  split at hc
  · exact absurd hc (by decide)
  · split at hc
    · exact absurd hc (by decide)
    · split at hc
      · exact absurd hc (by decide)
      · split at hc
        · exact absurd hc (by decide)
        · split at hc
          · exact absurd hc (by decide)
          · next hlt _ _ _ => exact hlt (List.mem_singleton.mp hc).symm

/-! ## Elements -/

/-- `next_element`: the text inside the next element, and what follows it. -/
def nextElement (xml tag : Bytes) : Option (Bytes × Bytes) :=
  match cut (utf8 "<" ++ tag ++ utf8 ">") xml with
  | none => none
  | some (_, rest) => cut (utf8 "</" ++ tag ++ utf8 ">") rest

theorem length_lt_of_nextElement {xml tag inner rest : Bytes}
    (h : nextElement xml tag = some (inner, rest)) : rest.length < xml.length := by
  rw [nextElement] at h
  split at h
  · cases h
  · next before after hopen =>
    have hafter := length_lt_of_cut (by simp) hopen
    have hrest := length_lt_of_cut (by simp) h
    exact hrest.trans hafter

/-- `xml_tag`: the text of the first element with this tag, or nothing. -/
def xmlTag (body tag : Bytes) : Bytes :=
  match nextElement body tag with
  | none => []
  | some (inner, _) => xmlUnescape inner

/-- `xml_error_code`: the code of an S3 error body. -/
def xmlErrorCode (body : Bytes) : Bytes := xmlTag body (utf8 "Code")

/-- What `parse` makes of all elements with this tag, appended to `acc`; `none` when it can make
nothing of one of them. -/
def collectElements {α : Type*} (tag : Bytes) (parse : Bytes → Option α) (xml : Bytes)
    (acc : List α) : Option (List α) :=
  match _h : nextElement xml tag with
  | none => some acc
  | some (body, rest) =>
    match parse body with
    | none => none
    | some a => collectElements tag parse rest (acc ++ [a])
termination_by xml.length
decreasing_by exact length_lt_of_nextElement _h

theorem collectElements_eq {α : Type*} (tag : Bytes) (parse : Bytes → Option α) (xml : Bytes)
    (acc : List α) :
    collectElements tag parse xml acc
      = match nextElement xml tag with
        | none => some acc
        | some (body, rest) =>
          (parse body).bind fun a ↦ collectElements tag parse rest (acc ++ [a]) := by
  rw [collectElements.eq_def]
  split
  · next hnext => rw [hnext]
  · next body rest hnext =>
    rw [hnext]
    dsimp only
    split
    · next hparse => rw [hparse, Option.bind_none]
    · next a hparse => rw [hparse, Option.bind_some]

theorem collectElements_acc {α : Type*} (tag : Bytes) (parse : Bytes → Option α) (xml : Bytes)
    (acc : List α) :
    collectElements tag parse xml acc = (collectElements tag parse xml []).map (acc ++ ·) := by
  induction hn : xml.length using Nat.strong_induction_on generalizing xml acc with
  | _ n ih =>
    subst hn
    rw [collectElements_eq tag parse xml acc, collectElements_eq tag parse xml []]
    split
    · simp
    · next body rest hnext =>
      cases parse body with
      | none => rfl
      | some a =>
        have hlt := length_lt_of_nextElement hnext
        rw [Option.bind_some, Option.bind_some, ih _ hlt rest (acc ++ [a]) rfl,
          ih _ hlt rest ([] ++ [a]) rfl, Option.map_map]
        congr 1
        funext l
        simp

/-! ## Rendered elements -/

/-- An element with text inside. -/
def element (tag inner : Bytes) : Bytes :=
  utf8 "<" ++ tag ++ utf8 ">" ++ inner ++ utf8 "</" ++ tag ++ utf8 ">"

/-- A tag name: it has no bracket and no slash. -/
def IsTagName (tag : Bytes) : Prop := 60 ∉ tag ∧ 62 ∉ tag ∧ 47 ∉ tag

instance (tag : Bytes) : Decidable (IsTagName tag) := inferInstanceAs (Decidable (_ ∧ _))

theorem element_eq (tag inner : Bytes) :
    element tag inner = 60 :: (tag ++ 62 :: inner) ++ 60 :: (47 :: tag ++ [62]) := by
  have hbrackets : utf8 "<" = [60] ∧ utf8 ">" = [62] ∧ utf8 "</" = [60, 47] := by decide
  simp [element, hbrackets]

theorem openTag_eq (tag : Bytes) : utf8 "<" ++ tag ++ utf8 ">" = 60 :: (tag ++ [62]) := by
  have hbrackets : utf8 "<" = [60] ∧ utf8 ">" = [62] := by decide
  simp [hbrackets]

theorem closeTag_eq (tag : Bytes) : utf8 "</" ++ tag ++ utf8 ">" = 60 :: (47 :: tag ++ [62]) := by
  have hbrackets : utf8 "</" = [60, 47] ∧ utf8 ">" = [62] := by decide
  simp [hbrackets]

/-- A search for a tag passes an element without tags inside whose own tags do not match. -/
theorem passes_element {pat tag inner : Bytes} (htag : IsTagName tag) (hinner : 60 ∉ inner)
    (hopen : ∀ x, ¬pat <+: tag ++ 62 :: x) (hclose : ∀ x, ¬pat <+: 47 :: (tag ++ 62 :: x)) :
    Passes (60 :: pat) (element tag inner) := by
  have hstart : 60 ∉ tag ++ 62 :: inner := by
    simpa [htag.1] using hinner
  have hend : 60 ∉ 47 :: tag ++ [62] := by
    simpa using htag.1
  rw [element_eq]
  refine (passes_cons hstart fun t ↦ ?_).append (passes_cons hend fun t ↦ ?_)
  · rw [List.append_assoc]
    exact hopen _
  · rw [List.append_assoc]
    exact hclose _

theorem not_prefix_of_ne {tag other : Bytes} (htag : IsTagName tag) (hother : IsTagName other)
    (h : other ≠ tag) (x : Bytes) : ¬tag ++ [62] <+: other ++ 62 :: x := by
  rintro ⟨t, ht⟩
  rw [List.append_assoc, List.singleton_append] at ht
  exact h (append_cons_inj htag.2.1 hother.2.1 ht).1.symm

theorem not_prefix_slash {tag : Bytes} (htag : IsTagName tag) (x : Bytes) :
    ¬tag ++ [62] <+: 47 :: x := by
  rintro ⟨t, ht⟩
  cases tag with
  | nil => simp at ht
  | cons c tag =>
    rw [List.cons_append, List.cons_append, List.cons.injEq] at ht
    exact htag.2.2 (ht.1 ▸ List.mem_cons_self)

theorem not_slash_prefix_tag {tag : Bytes} (htag : IsTagName tag) (x y : Bytes) :
    ¬47 :: x <+: tag ++ 62 :: y := by
  rintro ⟨t, ht⟩
  cases tag with
  | nil => simp at ht
  | cons c tag =>
    rw [List.cons_append, List.cons_append, List.cons.injEq] at ht
    exact htag.2.2 (ht.1 ▸ List.mem_cons_self)

section OtherName

variable {tag other inner : Bytes} (htag : IsTagName tag) (hother : IsTagName other)
  (h : other ≠ tag) (hinner : 60 ∉ inner)

include htag hother h hinner

theorem passes_open : Passes (utf8 "<" ++ tag ++ utf8 ">") (element other inner) := by
  rw [openTag_eq]
  exact passes_element hother hinner (not_prefix_of_ne htag hother h) fun _ ↦
    not_prefix_slash htag _

theorem passes_close : Passes (utf8 "</" ++ tag ++ utf8 ">") (element other inner) := by
  rw [closeTag_eq]
  refine passes_element hother hinner (not_slash_prefix_tag hother _) fun x hx ↦ ?_
  rw [List.cons_append, List.prefix_cons_inj] at hx
  exact not_prefix_of_ne htag hother h x hx

end OtherName

theorem nextElement_append {tag s : Bytes} (h : Passes (utf8 "<" ++ tag ++ utf8 ">") s)
    (rest : Bytes) : nextElement (s ++ rest) tag = nextElement rest tag := by
  rw [nextElement, nextElement, h]
  cases cut (utf8 "<" ++ tag ++ utf8 ">") rest <;> rfl

theorem collectElements_append {α : Type*} {tag s : Bytes}
    (h : Passes (utf8 "<" ++ tag ++ utf8 ">") s) (parse : Bytes → Option α) (rest : Bytes)
    (acc : List α) :
    collectElements tag parse (s ++ rest) acc = collectElements tag parse rest acc := by
  rw [collectElements_eq, nextElement_append h, ← collectElements_eq]

/-- **An element is found**, with what is inside, unless a closing tag inside ends it early. -/
theorem nextElement_element {tag inner : Bytes} (h : Passes (utf8 "</" ++ tag ++ utf8 ">") inner)
    (rest : Bytes) : nextElement (element tag inner ++ rest) tag = some (inner, rest) := by
  have hsplit : element tag inner ++ rest
      = (utf8 "<" ++ tag ++ utf8 ">") ++ (inner ++ ((utf8 "</" ++ tag ++ utf8 ">") ++ rest)) := by
    simp [element]
  rw [nextElement, hsplit, cut_append_self]
  dsimp only
  rw [h, cut_append_self]
  simp

theorem passes_close_of_notMem {inner : Bytes} (h : 60 ∉ inner) (tag : Bytes) :
    Passes (utf8 "</" ++ tag ++ utf8 ">") inner := by
  rw [closeTag_eq]
  exact passes_of_notMem h _

/-! ## Listing pages -/

structure ObjectInfo where
  key : Bytes
  size : ℕ
deriving DecidableEq

/-- What is known after a page was parsed: the objects and common prefixes so far, and the
continuation. -/
structure ListPage where
  objects : List ObjectInfo
  commonPrefixes : List Bytes
  truncated : Bool
  nextToken : Bytes
deriving DecidableEq

/-- A `Contents` element. -/
def parseContents (body : Bytes) : Option ObjectInfo :=
  match nextElement body (utf8 "Key"), nextElement body (utf8 "Size") with
  | some (key, _), some (sizeText, _) => (parseU64 sizeText).map fun size ↦ ⟨xmlUnescape key, size⟩
  | _, _ => none

/-- A `CommonPrefixes` element. -/
def parseCommonPrefix (body : Bytes) : Option Bytes :=
  (nextElement body (utf8 "Prefix")).map fun p ↦ xmlUnescape p.1

/-- `parse_list_page`, which appends to `objects` and `prefixes`. What it leaves in them when it
fails is discarded by its one caller. -/
def parseListPage (xml : Bytes) (objects : List ObjectInfo) (prefixes : List Bytes) :
    Except Bytes ListPage :=
  match collectElements (utf8 "Contents") parseContents xml objects with
  | none => .error (utf8 "malformed ListObjectsV2 response (Contents)")
  | some objects =>
    match collectElements (utf8 "CommonPrefixes") parseCommonPrefix xml prefixes with
    | none => .error (utf8 "malformed ListObjectsV2 response (CommonPrefixes)")
    | some prefixes =>
      let truncated := (nextElement xml (utf8 "IsTruncated")).any fun p ↦ p.1 = utf8 "true"
      let nextToken := xmlTag xml (utf8 "NextContinuationToken")
      if truncated ∧ nextToken = [] then
        .error (utf8 "truncated ListObjectsV2 response without NextContinuationToken")
      else .ok ⟨objects, prefixes, truncated, nextToken⟩

/-- A page after others. -/
def ListPage.after (objects : List ObjectInfo) (prefixes : List Bytes) (p : ListPage) : ListPage :=
  { p with objects := objects ++ p.objects, commonPrefixes := prefixes ++ p.commonPrefixes }

/-- **A page is parsed the same whatever came before it**, and its entries go behind what was found
before. -/
theorem parseListPage_eq (xml : Bytes) (objects : List ObjectInfo) (prefixes : List Bytes) :
    parseListPage xml objects prefixes
      = (parseListPage xml [] []).map (ListPage.after objects prefixes) := by
  rw [parseListPage, parseListPage, collectElements_acc _ _ _ objects]
  cases collectElements (utf8 "Contents") parseContents xml [] with
  | none => rfl
  | some found =>
    dsimp only [Option.map_some]
    rw [collectElements_acc _ _ _ prefixes]
    cases collectElements (utf8 "CommonPrefixes") parseCommonPrefix xml [] with
    | none => rfl
    | some foundPrefixes =>
      dsimp only [Option.map_some]
      split <;> rfl

theorem nextToken_ne_nil {xml : Bytes} {objects : List ObjectInfo} {prefixes : List Bytes}
    {p : ListPage} (h : parseListPage xml objects prefixes = .ok p) (ht : p.truncated = true) :
    p.nextToken ≠ [] := by
  rw [parseListPage] at h
  split at h
  · cases h
  · split at h
    · cases h
    · dsimp only at h
      split at h
      · cases h
      · next hok =>
        cases h
        exact fun hnil ↦ hok ⟨ht, hnil⟩

end Nanos3Reader
