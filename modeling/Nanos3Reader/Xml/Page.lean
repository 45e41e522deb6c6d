import Nanos3Reader.Xml.Markup

/-!
# Listing documents

A listing document is a sequence of items under a root element: objects, common prefixes, the flag
and the token, and anything else. Here is how each may be written, and that `parseListPage`, which
only searches for tags, reads back what was written.
-/

open ByteText

namespace Nanos3Reader

/-- The elements of a listing that are read. -/
inductive PageItem
  | object (o : ObjectInfo)
  | commonPrefix (p : Bytes)
  | isTruncated (flag : Bool)
  | nextToken (token : Bytes)
  | other
deriving DecidableEq

namespace PageItem

/-- The name of its element. -/
def tag : PageItem → Option Bytes
  | object _ => some (utf8 "Contents")
  | commonPrefix _ => some (utf8 "CommonPrefixes")
  | isTruncated _ => some (utf8 "IsTruncated")
  | nextToken _ => some (utf8 "NextContinuationToken")
  | other => none

def object? : PageItem → Option ObjectInfo
  | object o => some o
  | _ => none

def commonPrefix? : PageItem → Option Bytes
  | commonPrefix p => some p
  | _ => none

def flag? : PageItem → Option Bool
  | isTruncated flag => some flag
  | _ => none

def token? : PageItem → Option Bytes
  | nextToken token => some token
  | _ => none

end PageItem

/-- The names that a listing has at its top level only. -/
def pageNames : List Bytes :=
  [utf8 "Contents", utf8 "CommonPrefixes", utf8 "IsTruncated", utf8 "NextContinuationToken"]

namespace PageItem

/-- What stands inside the element of an item. Around the key and the size of an object, and around
a common prefix, there may be other elements. -/
inductive Inside : PageItem → Bytes → Prop
  | keySize {o : ObjectInfo} {a b c : Bytes} (hsize : o.size < 2 ^ 64)
      (ha : MarkupWithout (utf8 "Key" :: utf8 "Size" :: pageNames) a)
      (hb : MarkupWithout (utf8 "Key" :: utf8 "Size" :: pageNames) b)
      (hc : MarkupWithout (utf8 "Key" :: utf8 "Size" :: pageNames) c) :
      Inside (object o) (a ++ (element (utf8 "Key") (xmlEscape o.key) ++
        (b ++ (element (utf8 "Size") (decimal o.size) ++ c))))
  | sizeKey {o : ObjectInfo} {a b c : Bytes} (hsize : o.size < 2 ^ 64)
      (ha : MarkupWithout (utf8 "Key" :: utf8 "Size" :: pageNames) a)
      (hb : MarkupWithout (utf8 "Key" :: utf8 "Size" :: pageNames) b)
      (hc : MarkupWithout (utf8 "Key" :: utf8 "Size" :: pageNames) c) :
      Inside (object o) (a ++ (element (utf8 "Size") (decimal o.size) ++
        (b ++ (element (utf8 "Key") (xmlEscape o.key) ++ c))))
  | commonPrefix {p a b : Bytes} (ha : MarkupWithout (utf8 "Prefix" :: pageNames) a)
      (hb : MarkupWithout (utf8 "Prefix" :: pageNames) b) :
      Inside (commonPrefix p) (a ++ (element (utf8 "Prefix") (xmlEscape p) ++ b))
  | isTruncated (flag : Bool) : Inside (isTruncated flag) (utf8 (toString flag))
  | nextToken (token : Bytes) : Inside (nextToken token) (xmlEscape token)

/-- How an item may be written. -/
inductive Rendered : PageItem → Bytes → Prop
  | other {s : Bytes} (h : MarkupWithout pageNames s) : Rendered other s
  | element {item : PageItem} {tag inner : Bytes} (htag : item.tag = some tag)
      (hinside : Inside item inner) : Rendered item (element tag inner)

/-! ## The inside of an element -/

theorem isName_of_mem_pageNames {tag : Bytes} (h : tag ∈ pageNames) : IsName tag := by
  have hall : ∀ tag ∈ pageNames, IsName tag := by decide
  exact hall tag h

theorem tag_mem_pageNames {item : PageItem} {tag : Bytes} (h : item.tag = some tag) :
    tag ∈ pageNames := by
  cases item <;> cases h <;> decide

theorem Inside.markup {item : PageItem} {inner : Bytes} (h : Inside item inner) :
    MarkupWithout pageNames inner := by
  have hdecimal (n : ℕ) : 60 ∉ decimal n := fun hmem ↦ absurd (mem_decimal hmem).2 (by decide)
  have hleaf {tag text : Bytes} (htag : IsName tag ∧ tag ∉ pageNames) (htext : 60 ∉ text) :
      MarkupWithout pageNames (Nanos3Reader.element tag text) :=
    .of_element htag.1 htag.2 (.of_text htext)
  have hkeyName : IsName (utf8 "Key") ∧ utf8 "Key" ∉ pageNames := by decide
  have hsizeName : IsName (utf8 "Size") ∧ utf8 "Size" ∉ pageNames := by decide
  have hpfxName : IsName (utf8 "Prefix") ∧ utf8 "Prefix" ∉ pageNames := by decide
  have hkey (o : ObjectInfo) := hleaf hkeyName (notMem_xmlEscape o.key)
  have hsize (o : ObjectInfo) := hleaf hsizeName (hdecimal o.size)
  have hpfx (p : Bytes) := hleaf hpfxName (notMem_xmlEscape p)
  cases h with
  | keySize _ ha hb hc =>
    exact (ha.mono (by simp)).append ((hkey _).append ((hb.mono (by simp)).append
      ((hsize _).append (hc.mono (by simp)))))
  | sizeKey _ ha hb hc =>
    exact (ha.mono (by simp)).append ((hsize _).append ((hb.mono (by simp)).append
      ((hkey _).append (hc.mono (by simp)))))
  | commonPrefix ha hb =>
    exact (ha.mono (by simp)).append ((hpfx _).append (hb.mono (by simp)))
  | isTruncated flag => exact .of_text (by cases flag <;> decide)
  | nextToken token => exact .of_text (notMem_xmlEscape token)

theorem xmlEscape_passes (s tag : Bytes) : Passes (utf8 "</" ++ tag ++ utf8 ">") (xmlEscape s) :=
  passes_close_of_notMem (notMem_xmlEscape s) tag

theorem decimal_passes (n : ℕ) (tag : Bytes) : Passes (utf8 "</" ++ tag ++ utf8 ">") (decimal n) :=
  passes_close_of_notMem (fun hmem ↦ absurd (mem_decimal hmem).2 (by decide)) tag

theorem parseContents_inside {o : ObjectInfo} {inner : Bytes} (h : Inside (.object o) inner) :
    parseContents inner = some o := by
  have hkeyName : IsName (utf8 "Key") := by decide
  have hsizeName : IsName (utf8 "Size") := by decide
  have hskip {a tag : Bytes} (ha : MarkupWithout (utf8 "Key" :: utf8 "Size" :: pageNames) a)
      (htag : tag = utf8 "Key" ∨ tag = utf8 "Size") (rest : Bytes) :
      nextElement (a ++ rest) tag = nextElement rest tag := by
    refine nextElement_append (ha.passes (by rcases htag with rfl | rfl <;> simp) ?_).1 rest
    rcases htag with rfl | rfl
    · exact hkeyName
    · exact hsizeName
  have hkey (rest : Bytes) := nextElement_element (xmlEscape_passes o.key (utf8 "Key")) rest
  have hsize (rest : Bytes) := nextElement_element (decimal_passes o.size (utf8 "Size")) rest
  have hread (hlt : o.size < 2 ^ 64) :
      ((parseU64 (decimal o.size)).map fun size ↦
        ObjectInfo.mk (xmlUnescape (xmlEscape o.key)) size) = some o := by
    rw [parseU64_decimal hlt, xmlUnescape_xmlEscape]
    rfl
  rw [parseContents]
  cases h with
  | keySize hlt ha hb hc =>
    have hpast (rest : Bytes) : nextElement (element (utf8 "Key") (xmlEscape o.key) ++ rest)
        (utf8 "Size") = nextElement rest (utf8 "Size") :=
      nextElement_append (passes_open hsizeName.1 hkeyName.1 (by decide) (notMem_xmlEscape _)) rest
    rw [hskip ha (.inl rfl), hkey, hskip ha (.inr rfl), hpast, hskip hb (.inr rfl), hsize]
    exact hread hlt
  | sizeKey hlt ha hb hc =>
    have hpast (rest : Bytes) : nextElement (element (utf8 "Size") (decimal o.size) ++ rest)
        (utf8 "Key") = nextElement rest (utf8 "Key") :=
      nextElement_append (passes_open hkeyName.1 hsizeName.1 (by decide)
        fun hmem ↦ absurd (mem_decimal hmem).2 (by decide)) rest
    rw [hskip ha (.inl rfl), hpast, hskip hb (.inl rfl), hkey, hskip ha (.inr rfl), hsize]
    exact hread hlt

theorem parseCommonPrefix_inside {p inner : Bytes} (h : Inside (.commonPrefix p) inner) :
    parseCommonPrefix inner = some p := by
  cases h with
  | commonPrefix ha hb =>
    rw [parseCommonPrefix, nextElement_append (ha.passes List.mem_cons_self (by decide)).1,
      nextElement_element (xmlEscape_passes p _), Option.map_some, xmlUnescape_xmlEscape]

/-- A way of reading elements by one name: it reads what items of that name say, and there is
nothing of the kind in others. -/
structure Reads {α : Type*} (tag : Bytes) (read : Bytes → Option α) (pick : PageItem → Option α) :
    Prop where
  inside : ∀ item inner, item.tag = some tag → Inside item inner →
    ∃ a, read inner = some a ∧ pick item = some a
  outside : ∀ item : PageItem, item.tag ≠ some tag → pick item = none

theorem Reads.of_picks {α : Type*} {tag : Bytes} {read : Bytes → Option α}
    {pick : PageItem → Option α} (hpick : ∀ item, (pick item).isSome ↔ item.tag = some tag)
    (hread : ∀ item a inner, pick item = some a → Inside item inner → read inner = some a) :
    Reads tag read pick where
  inside item inner htag hinside := by
    obtain ⟨a, ha⟩ := Option.isSome_iff_exists.mp ((hpick item).mpr htag)
    exact ⟨a, hread item a inner ha hinside, ha⟩
  outside item htag := Option.not_isSome_iff_eq_none.mp (mt (hpick item).mp htag)

theorem reads_object : Reads (utf8 "Contents") parseContents object? := by
  refine .of_picks (fun item ↦ ?_) fun item o inner hpick hinside ↦ ?_
  · cases item <;> simp only [object?, tag, Option.isSome, Option.some.injEq] <;> decide
  · cases item <;> cases hpick
    exact parseContents_inside hinside

theorem reads_commonPrefix : Reads (utf8 "CommonPrefixes") parseCommonPrefix commonPrefix? := by
  refine .of_picks (fun item ↦ ?_) fun item p inner hpick hinside ↦ ?_
  · cases item <;> simp only [commonPrefix?, tag, Option.isSome, Option.some.injEq] <;> decide
  · cases item <;> cases hpick
    exact parseCommonPrefix_inside hinside

theorem reads_flag :
    Reads (utf8 "IsTruncated") (fun s ↦ some (decide (s = utf8 "true"))) flag? := by
  refine .of_picks (fun item ↦ ?_) fun item flag inner hpick hinside ↦ ?_
  · cases item <;> simp only [flag?, tag, Option.isSome, Option.some.injEq] <;> decide
  · cases item <;> cases hpick
    cases hinside
    cases flag <;> decide

theorem reads_token :
    Reads (utf8 "NextContinuationToken") (fun s ↦ some (xmlUnescape s)) token? := by
  refine .of_picks (fun item ↦ ?_) fun item token inner hpick hinside ↦ ?_
  · cases item <;> simp only [token?, tag, Option.isSome, Option.some.injEq] <;> decide
  · cases item <;> cases hpick
    cases hinside
    rw [xmlUnescape_xmlEscape]

/-! ## Searching items -/

/-- **A search for one kind of item** finds each of that kind whole, and passes all others. -/
theorem Rendered.found_or_passes {item : PageItem} {s tag : Bytes} (h : Rendered item s)
    (htag : tag ∈ pageNames) :
    (item.tag = some tag ∧ ∃ inner, Inside item inner ∧ s = Nanos3Reader.element tag inner ∧
      Passes (utf8 "</" ++ tag ++ utf8 ">") inner) ∨
    (item.tag ≠ some tag ∧ Passes (utf8 "<" ++ tag ++ utf8 ">") s) := by
  have hname := isName_of_mem_pageNames htag
  cases h with
  | other h => exact .inr ⟨by simp [PageItem.tag], (h.passes htag hname).1⟩
  | @element item own inner hown hinside =>
    by_cases heq : own = tag
    · subst heq
      exact .inl ⟨hown, inner, hinside, rfl, (hinside.markup.passes htag hname).2⟩
    · have hmarkup : MarkupWithout [tag] (Nanos3Reader.element own inner) :=
        .of_element (isName_of_mem_pageNames (tag_mem_pageNames hown)) (by simpa using heq)
          (hinside.markup.mono (by simpa using htag))
      exact .inr ⟨by simpa [hown] using heq, (hmarkup.passes List.mem_cons_self hname).1⟩

/-- Items with their texts, each written in a way it may be. -/
def AllRendered (parts : List (PageItem × Bytes)) : Prop := ∀ p ∈ parts, Rendered p.1 p.2

/-- The text of items one after the other. -/
def text (parts : List (PageItem × Bytes)) : Bytes := (parts.map Prod.snd).flatten

section Search

variable {tag : Bytes} {α : Type*} {read : Bytes → Option α} {pick : PageItem → Option α}
  {parts : List (PageItem × Bytes)}

/-- At an item the search reads what it says, if it is of the kind, and goes past it if not. -/
theorem Reads.next (h : Reads tag read pick) (htag : tag ∈ pageNames) {item : PageItem} {s : Bytes}
    (hrendered : Rendered item s) :
    (∃ inner a, s = Nanos3Reader.element tag inner ∧ Passes (utf8 "</" ++ tag ++ utf8 ">") inner ∧
      read inner = some a ∧ pick item = some a) ∨
    (pick item = none ∧ Passes (utf8 "<" ++ tag ++ utf8 ">") s) := by
  rcases hrendered.found_or_passes htag with ⟨hitem, inner, hinside, rfl, hpass⟩ | ⟨hitem, hpass⟩
  · obtain ⟨a, hreads, hpicks⟩ := h.inside item inner hitem hinside
    exact .inl ⟨inner, a, rfl, hpass, hreads, hpicks⟩
  · exact .inr ⟨h.outside item hitem, hpass⟩

/-- The loop over one kind of element collects what the items of that kind say. -/
theorem collectElements_text (htag : tag ∈ pageNames) (hparts : AllRendered parts)
    (h : Reads tag read pick) (rest : Bytes) (acc : List α) :
    collectElements tag read (text parts ++ rest) acc
      = collectElements tag read rest (acc ++ (parts.map Prod.fst).filterMap pick) := by
  induction parts generalizing acc with
  | nil => simp [text]
  | cons p parts ih =>
    obtain ⟨item, s⟩ := p
    have ih' := ih fun q hq ↦ hparts q (List.mem_cons_of_mem _ hq)
    have htext : text ((item, s) :: parts) ++ rest = s ++ (text parts ++ rest) := by simp [text]
    have hrendered : Rendered item s := hparts _ List.mem_cons_self
    rw [htext, List.map_cons]
    rcases h.next htag hrendered with ⟨inner, a, rfl, hpass, hreads, hpicks⟩ | ⟨hpicks, hpass⟩
    · rw [collectElements_eq, nextElement_element hpass]
      dsimp only
      rw [hreads, Option.bind_some, ih', List.filterMap_cons_some hpicks, List.append_assoc,
        List.singleton_append]
    · rw [collectElements_append hpass, ih', List.filterMap_cons_none hpicks]

theorem nextElement_text (htag : tag ∈ pageNames) (hparts : AllRendered parts)
    (h : Reads tag read pick) (rest : Bytes) :
    (nextElement (text parts ++ rest) tag).bind (fun p ↦ read p.1)
      = ((parts.map Prod.fst).findSome? pick).or
          ((nextElement rest tag).bind fun p ↦ read p.1) := by
  induction parts with
  | nil => simp [text]
  | cons p parts ih =>
    obtain ⟨item, s⟩ := p
    have ih' := ih fun q hq ↦ hparts q (List.mem_cons_of_mem _ hq)
    have htext : text ((item, s) :: parts) ++ rest = s ++ (text parts ++ rest) := by simp [text]
    have hrendered : Rendered item s := hparts _ List.mem_cons_self
    rw [htext, List.map_cons, List.findSome?_cons]
    rcases h.next htag hrendered with ⟨inner, a, rfl, hpass, hreads, hpicks⟩ | ⟨hpicks, hpass⟩
    · rw [nextElement_element hpass, Option.bind_some, hreads, hpicks, Option.some_or]
    · rw [nextElement_append hpass, ih', hpicks]

end Search

/-- What a listing of these items says. The flag counts as false when it is missing. -/
def readItems (items : List PageItem) : Except Bytes ListPage :=
  let truncated := (items.findSome? flag?).getD false
  let nextToken := (items.findSome? token?).getD []
  if truncated ∧ nextToken = [] then
    .error (utf8 "truncated ListObjectsV2 response without NextContinuationToken")
  else
    .ok ⟨items.filterMap object?, items.filterMap commonPrefix?, truncated, nextToken⟩

/-- **Items are read back**, in front of anything without a whole element of theirs and behind
anything that is passed. -/
theorem parseListPage_text {parts : List (PageItem × Bytes)} (hparts : AllRendered parts)
    {head rest : Bytes}
    (hhead : ∀ tag ∈ pageNames, Passes (utf8 "<" ++ tag ++ utf8 ">") head)
    (hrest : ∀ tag ∈ pageNames, nextElement rest tag = none) (objects : List ObjectInfo)
    (prefixes : List Bytes) :
    parseListPage (head ++ (text parts ++ rest)) objects prefixes
      = (readItems (parts.map Prod.fst)).map (ListPage.after objects prefixes) := by
  have hcontents : utf8 "Contents" ∈ pageNames := by decide
  have hcommon : utf8 "CommonPrefixes" ∈ pageNames := by decide
  have hflag : utf8 "IsTruncated" ∈ pageNames := by decide
  have htoken : utf8 "NextContinuationToken" ∈ pageNames := by decide
  have hcollect {α : Type} {tag : Bytes} {read : Bytes → Option α} {pick : PageItem → Option α}
      (htag : tag ∈ pageNames) (h : Reads tag read pick) (acc : List α) :
      collectElements tag read (head ++ (text parts ++ rest)) acc
        = some (acc ++ (parts.map Prod.fst).filterMap pick) := by
    rw [collectElements_append (hhead tag htag), collectElements_text htag hparts h,
      collectElements_eq, hrest tag htag]
  have hnext {α : Type} {tag : Bytes} {read : Bytes → Option α} {pick : PageItem → Option α}
      (htag : tag ∈ pageNames) (h : Reads tag read pick) :
      (nextElement (head ++ (text parts ++ rest)) tag).bind (fun p ↦ read p.1)
        = (parts.map Prod.fst).findSome? pick := by
    rw [nextElement_append (hhead tag htag), nextElement_text htag hparts h, hrest tag htag,
      Option.bind_none, Option.or_none]
  have htruncated : ((nextElement (head ++ (text parts ++ rest)) (utf8 "IsTruncated")).any
      fun p ↦ p.1 = utf8 "true") = ((parts.map Prod.fst).findSome? flag?).getD false := by
    rw [← hnext hflag reads_flag]
    cases nextElement (head ++ (text parts ++ rest)) (utf8 "IsTruncated") <;> rfl
  have hnextToken : xmlTag (head ++ (text parts ++ rest)) (utf8 "NextContinuationToken")
      = ((parts.map Prod.fst).findSome? token?).getD [] := by
    rw [xmlTag, ← hnext htoken reads_token]
    cases nextElement (head ++ (text parts ++ rest)) (utf8 "NextContinuationToken") <;> rfl
  rw [parseListPage, hcollect hcontents reads_object]
  dsimp only
  rw [hcollect hcommon reads_commonPrefix]
  dsimp only
  rw [htruncated, hnextToken, readItems]
  split <;> rfl

end PageItem

/-! ## Documents -/

/-- A listing document: a declaration, and items under the root element. It says once whether it is
truncated, it names the next page at most once, and it does so when it is truncated. -/
structure ListDocument where
  declaration : Bytes
  attributes : Bytes
  parts : List (PageItem × Bytes)
  truncated : Bool
  nextToken : Bytes
  declaration_ok : MarkupWithout pageNames declaration
  attributes_ok : IsAttributes attributes
  rendered : PageItem.AllRendered parts
  oneFlag : (parts.map Prod.fst).filterMap PageItem.flag? = [truncated]
  oneToken : (parts.map Prod.fst).filterMap PageItem.token? = [nextToken] ∨
    nextToken = [] ∧ (parts.map Prod.fst).filterMap PageItem.token? = []
  nextToken_ne_nil : truncated = true → nextToken ≠ []

namespace ListDocument

def items (d : ListDocument) : List PageItem := d.parts.map Prod.fst

def head (d : ListDocument) : Bytes :=
  d.declaration ++ startTag (utf8 "ListBucketResult") d.attributes

def xml (d : ListDocument) : Bytes :=
  d.head ++ (PageItem.text d.parts ++ endTag (utf8 "ListBucketResult"))

def objects (d : ListDocument) : List ObjectInfo := d.items.filterMap PageItem.object?

def commonPrefixes (d : ListDocument) : List Bytes := d.items.filterMap PageItem.commonPrefix?

variable (d : ListDocument)

theorem root_markup (attributes : Bytes) (h : IsAttributes attributes) {tag : Bytes}
    (htag : tag ∈ pageNames) :
    Passes (utf8 "<" ++ tag ++ utf8 ">") (startTag (utf8 "ListBucketResult") attributes) ∧
      Passes (utf8 "<" ++ tag ++ utf8 ">") (endTag (utf8 "ListBucketResult")) := by
  have hname := PageItem.isName_of_mem_pageNames htag
  have hroot : IsName (utf8 "ListBucketResult") ∧ utf8 "ListBucketResult" ∉ pageNames := by decide
  have hne : utf8 "ListBucketResult" ≠ tag := fun heq ↦ hroot.2 (heq ▸ htag)
  rw [openTag_eq]
  exact ⟨passes_startTag hroot.1 h.1 (not_prefix_startTag hname hroot.1 hne h),
    passes_endTag hroot.1 fun _ ↦ not_prefix_slash hname.1 _⟩

theorem head_passes {tag : Bytes} (htag : tag ∈ pageNames) :
    Passes (utf8 "<" ++ tag ++ utf8 ">") d.head :=
  (d.declaration_ok.passes htag (PageItem.isName_of_mem_pageNames htag)).1.append
    (root_markup d.attributes d.attributes_ok htag).1

theorem findSome?_flag : d.items.findSome? PageItem.flag? = some d.truncated := by
  rw [← List.head?_filterMap, items, d.oneFlag, List.head?_cons]

theorem findSome?_token : (d.items.findSome? PageItem.token?).getD [] = d.nextToken := by
  rw [← List.head?_filterMap, items]
  rcases d.oneToken with h | ⟨hnil, h⟩
  · rw [h, List.head?_cons, Option.getD_some]
  · rw [h, hnil]
    rfl

theorem parseListPage_eq_readItems (objects : List ObjectInfo) (prefixes : List Bytes) :
    parseListPage d.xml objects prefixes
      = (PageItem.readItems d.items).map (ListPage.after objects prefixes) := by
  have hrest : ∀ tag ∈ pageNames, nextElement (endTag (utf8 "ListBucketResult")) tag = none := by
    decide
  rw [xml, PageItem.parseListPage_text d.rendered (fun tag htag ↦ d.head_passes htag) hrest, items]

theorem readItems_items : PageItem.readItems d.items
    = .ok ⟨d.objects, d.commonPrefixes, d.truncated, d.nextToken⟩ := by
  rw [PageItem.readItems, d.findSome?_flag, d.findSome?_token, Option.getD_some,
    if_neg fun h ↦ d.nextToken_ne_nil h.1 h.2]
  rfl

/-- **A page is read back.** Whatever the names of the objects are, and whatever else stands in the
document, parsing it appends its objects and its common prefixes in order and yields its flag and
its token. -/
theorem parseListPage_xml (objects : List ObjectInfo) (prefixes : List Bytes) :
    parseListPage d.xml objects prefixes
      = .ok ⟨objects ++ d.objects, prefixes ++ d.commonPrefixes, d.truncated, d.nextToken⟩ := by
  rw [d.parseListPage_eq_readItems, d.readItems_items]
  rfl

/-! ### Every listing has a document -/

/-- The items of a listing, its entries first. -/
def plainItems (objects : List ObjectInfo) (commonPrefixes : List Bytes) (truncated : Bool)
    (nextToken : Bytes) : List PageItem :=
  objects.map .object ++ commonPrefixes.map .commonPrefix ++
    [.isTruncated truncated, .nextToken nextToken]

/-- The plainest way to write an item. -/
def plainText : PageItem → Bytes
  | .object o => element (utf8 "Contents") ([] ++ (element (utf8 "Key") (xmlEscape o.key) ++
      ([] ++ (element (utf8 "Size") (decimal o.size) ++ []))))
  | .commonPrefix p => element (utf8 "CommonPrefixes")
      ([] ++ (element (utf8 "Prefix") (xmlEscape p) ++ []))
  | .isTruncated flag => element (utf8 "IsTruncated") (utf8 (toString flag))
  | .nextToken token => element (utf8 "NextContinuationToken") (xmlEscape token)
  | .other => []

theorem rendered_plainText {item : PageItem} (h : ∀ o, item = .object o → o.size < 2 ^ 64) :
    item.Rendered (plainText item) := by
  cases item with
  | object o => exact .element rfl (.keySize (h o rfl) .nil .nil .nil)
  | commonPrefix p => exact .element rfl (.commonPrefix .nil .nil)
  | isTruncated flag => exact .element rfl (.isTruncated flag)
  | nextToken token => exact .element rfl (.nextToken token)
  | other => exact .other .nil

section Plain

variable (objects : List ObjectInfo) (commonPrefixes : List Bytes) (truncated : Bool)
  (nextToken : Bytes)

theorem map_fst_plainText :
    ((plainItems objects commonPrefixes truncated nextToken).map
      fun item ↦ (item, plainText item)).map Prod.fst
      = plainItems objects commonPrefixes truncated nextToken := by
  simp [Function.comp_def]

theorem filterMap_plainItems {α : Type*} (pick : PageItem → Option α) :
    (plainItems objects commonPrefixes truncated nextToken).filterMap pick
      = objects.filterMap (fun o ↦ pick (.object o)) ++
        commonPrefixes.filterMap (fun p ↦ pick (.commonPrefix p)) ++
        [.isTruncated truncated, .nextToken nextToken].filterMap pick := by
  simp only [plainItems, List.filterMap_append, List.filterMap_map, Function.comp_def]

variable {objects truncated nextToken}

/-- The plainest document of a listing. -/
def plain (hsize : ∀ o ∈ objects, o.size < 2 ^ 64) (hnext : truncated = true → nextToken ≠ []) :
    ListDocument where
  declaration := []
  attributes := []
  parts := (plainItems objects commonPrefixes truncated nextToken).map
    fun item ↦ (item, plainText item)
  truncated := truncated
  nextToken := nextToken
  declaration_ok := .nil
  attributes_ok := ⟨List.not_mem_nil, .inl rfl⟩
  rendered := by
    rintro p hp
    obtain ⟨item, hitem, rfl⟩ := List.mem_map.mp hp
    refine rendered_plainText fun o ho ↦ hsize o ?_
    subst ho
    simpa [plainItems] using hitem
  oneFlag := by
    rw [map_fst_plainText, filterMap_plainItems]
    simp [PageItem.flag?]
  oneToken := by
    rw [map_fst_plainText, filterMap_plainItems]
    simp [PageItem.token?, List.filterMap_cons]
  nextToken_ne_nil := hnext

/-- **Every listing has a document.** -/
theorem exists_document_of_listing (hsize : ∀ o ∈ objects, o.size < 2 ^ 64)
    (hnext : truncated = true → nextToken ≠ []) :
    ∃ d : ListDocument, d.objects = objects ∧ d.commonPrefixes = commonPrefixes ∧
      d.truncated = truncated ∧ d.nextToken = nextToken := by
  refine ⟨plain commonPrefixes hsize hnext, ?_, ?_, rfl, rfl⟩
  · rw [ListDocument.objects, items, plain, map_fst_plainText, filterMap_plainItems]
    simp [PageItem.object?]
  · rw [ListDocument.commonPrefixes, items, plain, map_fst_plainText, filterMap_plainItems]
    simp [PageItem.commonPrefix?]

end Plain

end ListDocument

end Nanos3Reader
