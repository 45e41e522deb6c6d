import Nanos3Reader.Client.Listing
import Nanos3Reader.Xml.Page

/-!
# Pages that were cut off

A page may arrive only in part. The search for the next element takes an element that is not closed
for no element, and a missing flag counts as the flag of the last page, so a part of a page is
mostly a page of its own: that of the items before the cut. It is refused in one case only, where
the cut separates the flag of a truncated page from its token.
-/

open ByteText

namespace Nanos3Reader

namespace PageItem

/-- The items whose text ends within the first `n` bytes. -/
def itemsWithin : List (PageItem × Bytes) → ℕ → List PageItem
  | [], _ => []
  | (item, s) :: parts, n => if s.length ≤ n then item :: itemsWithin parts (n - s.length) else []

theorem nextElement_of_cut {tag inner c : Bytes}
    (hpass : Passes (utf8 "</" ++ tag ++ utf8 ">") inner) (hc : c <+: element tag inner)
    (hne : c ≠ element tag inner) : nextElement c tag = none := by
  have hsplit : element tag inner = (utf8 "<" ++ tag ++ utf8 ">") ++
      (inner ++ (utf8 "</" ++ tag ++ utf8 ">")) := by
    simp [element]
  rw [hsplit] at hc hne
  rw [nextElement]
  by_cases hopen : utf8 "<" ++ tag ++ utf8 ">" <+: c
  · obtain ⟨y, rfl⟩ := hopen
    rw [cut_append_self]
    rw [List.prefix_append_right_inj] at hc
    exact hpass.cut_eq_none_of_short hc fun heq ↦ hne (by rw [heq])
  · have hnone : cut (utf8 "<" ++ tag ++ utf8 ">") c = none := by
      rw [cut_eq_none_iff]
      intro hwithin
      rcases List.prefix_or_prefix_of_prefix hc (List.prefix_append _ _) with hle | hle
      · exact hopen ((hwithin.eq_of_length (Nat.le_antisymm hwithin.length_le hle.length_le)).symm ▸
          List.prefix_rfl)
      · exact hopen hle
    rw [hnone]

theorem parseListPage_of_noElement {s : Bytes} (h : ∀ tag ∈ pageNames, nextElement s tag = none)
    (objects : List ObjectInfo) (prefixes : List Bytes) :
    parseListPage s objects prefixes = .ok ⟨objects, prefixes, false, []⟩ := by
  have hempty : AllRendered [] := fun _ hp ↦ absurd hp List.not_mem_nil
  have hhead (tag : Bytes) (_ : tag ∈ pageNames) : Passes (utf8 "<" ++ tag ++ utf8 ">") [] :=
    passes_of_notMem List.not_mem_nil _
  have hparse := parseListPage_text hempty hhead h objects prefixes
  simpa [text, readItems, Except.map, ListPage.after] using hparse

theorem Rendered.nextElement_of_cut {item : PageItem} {s c : Bytes} (h : Rendered item s)
    (hc : c <+: s) (hne : c ≠ s) {tag : Bytes} (htag : tag ∈ pageNames) :
    nextElement c tag = none := by
  rcases h.found_or_passes htag with ⟨-, inner, -, rfl, hpass⟩ | ⟨-, hpass⟩
  · exact PageItem.nextElement_of_cut hpass hc hne
  · rw [nextElement, hpass.cut_eq_none (by simp) hc]

/-- **A text that is cut off** is that of the items within it and of a rest without elements. -/
theorem text_of_cut {parts : List (PageItem × Bytes)} (hparts : AllRendered parts) {tail c : Bytes}
    (htail : ∀ tag ∈ pageNames, Passes (utf8 "<" ++ tag ++ utf8 ">") tail)
    (hc : c <+: text parts ++ tail) :
    ∃ whole rest, c = text whole ++ rest ∧ AllRendered whole ∧
      whole.map Prod.fst = itemsWithin parts c.length ∧
      ∀ tag ∈ pageNames, nextElement rest tag = none := by
  induction parts generalizing c with
  | nil =>
    refine ⟨[], c, rfl, fun _ hp ↦ absurd hp List.not_mem_nil, rfl, fun tag htag ↦ ?_⟩
    rw [nextElement, (htail tag htag).cut_eq_none (by simp) hc]
  | cons p parts ih =>
    obtain ⟨item, s⟩ := p
    have hrendered : Rendered item s := hparts _ List.mem_cons_self
    have htext : text ((item, s) :: parts) ++ tail = s ++ (text parts ++ tail) := by simp [text]
    rw [htext] at hc
    by_cases hs : s <+: c
    · obtain ⟨c, rfl⟩ := hs
      rw [List.prefix_append_right_inj] at hc
      obtain ⟨whole, rest, rfl, hwhole, hitems, hrest⟩ :=
        ih (fun q hq ↦ hparts q (List.mem_cons_of_mem _ hq)) hc
      refine ⟨(item, s) :: whole, rest, by simp [text], ?_, ?_, hrest⟩
      · rintro q hq
        rcases List.mem_cons.mp hq with rfl | hq
        · exact hrendered
        · exact hwhole q hq
      · rw [List.map_cons, itemsWithin, if_pos (by simp), hitems]
        simp
    · have hcs : c <+: s :=
        (List.prefix_or_prefix_of_prefix hc (List.prefix_append _ _)).resolve_right hs
      have hne : c ≠ s := fun heq ↦ hs (heq ▸ List.prefix_rfl)
      have hlt : c.length < s.length :=
        lt_of_le_of_ne hcs.length_le fun heq ↦ hne (hcs.eq_of_length heq)
      refine ⟨[], c, rfl, fun _ hp ↦ absurd hp List.not_mem_nil, ?_,
        fun tag htag ↦ hrendered.nextElement_of_cut hcs hne htag⟩
      rw [itemsWithin, if_neg (by omega), List.map_nil]

theorem prefix_itemsWithin (parts : List (PageItem × Bytes)) (n : ℕ) :
    itemsWithin parts n <+: parts.map Prod.fst := by
  induction parts generalizing n with
  | nil => exact List.prefix_rfl
  | cons p parts ih =>
    rw [itemsWithin]
    split
    · rw [List.map_cons, List.prefix_cons_inj]
      exact ih _
    · exact List.nil_prefix

end PageItem

namespace ListDocument

variable (d : ListDocument)

/-- The items that are whole in the first `n` bytes of the document. -/
def itemsWithin (n : ℕ) : List PageItem :=
  if n < d.head.length then [] else PageItem.itemsWithin d.parts (n - d.head.length)

/-- The first `n` bytes end behind the flag of a truncated page and before the end of its token. -/
def CutsOffToken (n : ℕ) : Prop :=
  .isTruncated true ∈ d.itemsWithin n ∧ ∀ token, .nextToken token ∉ d.itemsWithin n

theorem prefix_itemsWithin (n : ℕ) : d.itemsWithin n <+: d.items := by
  rw [itemsWithin]
  split
  · exact List.nil_prefix
  · exact PageItem.prefix_itemsWithin d.parts _

/-- **A part of a page is the page of the items in it.** -/
theorem parseListPage_cut {c : Bytes} (hc : c <+: d.xml) (objects : List ObjectInfo)
    (prefixes : List Bytes) :
    parseListPage c objects prefixes
      = (PageItem.readItems (d.itemsWithin c.length)).map (ListPage.after objects prefixes) := by
  have htail : ∀ tag ∈ pageNames,
      Passes (utf8 "<" ++ tag ++ utf8 ">") (endTag (utf8 "ListBucketResult")) := fun tag htag ↦
    (root_markup d.attributes d.attributes_ok htag).2
  rw [xml] at hc
  by_cases hhead : d.head <+: c
  · obtain ⟨c, rfl⟩ := hhead
    rw [List.prefix_append_right_inj] at hc
    obtain ⟨whole, rest, rfl, hwhole, hitems, hrest⟩ :=
      PageItem.text_of_cut d.rendered htail hc
    rw [PageItem.parseListPage_text hwhole (fun tag htag ↦ d.head_passes htag) hrest, hitems,
      itemsWithin, if_neg (by simp)]
    simp
  · have hle : c <+: d.head :=
      (List.prefix_or_prefix_of_prefix hc (List.prefix_append _ _)).resolve_right hhead
    have hlt : c.length < d.head.length :=
      lt_of_le_of_ne hle.length_le fun heq ↦ hhead (hle.eq_of_length heq ▸ List.prefix_rfl)
    have hnone : ∀ tag ∈ pageNames, nextElement c tag = none := by
      intro tag htag
      rw [nextElement, (d.head_passes htag).cut_eq_none (by simp) hle]
    rw [itemsWithin, if_pos hlt, PageItem.parseListPage_of_noElement hnone]
    simp [PageItem.readItems, Except.map, ListPage.after]

section Items

variable {d} {items : List PageItem}

theorem eq_nil_or_eq_of_prefix_singleton {α : Type*} {l : List α} {a : α} (h : l <+: [a]) :
    l = [] ∨ l = [a] := by
  rcases List.prefix_cons_iff.mp h with hnil | ⟨t, rfl, ht⟩
  · exact .inl hnil
  · exact .inr (by rw [List.prefix_nil.mp ht])

theorem isTruncated_mem_iff (h : items <+: d.items) :
    (.isTruncated true ∈ items ↔ (items.findSome? PageItem.flag?).getD false = true) ∧
      (.isTruncated true ∈ items → d.truncated = true) := by
  have hmem : .isTruncated true ∈ items ↔ true ∈ items.filterMap PageItem.flag? := by
    rw [List.mem_filterMap]
    constructor
    · exact fun hmem ↦ ⟨_, hmem, rfl⟩
    · rintro ⟨item, hmem, hitem⟩
      cases item with
      | isTruncated flag => exact Option.some.inj hitem ▸ hmem
      | object o => cases hitem
      | commonPrefix p => cases hitem
      | nextToken token => cases hitem
      | other => cases hitem
  have hflags : items.filterMap PageItem.flag? <+: [d.truncated] :=
    d.oneFlag ▸ h.filterMap PageItem.flag?
  rw [← List.head?_filterMap, hmem]
  rcases eq_nil_or_eq_of_prefix_singleton hflags with hnil | hone
  · simp [hnil]
  · rw [hone, List.mem_singleton, List.head?_cons, Option.getD_some]
    exact ⟨eq_comm, Eq.symm⟩

theorem nextToken_notMem_iff (h : items <+: d.items) (htruncated : d.truncated = true) :
    (∀ token, .nextToken token ∉ items) ↔ (items.findSome? PageItem.token?).getD [] = [] := by
  have hmem : (∀ token, .nextToken token ∉ items) ↔ items.filterMap PageItem.token? = [] := by
    rw [List.filterMap_eq_nil_iff]
    constructor
    · rintro hno (o | p | flag | token | _) hitem
      · rfl
      · rfl
      · rfl
      · exact absurd hitem (hno token)
      · rfl
    · intro hnone token hitem
      cases hnone _ hitem
  have htokens := h.filterMap PageItem.token?
  have hne := d.nextToken_ne_nil htruncated
  rw [← List.head?_filterMap, hmem]
  rcases d.oneToken with hone | ⟨hnil, -⟩
  · rw [ListDocument.items, hone] at htokens
    rcases eq_nil_or_eq_of_prefix_singleton htokens with hnil | hone
    · simp [hnil]
    · simp [hone, hne]
  · exact absurd hnil hne

/-- Some items of a document are refused if they have the flag of a truncated page without its
token. -/
theorem readItems_eq_error_iff (h : items <+: d.items) :
    (∃ e, PageItem.readItems items = .error e)
      ↔ .isTruncated true ∈ items ∧ ∀ token, .nextToken token ∉ items := by
  obtain ⟨hflag, htruncated⟩ := isTruncated_mem_iff h
  have hrefused : (∃ e, PageItem.readItems items = .error e) ↔
      (items.findSome? PageItem.flag?).getD false = true ∧
        (items.findSome? PageItem.token?).getD [] = [] := by
    rw [PageItem.readItems]
    split
    · next hmissing => exact iff_of_true ⟨_, rfl⟩ hmissing
    · next hmissing => exact iff_of_false (by simp) hmissing
  rw [hrefused, ← hflag]
  exact and_congr_right fun hmem ↦ (nextToken_notMem_iff h (htruncated hmem)).symm

end Items

/-- **Only a cut between the flag and the token is noticed.** -/
theorem parseListPage_cut_eq_error_iff {c : Bytes} (hc : c <+: d.xml) (objects : List ObjectInfo)
    (prefixes : List Bytes) :
    (∃ e, parseListPage c objects prefixes = .error e) ↔ d.CutsOffToken c.length := by
  rw [d.parseListPage_cut hc, CutsOffToken,
    ← readItems_eq_error_iff (d.prefix_itemsWithin c.length)]
  cases PageItem.readItems (d.itemsWithin c.length) with
  | error e => exact iff_of_true ⟨e, rfl⟩ ⟨e, rfl⟩
  | ok page => exact iff_of_false (by simp [Except.map]) (by simp)

theorem parseListPage_cut_of_noFlag {c : Bytes} (hc : c <+: d.xml)
    (hflag : .isTruncated true ∉ d.itemsWithin c.length) (objects : List ObjectInfo)
    (prefixes : List Bytes) :
    ∃ page, parseListPage c objects prefixes = .ok page ∧ page.truncated = false ∧
      page.objects = objects ++ (d.itemsWithin c.length).filterMap PageItem.object? ∧
      page.commonPrefixes
        = prefixes ++ (d.itemsWithin c.length).filterMap PageItem.commonPrefix? := by
  have hfalse : ((d.itemsWithin c.length).findSome? PageItem.flag?).getD false = false := by
    rwa [(isTruncated_mem_iff (d.prefix_itemsWithin c.length)).1, Bool.not_eq_true] at hflag
  rw [d.parseListPage_cut hc, PageItem.readItems, hfalse, if_neg (by simp)]
  exact ⟨_, rfl, rfl, rfl, rfl⟩

/-- **Incomplete pages are mostly accepted.** Of all cuts of a listing document, those and only
those are refused that separate the flag of a truncated page from its token. `list` fails on these,
and where the cut is before the end of the flag it reports success with the entries before the cut.
A text that is no listing is an empty one. -/
theorem cutPage_refused_iff {c : Bytes} (hc : c <+: d.xml) (objects : List ObjectInfo)
    (prefixes : List Bytes) :
    ((∃ e, parseListPage c objects prefixes = .error e) ↔ d.CutsOffToken c.length) ∧
    (∀ (im : ClientImpl) (env : Outside) (prefixUri bucket pfx delimiter token : Bytes)
      (w w' : World) (r : Reply) (fuel : ℕ),
      im.run env w (listCall bucket pfx delimiter token) = (.ok r, w') →
      r.overflow = false → r.rc = .ok → r.code = 200 → r.text = c →
      (d.CutsOffToken c.length → ∃ e, im.listLoop env prefixUri bucket pfx delimiter (fuel + 1) w
        token objects prefixes = some (.error e, w')) ∧
      (.isTruncated true ∉ d.itemsWithin c.length →
        im.listLoop env prefixUri bucket pfx delimiter (fuel + 1) w token objects prefixes
          = some (.ok (objects ++ (d.itemsWithin c.length).filterMap PageItem.object?,
            prefixes ++ (d.itemsWithin c.length).filterMap PageItem.commonPrefix?), w'))) ∧
    ∀ s, (∀ tag ∈ pageNames, nextElement s tag = none) →
      parseListPage s objects prefixes = .ok ⟨objects, prefixes, false, []⟩ := by
  refine ⟨d.parseListPage_cut_eq_error_iff hc objects prefixes, ?_,
    fun s hs ↦ PageItem.parseListPage_of_noElement hs objects prefixes⟩
  rintro im env prefixUri bucket pfx delimiter token w w' r fuel hrun hover hrc hcode rfl
  constructor
  · intro hcut
    obtain ⟨e, he⟩ := (d.parseListPage_cut_eq_error_iff hc objects prefixes).mpr hcut
    have hread : ClientImpl.readPage env.strerror prefixUri objects prefixes r
        = .error (prefixUri ++ utf8 ": " ++ e) := by
      rw [ClientImpl.readPage, if_neg (by simp [hover, hrc]), if_neg (by simp [hcode]), he]
    exact ⟨_, by rw [ClientImpl.listLoop, hrun]; dsimp only; rw [hread]⟩
  · intro hlast
    obtain ⟨page, hparse, hlastPage, hobjects, hprefixes⟩ :=
      d.parseListPage_cut_of_noFlag hc hlast objects prefixes
    have hread : ClientImpl.readPage env.strerror prefixUri objects prefixes r = .ok page := by
      rw [ClientImpl.readPage, if_neg (by simp [hover, hrc]), if_neg (by simp [hcode]), hparse]
    rw [ClientImpl.listLoop, hrun]
    dsimp only
    rw [hread]
    dsimp only
    rw [if_pos hlastPage, hobjects, hprefixes]

/-- The document of two objects. -/
def twoObjects : ListDocument :=
  have hsize : ∀ o ∈ [(⟨utf8 "a", 1⟩ : ObjectInfo), ⟨utf8 "b", 2⟩], o.size < 2 ^ 64 := by decide
  have hnext : false = true → ([] : Bytes) ≠ [] := by decide
  plain [] hsize hnext

theorem twoObjects_refused_iff :
    (∃ e, parseListPage (twoObjects.xml.take 90) [] [] = .error e)
      ↔ twoObjects.CutsOffToken (twoObjects.xml.take 90).length :=
  (cutPage_refused_iff twoObjects (List.take_prefix 90 _) [] []).1

/-- Nothing at all is an empty listing. A document that stops inside its second object is a listing
of the first one, which `list` returns as a success. -/
theorem twoObjects_cut :
    let c := twoObjects.xml.take 90
    (parseListPage [] [] [] = .ok ⟨[], [], false, []⟩) ∧ c <+: twoObjects.xml ∧
      c ≠ twoObjects.xml ∧ parseListPage c [] [] = .ok ⟨[⟨utf8 "a", 1⟩], [], false, []⟩ ∧
      (ClientImpl.usEast.list (.answering fun _ _ ↦ { code := 200, chunks := [c] }) 1
        { provider := .create [] } (utf8 "s3://bucket/") [] [] []).map Prod.fst
        = some ⟨true, ([⟨utf8 "a", 1⟩], []), []⟩ := by
  decide +kernel

end ListDocument

end Nanos3Reader
