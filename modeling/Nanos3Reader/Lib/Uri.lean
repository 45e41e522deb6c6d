import Nanos3Reader.Lib.ByteText
import Mathlib.Data.List.TakeWhile

/-!
# Uniform resource identifiers

What RFC 3986 says a URL addresses: how a reference breaks into components (appendix B), which text
a percent-encoded one stands for (section 2.1), and how a path loses its dot segments (section
5.2.4).
-/

open ByteText

namespace Uri

/-! ## Components -/

structure Components where
  scheme : Option Bytes
  authority : Option Bytes
  path : Bytes
  query : Option Bytes
  fragment : Option Bytes

/-- `s` in front of its first `c`, and what follows that, if there is one. -/
def splitFirst (c : UInt8) (s : Bytes) : Bytes × Option Bytes :=
  match cut [c] s with
  | none => (s, none)
  | some (a, b) => (a, some b)

/-- A scheme, and what follows its colon. -/
def splitScheme (s : Bytes) : Option Bytes × Bytes :=
  match cut [58] s with
  | none => (none, s)
  | some (a, b) => if a = [] ∨ 47 ∈ a then (none, s) else (some a, b)

/-- An authority, which stands behind two slashes, and the path. -/
def splitAuthority (s : Bytes) : Option Bytes × Bytes :=
  if [47, 47].isPrefixOf s then
    (some ((s.drop 2).takeWhile (· ≠ 47)), (s.drop 2).dropWhile (· ≠ 47))
  else (none, s)

/-- A reference without its query and its fragment. -/
def front (s : Bytes) : Bytes := (splitFirst 63 (splitFirst 35 s).1).1

/-- Appendix B, which breaks up any text. -/
def parse (s : Bytes) : Components where
  scheme := (splitScheme (front s)).1
  authority := (splitAuthority (splitScheme (front s)).2).1
  path := (splitAuthority (splitScheme (front s)).2).2
  query := (splitFirst 63 (splitFirst 35 s).1).2
  fragment := (splitFirst 35 s).2

/-- What stands in front of the first `@` of the authority. -/
def Components.userinfo (u : Components) : Option Bytes :=
  u.authority.bind fun a ↦ (cut [64] a).map Prod.fst

theorem cut_singleton_of_notMem {c : UInt8} {s : Bytes} (h : c ∉ s) : cut [c] s = none := by
  simpa [cut] using passes_of_notMem h [] []

theorem splitFirst_of_notMem {c : UInt8} {s : Bytes} (h : c ∉ s) : splitFirst c s = (s, none) := by
  rw [splitFirst, cut_singleton_of_notMem h]

theorem mem_splitFirst {c x : UInt8} {s : Bytes} (h : x ∈ (splitFirst c s).1) : x ∈ s ∧ x ≠ c := by
  have hno := notMem_cut_getD c s
  rw [splitFirst] at h
  cases hcut : cut [c] s with
  | none =>
    rw [hcut] at h hno
    exact ⟨h, ne_of_mem_of_not_mem h hno⟩
  | some q =>
    rw [hcut] at h hno
    have hs := cut_eq_some hcut
    exact ⟨by rw [hs]; simp [h], ne_of_mem_of_not_mem h hno⟩

theorem mem_splitScheme {x : UInt8} {s : Bytes} (h : x ∈ (splitScheme s).2) : x ∈ s := by
  rw [splitScheme] at h
  split at h
  · exact h
  · next a b hcut =>
    split at h
    · exact h
    · rw [cut_eq_some hcut]
      exact List.mem_append_right _ h

/-- An authority is text of the reference without a slash, a `?` or a `#`. -/
theorem mem_authority {s a : Bytes} (h : (parse s).authority = some a) {x : UInt8} (hx : x ∈ a) :
    x ∈ s ∧ x ≠ 47 ∧ x ≠ 63 ∧ x ≠ 35 := by
  dsimp only [parse] at h
  rw [splitAuthority] at h
  split at h
  · obtain rfl := Option.some.inj h
    have hslash : x ≠ 47 := by simpa using List.mem_takeWhile_imp hx
    have hfront : x ∈ front s :=
      mem_splitScheme (List.mem_of_mem_drop ((List.takeWhile_prefix _).subset hx))
    obtain ⟨hmem, hquery⟩ := mem_splitFirst hfront
    obtain ⟨hmem, hfragment⟩ := mem_splitFirst hmem
    exact ⟨hmem, hslash, hquery, hfragment⟩
  · cases h

/-- `url` addresses `path` at `authority`, and says nothing else. -/
structure Addresses (url authority path : Bytes) : Prop where
  authority : (parse url).authority = some authority
  path : (parse url).path = path
  userinfo : (parse url).userinfo = none
  query : (parse url).query = none
  fragment : (parse url).fragment = none

theorem notMem_of_userinfo {u : Components} {a : Bytes} (ha : u.authority = some a)
    (h : u.userinfo = none) : 64 ∉ a := by
  rw [Components.userinfo, ha, Option.bind_some, Option.map_eq_none_iff] at h
  intro hmem
  obtain ⟨x, y, rfl, hx⟩ := List.eq_append_cons_of_mem hmem
  rw [cut_singleton_append hx] at h
  cases h

theorem Addresses.clean {url authority path : Bytes} (h : Addresses url authority path) {x : UInt8}
    (hx : x ∈ authority) : x ∈ url ∧ x ≠ 47 ∧ x ≠ 63 ∧ x ≠ 35 ∧ x ≠ 64 := by
  obtain ⟨hmem, hslash, hquery, hfragment⟩ := mem_authority h.authority hx
  exact ⟨hmem, hslash, hquery, hfragment,
    ne_of_mem_of_not_mem hx (notMem_of_userinfo h.authority h.userinfo)⟩

theorem addresses_of_clean {scheme authority : Bytes} (path : Bytes) (hne : scheme ≠ [])
    (hscheme : ∀ x ∈ scheme, x ≠ 58 ∧ x ≠ 47 ∧ x ≠ 63 ∧ x ≠ 35)
    (hauthority : ∀ x ∈ authority, x ≠ 47 ∧ x ≠ 63 ∧ x ≠ 35 ∧ x ≠ 64)
    (hpath : ∀ x ∈ path, x ≠ 63 ∧ x ≠ 35) :
    Addresses (scheme ++ [58, 47, 47] ++ authority ++ 47 :: path) authority (47 :: path) := by
  set url := scheme ++ [58, 47, 47] ++ authority ++ 47 :: path with hurl
  have hclean : ∀ x ∈ url, x ≠ 63 ∧ x ≠ 35 := by
    intro x hx
    simp only [hurl, List.mem_append, List.mem_cons, List.not_mem_nil, or_false] at hx
    rcases hx with ((hx | rfl | rfl | rfl) | hx) | rfl | hx
    · exact ⟨(hscheme x hx).2.2.1, (hscheme x hx).2.2.2⟩
    · decide
    · decide
    · decide
    · exact ⟨(hauthority x hx).2.1, (hauthority x hx).2.2.1⟩
    · decide
    · exact hpath x hx
  have hfragment : splitFirst 35 url = (url, none) :=
    splitFirst_of_notMem fun hx ↦ (hclean _ hx).2 rfl
  have hquery : splitFirst 63 (splitFirst 35 url).1 = (url, none) := by
    rw [hfragment]
    exact splitFirst_of_notMem fun hx ↦ (hclean _ hx).1 rfl
  have hrest : (splitScheme (front url)).2 = [47, 47] ++ (authority ++ 47 :: path) := by
    have hcut : cut [58] url = some (scheme, [47, 47] ++ (authority ++ 47 :: path)) := by
      rw [hurl, List.append_assoc, List.append_assoc]
      exact cut_singleton_append (fun hx ↦ (hscheme _ hx).1 rfl) _
    rw [front, hquery, splitScheme, hcut]
    dsimp only
    rw [if_neg (not_or.mpr ⟨hne, fun hx ↦ (hscheme _ hx).2.1 rfl⟩)]
  have hkeep : ∀ x ∈ authority, decide (x ≠ 47) = true := fun x hx ↦
    decide_eq_true (hauthority x hx).1
  have hauth : splitAuthority (splitScheme (front url)).2 = (some authority, 47 :: path) := by
    have hdrop : ([47, 47] ++ (authority ++ 47 :: path)).drop 2 = authority ++ 47 :: path := rfl
    rw [hrest, splitAuthority, if_pos (List.isPrefixOf_iff_prefix.mpr (List.prefix_append _ _)),
      hdrop, List.takeWhile_append_of_pos hkeep, List.dropWhile_append_of_pos hkeep]
    simp
  refine ⟨by rw [parse, hauth], by rw [parse, hauth], ?_, by rw [parse, hquery],
    by rw [parse, hfragment]⟩
  rw [Components.userinfo, parse, hauth, Option.bind_some,
    cut_singleton_of_notMem fun hx ↦ (hauthority _ hx).2.2.2 rfl, Option.map_none]

theorem splitFirst_snd_eq_none {c : UInt8} {s : Bytes} (h : (splitFirst c s).2 = none) :
    cut [c] s = none := by
  rw [splitFirst] at h
  split at h
  · assumption
  · cases h

/-- What follows a question mark is the query, and the rest of the URL is as it was. -/
theorem Addresses.parse_query {url authority path q : Bytes} (h : Addresses url authority path)
    (hq : 35 ∉ q) :
    (parse (url ++ 63 :: q)).authority = some authority ∧ (parse (url ++ 63 :: q)).path = path ∧
      (parse (url ++ 63 :: q)).query = some q := by
  have hfragment : cut [35] url = none := splitFirst_snd_eq_none h.fragment
  have hfirst : splitFirst 35 url = (url, none) := by rw [splitFirst, hfragment]
  have hmark : cut [63] url = none := by
    have hquery := h.query
    rw [parse, hfirst] at hquery
    exact splitFirst_snd_eq_none hquery
  have hnotMem {c : UInt8} (hcut : cut [c] url = none) : c ∉ url := by
    intro hmem
    obtain ⟨a, b, rfl, ha⟩ := List.eq_append_cons_of_mem hmem
    rw [cut_singleton_append ha] at hcut
    cases hcut
  have hfront : front url = url := by
    rw [front, hfirst, splitFirst_of_notMem (hnotMem hmark)]
  have hwhole : splitFirst 35 (url ++ 63 :: q) = (url ++ 63 :: q, none) := by
    refine splitFirst_of_notMem ?_
    rw [List.mem_append, List.mem_cons, not_or, not_or]
    exact ⟨hnotMem hfragment, by decide, hq⟩
  have hsplit : splitFirst 63 (url ++ 63 :: q) = (url, some q) := by
    rw [splitFirst, cut_singleton_append (hnotMem hmark)]
  have hfront' : front (url ++ 63 :: q) = url := by rw [front, hwhole, hsplit]
  refine ⟨?_, ?_, by rw [parse, hwhole, hsplit]⟩
  · rw [← h.authority, parse, parse, hfront, hfront']
  · rw [← h.path, parse, parse, hfront, hfront']

/-! ## Percent-encoding -/

/-- The value of a hexadecimal digit. -/
def hexValue (c : UInt8) : Option UInt8 :=
  if 48 ≤ c ∧ c ≤ 57 then some (c - 48)
  else if 65 ≤ c ∧ c ≤ 70 then some (c - 55)
  else if 97 ≤ c ∧ c ≤ 102 then some (c - 87)
  else none

/-- The text that percent-encoded text stands for. -/
def percentDecode : Bytes → Option Bytes
  | [] => some []
  | c :: s =>
    if c ≠ 37 then (percentDecode s).map (c :: ·)
    else
      match s with
      | hi :: lo :: s =>
        match hexValue hi, hexValue lo with
        | some h, some l => (percentDecode s).map ((16 * h + l) :: ·)
        | _, _ => none
      | _ => none

theorem percentDecode_cons {c : UInt8} (h : c ≠ 37) (s : Bytes) :
    percentDecode (c :: s) = (percentDecode s).map (c :: ·) := by
  rw [percentDecode.eq_def]
  exact if_pos h

theorem percentDecode_encoded {hi lo h l : UInt8} (hhi : hexValue hi = some h)
    (hlo : hexValue lo = some l) (s : Bytes) :
    percentDecode (37 :: hi :: lo :: s) = (percentDecode s).map ((16 * h + l) :: ·) := by
  rw [percentDecode, if_neg (by decide)]
  simp only [hhi, hlo]

/-- A byte that has no other meaning (section 2.3). -/
def Unreserved (c : UInt8) : Prop :=
  65 ≤ c ∧ c ≤ 90 ∨ 97 ≤ c ∧ c ≤ 122 ∨ 48 ≤ c ∧ c ≤ 57 ∨ c = 45 ∨ c = 46 ∨ c = 95 ∨ c = 126

instance (c : UInt8) : Decidable (Unreserved c) := inferInstanceAs (Decidable (_ ∨ _))

/-- A hexadecimal digit in upper case. -/
def IsUpperHex (c : UInt8) : Prop := 48 ≤ c ∧ c ≤ 57 ∨ 65 ≤ c ∧ c ≤ 70

instance (c : UInt8) : Decidable (IsUpperHex c) := inferInstanceAs (Decidable (_ ∨ _))

/-- Text of unreserved bytes and encoded ones. -/
inductive Encoded : Bytes → Prop
  | nil : Encoded []
  | keep {c : UInt8} {s : Bytes} (hc : Unreserved c) (hs : Encoded s) : Encoded (c :: s)
  | escape {hi lo : UInt8} {s : Bytes} (hhi : IsUpperHex hi) (hlo : IsUpperHex lo)
      (hs : Encoded s) : Encoded (37 :: hi :: lo :: s)

theorem Encoded.append {s t : Bytes} (hs : Encoded s) (ht : Encoded t) : Encoded (s ++ t) := by
  induction hs with
  | nil => exact ht
  | keep hc _ ih => exact .keep hc ih
  | escape hhi hlo _ ih => exact .escape hhi hlo ih

theorem Encoded.notMem {s : Bytes} (h : Encoded s) {c : UInt8} (hc : ¬Unreserved c) (hne : c ≠ 37) :
    c ∉ s := by
  have hdigit {d : UInt8} (hd : IsUpperHex d) : c ≠ d := by
    rintro rfl
    rcases hd with hd | hd
    · exact hc (.inr (.inr (.inl hd)))
    · exact hc (.inl ⟨hd.1, UInt8.le_trans hd.2 (by decide)⟩)
  induction h with
  | nil => exact List.not_mem_nil
  | keep hkeep _ ih =>
    exact List.not_mem_cons_of_ne_of_not_mem (by rintro rfl; exact hc hkeep) ih
  | escape hhi hlo _ ih =>
    exact List.not_mem_cons_of_ne_of_not_mem hne (List.not_mem_cons_of_ne_of_not_mem (hdigit hhi)
      (List.not_mem_cons_of_ne_of_not_mem (hdigit hlo) ih))

/-! ## Queries -/

/-- The parameters of a query, each a name and a value as they are written. -/
def parameters (q : Bytes) : Option (List (Bytes × Bytes)) :=
  (q.splitOn 38).mapM fun p ↦
    match p.splitOn 61 with
    | [name, value] => some (name, value)
    | _ => none

/-- A query of these parameters. -/
def renderParameters (ps : List (Bytes × Bytes)) : Bytes :=
  [38].intercalate (ps.map fun p ↦ p.1 ++ 61 :: p.2)

theorem splitOn_pair {c : UInt8} {s t : Bytes} (hs : c ∉ s) (ht : c ∉ t) :
    (s ++ c :: t).splitOn c = [s, t] := by
  have hfree : ∀ l ∈ [s, t], c ∉ l := by simp [hs, ht]
  have h := List.splitOn_intercalate c hfree (by simp)
  simpa [List.intercalate] using h

/-- **A query falls into the parameters it was made of**, if they are encoded. -/
theorem parameters_render {ps : List (Bytes × Bytes)} (hne : ps ≠ [])
    (hps : ∀ p ∈ ps, Encoded p.1 ∧ Encoded p.2) : parameters (renderParameters ps) = some ps := by
  have hamp : ¬Unreserved 38 := by decide
  have heq : ¬Unreserved 61 := by decide
  have hsplit : (renderParameters ps).splitOn 38 = ps.map fun p ↦ p.1 ++ 61 :: p.2 := by
    refine List.splitOn_intercalate 38 (fun l hl ↦ ?_) (by simpa using hne)
    obtain ⟨p, hp, rfl⟩ := List.mem_map.mp hl
    obtain ⟨hname, hvalue⟩ := hps p hp
    simp [hname.notMem hamp (by decide), hvalue.notMem hamp (by decide)]
  rw [parameters, hsplit, List.mapM_map]
  clear hsplit hne
  induction ps with
  | nil => rfl
  | cons p ps ih =>
    obtain ⟨hname, hvalue⟩ := hps p List.mem_cons_self
    rw [List.mapM_cons, ih fun q hq ↦ hps q (List.mem_cons_of_mem _ hq), Function.comp_apply,
      splitOn_pair (hname.notMem heq (by decide)) (hvalue.notMem heq (by decide))]
    rfl

/-! ## Dot segments -/

/-- The first segment of a path, with the slash in front of it. -/
def firstSegment (s : Bytes) : Bytes :=
  s.take 1 ++ (s.drop 1).takeWhile (· ≠ 47)

/-- A path without its last segment and the slash in front of that. -/
def dropLastSegment (s : Bytes) : Bytes := (s.rdropWhile (· ≠ 47)).dropLast

/-- A step of the loop of section 5.2.4 on its output and input buffers. -/
def dotStep (out s : Bytes) : Bytes × Bytes :=
  if [46, 46, 47].isPrefixOf s then (out, s.drop 3)
  else if [46, 47].isPrefixOf s then (out, s.drop 2)
  else if [47, 46, 47].isPrefixOf s then (out, s.drop 2)
  else if s = [47, 46] then (out, [47])
  else if [47, 46, 46, 47].isPrefixOf s then (dropLastSegment out, s.drop 3)
  else if s = [47, 46, 46] then (dropLastSegment out, [47])
  else if s = [46] ∨ s = [46, 46] then (out, [])
  else (out ++ firstSegment s, s.drop (firstSegment s).length)

theorem length_dotStep_lt {s : Bytes} (hs : s ≠ []) (out : Bytes) :
    (dotStep out s).2.length < s.length := by
  have hpos : 0 < s.length := List.length_pos_of_ne_nil hs
  have hfirst : 0 < (firstSegment s).length := by
    rw [firstSegment, List.length_append, List.length_take]
    omega
  have hdrop : ∀ k, 0 < k → (s.drop k).length < s.length := by
    intro k hk
    rw [List.length_drop]
    omega
  fun_cases dotStep out s with
  | case1 => exact hdrop 3 (by decide)
  | case2 | case3 => exact hdrop 2 (by decide)
  | case4 _ _ _ h =>
    rw [h]
    exact Nat.lt_add_one 1
  | case5 => exact hdrop 3 (by decide)
  | case6 _ _ _ _ _ h =>
    rw [h]
    exact Nat.lt_add_of_pos_left (Nat.succ_pos 1)
  | case7 => exact hpos
  | case8 => exact hdrop _ hfirst

/-- `remove_dot_segments`, with what it has put out. -/
def removeDots (out s : Bytes) : Bytes :=
  if _h : s = [] then out else removeDots (dotStep out s).1 (dotStep out s).2
termination_by s.length
decreasing_by exact length_dotStep_lt _h out

def removeDotSegments (s : Bytes) : Bytes := removeDots [] s

theorem removeDots_step {out s out' s' : Bytes} (hs : s ≠ []) (h : dotStep out s = (out', s')) :
    removeDots out s = removeDots out' s' := by
  rw [removeDots, dif_neg hs, h]

/-- The path with these segments. -/
def absolute (segs : List Bytes) : Bytes := segs.flatMap (47 :: ·)

/-- A segment that the loop removes. -/
def IsDots (seg : Bytes) : Prop := seg = [46] ∨ seg = [46, 46]

instance : DecidablePred IsDots := fun seg ↦
  inferInstanceAs (Decidable (seg = [46] ∨ seg = [46, 46]))

@[simp] theorem absolute_nil : absolute [] = [] := rfl

theorem absolute_cons (seg : Bytes) (segs : List Bytes) :
    absolute (seg :: segs) = 47 :: seg ++ absolute segs := rfl

theorem absolute_splitOn (s : Bytes) : absolute (s.splitOn 47) = 47 :: s := by
  have key : ∀ segs : List Bytes, segs ≠ [] → absolute segs = 47 :: [47].intercalate segs := by
    intro segs
    induction segs with
    | nil => exact fun h ↦ absurd rfl h
    | cons seg segs ih =>
      intro _
      cases segs with
      | nil => simp [absolute_cons, List.intercalate]
      | cons seg' segs =>
        rw [absolute_cons, ih (List.cons_ne_nil _ _), List.intercalate_cons_cons]
        simp
  rw [key _ (List.splitOn_ne_nil _ _), List.intercalate_splitOn]

theorem isPrefix_firstSegment (s : Bytes) : firstSegment s <+: s := by
  conv_rhs => rw [← List.take_append_drop 1 s]
  exact (List.prefix_append_right_inj _).mpr (List.takeWhile_prefix _)

theorem length_dropLastSegment_le (s : Bytes) : (dropLastSegment s).length ≤ s.length :=
  ((List.dropLast_prefix _).trans (List.rdropWhile_prefix _ s)).length_le

theorem length_dotStep_le (out s : Bytes) :
    (dotStep out s).1.length + (dotStep out s).2.length ≤ out.length + s.length := by
  have hlast := length_dropLastSegment_le out
  have hfirst := (isPrefix_firstSegment s).length_le
  have hdrop : ∀ k, (s.drop k).length ≤ s.length := fun k ↦ List.length_drop ▸ Nat.sub_le _ _
  fun_cases dotStep out s with
  | case1 => exact Nat.add_le_add_left (hdrop 3) _
  | case2 | case3 => exact Nat.add_le_add_left (hdrop 2) _
  | case4 _ _ _ h =>
    rw [h]
    exact Nat.add_le_add_left (Nat.le_add_left 1 1) _
  | case5 => exact Nat.add_le_add hlast (hdrop 3)
  | case6 _ _ _ _ _ h =>
    rw [h]
    exact Nat.add_le_add hlast (Nat.le_add_left 1 2)
  | case7 => exact Nat.add_le_add_left (Nat.zero_le _) _
  | case8 =>
    rw [List.length_append, List.length_drop]
    omega

theorem length_removeDots_le (out s : Bytes) :
    (removeDots out s).length ≤ out.length + s.length := by
  induction out, s using removeDots.induct with
  | case1 out => simp [removeDots]
  | case2 out s hs ih =>
    rw [removeDots, dif_neg hs]
    exact ih.trans (length_dotStep_le out s)

/-- Where a path begins with a segment and a slash, that is its first segment and not its last. -/
theorem prefix_absolute_iff {dots seg : Bytes} (hdots : 47 ∉ dots) (hseg : 47 ∉ seg)
    (segs : List Bytes) :
    47 :: dots ++ [47] <+: absolute (seg :: segs) ↔ seg = dots ∧ segs ≠ [] := by
  rw [absolute_cons, List.cons_append, List.cons_append, List.prefix_cons_inj]
  cases segs with
  | nil =>
    simp only [absolute_nil, List.append_nil, ne_eq, not_true_eq_false, and_false, iff_false]
    intro h
    exact hseg (h.subset (by simp))
  | cons seg' segs =>
    rw [absolute_cons]
    constructor
    · rintro ⟨t, ht⟩
      rw [List.append_assoc] at ht
      exact ⟨(append_cons_inj hdots hseg ht).1.symm, List.cons_ne_nil _ _⟩
    · rintro ⟨rfl, -⟩
      exact ⟨seg' ++ absolute segs, by simp⟩

theorem absolute_eq_iff {dots seg : Bytes} (hdots : 47 ∉ dots) (segs : List Bytes) :
    absolute (seg :: segs) = 47 :: dots ↔ seg = dots ∧ segs = [] := by
  rw [absolute_cons, List.cons_append, List.cons.injEq]
  cases segs with
  | nil => simp
  | cons seg' segs =>
    simp only [true_and, reduceCtorEq, and_false, iff_false]
    rintro rfl
    exact hdots (by simp [absolute_cons])

theorem firstSegment_absolute {seg : Bytes} (hseg : 47 ∉ seg) (segs : List Bytes) :
    firstSegment (absolute (seg :: segs)) = 47 :: seg := by
  have hkeep : ∀ x ∈ seg, decide (x ≠ 47) = true := fun x hx ↦
    decide_eq_true (ne_of_mem_of_not_mem hx hseg)
  have hrest : (absolute segs).takeWhile (· ≠ 47) = [] := by
    cases segs with
    | nil => rfl
    | cons seg' segs => simp [absolute_cons]
  rw [firstSegment, absolute_cons, List.cons_append, List.take_succ_cons, List.take_zero,
    List.drop_succ_cons, List.drop_zero, List.takeWhile_append_of_pos hkeep, hrest,
    List.append_nil, List.singleton_append]

/-- A step on an absolute path: the first segment moves to the output, or it is one of dots. -/
theorem dotStep_absolute {seg : Bytes} (hseg : 47 ∉ seg) (segs : List Bytes) (out : Bytes) :
    dotStep out (absolute (seg :: segs)) =
      if seg = [46] then (out, absolute segs ++ if segs = [] then [47] else [])
      else if seg = [46, 46] then
        (dropLastSegment out, absolute segs ++ if segs = [] then [47] else [])
      else (out ++ 47 :: seg, absolute segs) := by
  have hhead : ∀ t : Bytes, ¬(46 :: t).isPrefixOf (absolute (seg :: segs)) = true := by
    intro t h
    rw [List.isPrefixOf_iff_prefix, absolute_cons, List.cons_append, List.cons_prefix_cons] at h
    exact absurd h.1 (by decide)
  have hdot : (47 : UInt8) ∉ [46] := by decide
  have hdots : (47 : UInt8) ∉ [46, 46] := by decide
  have hone : [47, 46, 47].isPrefixOf (absolute (seg :: segs)) = true ↔ seg = [46] ∧ segs ≠ [] :=
    List.isPrefixOf_iff_prefix.trans (prefix_absolute_iff hdot hseg segs)
  have htwo : [47, 46, 46, 47].isPrefixOf (absolute (seg :: segs)) = true ↔
      seg = [46, 46] ∧ segs ≠ [] :=
    List.isPrefixOf_iff_prefix.trans (prefix_absolute_iff hdots hseg segs)
  have hone' : absolute (seg :: segs) = [47, 46] ↔ seg = [46] ∧ segs = [] :=
    absolute_eq_iff hdot segs
  have htwo' : absolute (seg :: segs) = [47, 46, 46] ↔ seg = [46, 46] ∧ segs = [] :=
    absolute_eq_iff hdots segs
  have hbare : ¬(absolute (seg :: segs) = [46] ∨ absolute (seg :: segs) = [46, 46]) := by
    simp [absolute_cons]
  rw [dotStep, if_neg (hhead _), if_neg (hhead _), if_neg hbare, firstSegment_absolute hseg]
  simp only [hone, htwo, hone', htwo']
  by_cases h1 : seg = [46]
  · subst h1
    cases segs <;> simp [absolute_cons]
  · by_cases h2 : seg = [46, 46]
    · subst h2
      cases segs <;> simp [absolute_cons]
    · simp [h1, h2, absolute_cons]

theorem length_dotStep_absolute_lt {seg : Bytes} (hseg : 47 ∉ seg) (hdots : IsDots seg)
    (segs : List Bytes) (out : Bytes) :
    (dotStep out (absolute (seg :: segs))).1.length
      + (dotStep out (absolute (seg :: segs))).2.length
        < out.length + (absolute (seg :: segs)).length := by
  have hlast := length_dropLastSegment_le out
  have hrest : (absolute segs ++ if segs = [] then [47] else []).length
      ≤ (absolute segs).length + 1 := by
    split <;> simp
  have hwhole : (absolute (seg :: segs)).length = seg.length + (absolute segs).length + 1 := by
    rw [absolute_cons, List.cons_append, List.length_cons, List.length_append]
  rw [dotStep_absolute hseg, hwhole]
  rcases hdots with rfl | rfl
  · rw [if_pos rfl, List.length_singleton]
    dsimp only
    omega
  · rw [if_neg (by decide), if_pos rfl]
    dsimp only [List.length_cons]
    omega

/-- A path is a fixed point exactly if it has no segment of dots: a step drops such a segment, and
nothing that follows makes up for it. -/
theorem removeDots_absolute_iff {segs : List Bytes} (hsegs : ∀ seg ∈ segs, 47 ∉ seg) (out : Bytes) :
    removeDots out (absolute segs) = out ++ absolute segs ↔ ∀ seg ∈ segs, ¬IsDots seg := by
  induction segs generalizing out with
  | nil => simp [removeDots]
  | cons seg segs ih =>
    have hseg : 47 ∉ seg := hsegs seg List.mem_cons_self
    have hrest := fun out ↦ ih (fun s hs ↦ hsegs s (List.mem_cons_of_mem _ hs)) out
    rw [removeDots, dif_neg (by simp [absolute_cons]), List.forall_mem_cons]
    by_cases hdots : IsDots seg
    · refine iff_of_false (fun h ↦ ?_) fun h ↦ h.1 hdots
      have hlost := length_dotStep_absolute_lt hseg hdots segs out
      have hle := length_removeDots_le (dotStep out (absolute (seg :: segs))).1
        (dotStep out (absolute (seg :: segs))).2
      rw [h, List.length_append] at hle
      omega
    · obtain ⟨hone, htwo⟩ := not_or.mp hdots
      rw [dotStep_absolute hseg, if_neg hone, if_neg htwo, absolute_cons, ← List.append_assoc,
        hrest]
      simp [hdots]

end Uri
