import Nanos3Reader.Credentials
import Nanos3Reader.Lib.FlatJson

/-!
# Fields of credential documents

`json_field` is no JSON parser. It searches a document for the quoted key, then for the next colon,
and returns the string behind it. What it returns for a flat object is the value of the key unless
the key's text stands in the object before the key does, or a line ends between colon and value.
-/

open ByteText FlatJson

namespace Nanos3Reader

namespace Credentials

/-- The blanks that `json_field` skips. -/
def isJsonBlank (c : UInt8) : Bool := c = 32 || c = 9

/-- What `json_field` does behind the quoted key. -/
def valueBehind (s : Bytes) : Bytes :=
  match cut [58] s with
  | none => []
  | some (_, rest) =>
    match rest.dropWhile isJsonBlank with
    | [] => []
    | c :: rest =>
      if c ≠ 34 then []
      else
        match cut [34] rest with
        | none => []
        | some (value, _) => value

theorem jsonField_eq (body key : Bytes) : jsonField body key
    = (((cut ([34] ++ key ++ [34]) body).map Prod.snd).map valueBehind).getD [] := by
  rw [jsonField]
  cases cut ([34] ++ key ++ [34]) body <;> rfl

/-! ## Behind the key -/

theorem valueBehind_append {s : Bytes} (h : 58 ∉ s) (t : Bytes) :
    valueBehind (s ++ t) = valueBehind t := by
  rw [valueBehind, valueBehind, passes_of_notMem h []]
  cases cut [58] t <;> rfl

theorem valueBehind_colon {a : Bytes} (ha : 58 ∉ a) (s : Bytes) :
    valueBehind (a ++ 58 :: s) = match s.dropWhile isJsonBlank with
      | [] => []
      | c :: rest => if c ≠ 34 then [] else
        match cut [34] rest with
        | none => []
        | some (value, _) => value := by
  rw [valueBehind, cut_singleton_append ha]

theorem valueBehind_of_not_blank {a b : Bytes} (ha : 58 ∉ a) (hb : ¬∀ c ∈ b, isJsonBlank c = true)
    (hquote : 34 ∉ b) (t : Bytes) : valueBehind (a ++ 58 :: (b ++ t)) = [] := by
  have hdrop : b.dropWhile isJsonBlank ≠ [] := by simpa [List.dropWhile_eq_nil_iff] using hb
  obtain ⟨c, rest, hrest⟩ := List.exists_cons_of_ne_nil hdrop
  have hc : c ≠ 34 := fun h ↦
    hquote (h ▸ (List.dropWhile_suffix _).subset (hrest ▸ List.mem_cons_self))
  rw [valueBehind_colon ha, List.dropWhile_append, hrest]
  simp [hc]

theorem valueBehind_of_blank {a b : Bytes} (ha : 58 ∉ a) (hb : ∀ c ∈ b, isJsonBlank c = true)
    (t : Bytes) : valueBehind (a ++ 58 :: (b ++ 34 :: t))
      = ((cut [34] t).map Prod.fst).getD [] := by
  have hdrop : (b ++ 34 :: t).dropWhile isJsonBlank = 34 :: t := by
    rw [List.dropWhile_append_of_pos hb, List.dropWhile_cons_of_neg (by decide)]
  rw [valueBehind_colon ha, hdrop]
  cases hcut : cut [34] t with
  | none => simp [hcut]
  | some q => simp [hcut]

/-- The next colon in these pieces leads to a string: only spaces and tabs stand between. -/
def Leads (ps : List Piece) (v : Bytes) : Prop :=
  ∃ front a b o o' p more, ps = front ++ (a ++ 58 :: b, o) :: (v, o') :: p :: more ∧
    (∀ q ∈ front, 58 ∉ q.1) ∧ 58 ∉ a ∧ ∀ c ∈ b, isJsonBlank c = true

theorem Leads.cons {ps : List Piece} {v : Bytes} (h : Leads ps v) {p : Piece} (hp : 58 ∉ p.1) :
    Leads (p :: ps) v := by
  obtain ⟨front, a, b, o, o', q, more, rfl, hfront, ha, hb⟩ := h
  refine ⟨p :: front, a, b, o, o', q, more, rfl, ?_, ha, hb⟩
  rintro q hq
  rcases List.mem_cons.mp hq with rfl | hq
  · exact hp
  · exact hfront q hq

theorem leads_of_valueBehind_ne_nil {ps : List Piece} (hps : ps ≠ [])
    (hfree : ∀ p ∈ ps, 34 ∉ p.1) (h : valueBehind (join ps) ≠ []) :
    Leads ps (valueBehind (join ps)) := by
  induction ps with
  | nil => exact absurd rfl hps
  | cons p ps ih =>
    have hrest : ∀ q ∈ ps, 34 ∉ q.1 := fun q hq ↦ hfree q (List.mem_cons_of_mem _ hq)
    obtain ⟨s, o⟩ := p
    have hs : 34 ∉ s := hfree (s, o) List.mem_cons_self
    by_cases hcolon : 58 ∈ s
    · obtain ⟨a, b, rfl, ha⟩ := List.eq_append_cons_of_mem hcolon
      have hb : 34 ∉ b := fun hmem ↦ hs (by simp [hmem])
      rcases List.eq_nil_or_concat ps with rfl | ⟨_, _, hconcat⟩
      · refine absurd ?_ h
        rw [join_singleton, valueBehind_colon ha]
        split
        · rfl
        · next c rest hdrop =>
          have hmem := (List.dropWhile_suffix isJsonBlank).subset (hdrop ▸ List.mem_cons_self)
          have hc : c ≠ 34 := fun hc ↦ hb (hc ▸ hmem)
          rw [if_pos hc]
      · have hne : ps ≠ [] := by simp [hconcat]
        obtain ⟨q, rest, rfl⟩ := List.exists_cons_of_ne_nil hne
        rw [join_cons hne, List.append_assoc, List.cons_append] at h ⊢
        by_cases hblank : ∀ c ∈ b, isJsonBlank c = true
        · have hq : 34 ∉ q.1 := hrest q List.mem_cons_self
          rw [valueBehind_of_blank ha hblank] at h ⊢
          cases rest with
          | nil =>
            have hnone : cut [34] q.1 = none :=
              cut_eq_none_iff.mpr fun hwithin ↦ hq (hwithin.subset List.mem_cons_self)
            rw [join_singleton, hnone] at h
            exact absurd rfl h
          | cons r rest =>
            rw [join_cons (List.cons_ne_nil r rest), cut_singleton_append hq]
            exact ⟨[], a, b, o, q.2, r, rest, rfl, by simp, ha, hblank⟩
        · exact absurd (valueBehind_of_not_blank ha hblank hb _) h
    · cases ps with
      | nil =>
        refine absurd ?_ h
        rw [join_singleton, valueBehind,
          cut_eq_none_iff.mpr fun hwithin ↦ hcolon (hwithin.subset (by simp))]
      | cons q rest =>
        have hpass : valueBehind (join ((s, o) :: q :: rest)) = valueBehind (join (q :: rest)) := by
          rw [join_cons (List.cons_ne_nil q rest), ← List.singleton_append, ← List.append_assoc,
            valueBehind_append (by simp [hcolon])]
        rw [hpass] at h ⊢
        exact (ih (List.cons_ne_nil q rest) hrest h).cons hcolon

theorem Leads.eq {ps : List Piece} {v : Bytes} (h : Leads ps v) (hfree : ∀ p ∈ ps, 34 ∉ p.1) :
    valueBehind (join ps) = v := by
  obtain ⟨front, a, b, o, o', p, more, rfl, hfront, ha, hb⟩ := h
  induction front with
  | nil =>
    have hv : 34 ∉ v := hfree (v, o') (by simp)
    rw [List.nil_append, join_cons (by simp), join_cons (by simp), List.append_assoc,
      List.cons_append, valueBehind_of_blank ha hb, cut_singleton_append hv]
    rfl
  | cons q front ih =>
    rw [List.cons_append, join_cons (by simp), ← List.singleton_append, ← List.append_assoc,
      valueBehind_append (by simp [hfront q List.mem_cons_self])]
    exact ih (fun r hr ↦ hfree r (List.mem_cons_of_mem _ hr))
      fun r hr ↦ hfront r (List.mem_cons_of_mem _ hr)

/-- So a string is returned just when the next colon leads there, and nothing when it leads to none
or to an empty one. -/
theorem valueBehind_join_eq_iff {ps : List Piece} (hps : ps ≠ []) (hfree : ∀ p ∈ ps, 34 ∉ p.1)
    (v : Bytes) : valueBehind (join ps) = v
      ↔ (v ≠ [] → Leads ps v) ∧ (v = [] → ∀ w, Leads ps w → w = []) := by
  constructor
  · rintro rfl
    refine ⟨leads_of_valueBehind_ne_nil hps hfree, fun hnil w hw ↦ ?_⟩
    rw [← hw.eq hfree, hnil]
  · rintro ⟨hsome, hnone⟩
    by_cases hv : v = []
    · by_contra hne
      exact hne ((hnone hv _ (leads_of_valueBehind_ne_nil hps hfree (hv ▸ hne))).trans hv.symm)
    · exact (hsome hv).eq hfree

/-! ## In an object -/

/-- `json_field` sees the value of a member: it is a number, which has no string, or empty, or
stands on the line of the colon. -/
def Shown (m : Member) : Prop :=
  ∀ s, m.value = .string s → s = [] ∨ ∀ c ∈ m.behindColon, isJsonBlank c = true

/-- What `json_field` finds in an object is the key's value. The key stands nowhere in quotes, or
first as the key of a member whose value is seen, or first in another place from which the next
colon leads to the value all the same. -/
def Finds (d : Object) (key : Bytes) : Prop :=
  match d.found key with
  | none => True
  | some ((_, some m), _) => Shown m
  | some ((_, none), more) => (d.valueOf key ≠ [] → Leads more (d.valueOf key)) ∧
      (d.valueOf key = [] → ∀ v, Leads more v → v = [])

theorem shown_iff {m : Member} :
    Shown m ↔ m.value.asString = [] ∨ ∀ c ∈ m.behindColon, isJsonBlank c = true := by
  rw [Shown]
  cases m.value with
  | number t => exact iff_of_true nofun (.inl rfl)
  | string s => exact ⟨fun h ↦ h s rfl, fun h t ht ↦ Value.string.inj ht ▸ h⟩

/-- A key that is nowhere in quotes before it stands as a key is found if its value is seen. -/
theorem finds_of_shown {d : Object} {key : Bytes} (h : ∀ q ∈ d.found key, ∃ m ∈ q.1.2,
    m.value.asString = [] ∨ ∀ c ∈ m.behindColon, isJsonBlank c = true) : Finds d key := by
  rw [Finds]
  split
  · trivial
  · next m more hfound =>
    obtain ⟨m', hm', hshown⟩ := h _ hfound
    obtain rfl := Option.some.inj hm'
    exact shown_iff.mpr hshown
  · next more hfound =>
    obtain ⟨m', hm', -⟩ := h _ hfound
    cases hm'

theorem colon_notMem_of_isSpace {s : Bytes} (h : IsSpace s) : 58 ∉ s := by
  intro hmem
  have hspace := h 58 hmem
  revert hspace
  decide

theorem valueBehind_follows {m : Member} {more : List Piece} (hm : m.WellFormed)
    (h : Follows m more) (hfree : ∀ p ∈ more, 34 ∉ p.1) :
    valueBehind (join more) = m.value.asString ↔ Shown m := by
  have ha := colon_notMem_of_isSpace hm.beforeColon
  have hb : 34 ∉ m.behindColon := hm.behindColon.quote_notMem
  cases hvalue : m.value with
  | number t =>
    obtain ⟨g, o, rest, rfl⟩ := h.number t hvalue
    obtain ⟨u, hu⟩ := join_cons_eq_append (m.colon ++ t ++ g, o) rest
    have hwell := hm.value
    rw [hvalue] at hwell
    have hnumber : ¬∀ c ∈ m.behindColon ++ t ++ g, isJsonBlank c = true := by
      obtain ⟨c, t, rfl⟩ := List.exists_cons_of_ne_nil hwell.1
      intro hall
      have hblank : c = 32 ∨ c = 9 := by simpa [isJsonBlank] using hall c (by simp)
      have hdigit := hwell.2 c List.mem_cons_self
      revert hdigit
      rcases hblank with rfl | rfl <;> decide
    have hquote : 34 ∉ m.behindColon ++ t ++ g := by
      have hpiece := hfree (m.colon ++ t ++ g, o) List.mem_cons_self
      simp only [Member.colon, List.mem_append, List.mem_cons, not_or] at hpiece ⊢
      exact ⟨⟨hpiece.1.1.2.2, hpiece.1.2⟩, hpiece.2⟩
    have hnothing := valueBehind_of_not_blank ha hnumber hquote u
    have htext : m.colon ++ t ++ g ++ u
        = m.beforeColon ++ 58 :: (m.behindColon ++ t ++ g ++ u) := by simp [Member.colon]
    rw [hu, htext, hnothing]
    exact iff_of_true rfl fun s hs ↦ by simp [hvalue] at hs
  | string s =>
    obtain ⟨q, rest, rfl⟩ := h.string s hvalue
    have hs : 34 ∉ s := hfree (s, none) (by simp)
    rw [join_cons (List.cons_ne_nil _ _), Member.colon, List.append_assoc, List.cons_append,
      Shown, hvalue, Value.asString]
    by_cases hblank : ∀ c ∈ m.behindColon, isJsonBlank c = true
    · rw [valueBehind_of_blank ha hblank, join_cons (List.cons_ne_nil q rest),
        cut_singleton_append hs]
      exact iff_of_true rfl fun _ _ ↦ .inr hblank
    · rw [valueBehind_of_not_blank ha hblank hb]
      exact ⟨fun hnil t ht ↦ .inl (by rw [← Value.string.inj ht, ← hnil]),
        fun hshown ↦ ((hshown s rfl).resolve_right hblank).symm⟩

/-- **A field of a document** is read as it is there just when it is found. -/
theorem jsonField_eq_valueOf_iff (d : Object) {key : Bytes} (hkey : 34 ∉ key) :
    jsonField d.text key = d.valueOf key ↔ Finds d key := by
  rw [jsonField_eq, d.cut_text hkey, Finds]
  cases hfound : d.found key with
  | none => exact iff_of_true (Object.valueOf_of_found_eq_none hfound).symm trivial
  | some q =>
    obtain ⟨⟨s, o⟩, more⟩ := q
    obtain ⟨-, hmore, hfree⟩ := d.found_eq_some hfound
    rw [Option.map_some, Option.map_some, Option.getD_some]
    cases o with
    | some m =>
      obtain ⟨hvalue, hm, hfollows⟩ := Object.follows_of_found hfound
      rw [hvalue]
      exact valueBehind_follows (d.members_ok m hm) hfollows hfree
    | none => exact valueBehind_join_eq_iff hmore hfree _

/-! ## Credentials -/

/-- The credentials of a document. -/
def ofObject (h : Host) (d : Object) (tokenName : Bytes) : Credentials where
  accessKey := d.valueOf (utf8 "AccessKeyId")
  secretKey := d.valueOf (utf8 "SecretAccessKey")
  sessionToken := d.valueOf tokenName
  expiry := parseIso8601 h (d.valueOf (utf8 "Expiration"))

/-- The four fields of a document are found. -/
def FindsAll (d : Object) (tokenName : Bytes) : Prop :=
  Finds d (utf8 "AccessKeyId") ∧ Finds d (utf8 "SecretAccessKey") ∧ Finds d tokenName ∧
    Finds d (utf8 "Expiration")

theorem fields_eq_ofObject (h : Host) {d : Object} {tokenName : Bytes} (hname : 34 ∉ tokenName)
    (hfinds : FindsAll d tokenName) :
    ({ accessKey := jsonField d.text (utf8 "AccessKeyId")
       secretKey := jsonField d.text (utf8 "SecretAccessKey")
       sessionToken := jsonField d.text tokenName
       expiry := parseIso8601 h (jsonField d.text (utf8 "Expiration")) } : Credentials)
      = ofObject h d tokenName := by
  obtain ⟨hkey, hsecret, htoken, hexpiry⟩ := hfinds
  rw [ofObject, (jsonField_eq_valueOf_iff d (by decide)).mpr hkey,
    (jsonField_eq_valueOf_iff d (by decide)).mpr hsecret,
    (jsonField_eq_valueOf_iff d hname).mpr htoken,
    (jsonField_eq_valueOf_iff d (by decide)).mpr hexpiry]

theorem fillCredsFromJson_text (h : Host) {d : Object} (hfinds : FindsAll d (utf8 "Token")) :
    fillCredsFromJson h d.text = ofObject h d (utf8 "Token") :=
  fields_eq_ofObject h (by decide) hfinds

theorem drain_eq {out rest : Bytes} (h : (out ++ rest).length ≤ 2 ^ 20) :
    drain out rest = out ++ rest := by
  fun_induction drain out rest with
  | case1 out => rw [List.append_nil]
  | case2 out rest hrest hlarge =>
    rw [List.length_append, List.length_take] at hlarge
    rw [List.length_append] at h
    omega
  | case3 out rest hrest hsmall ih =>
    rw [List.append_assoc, List.take_append_drop] at ih
    exact ih h

theorem loadCredentialProcess_text {h : Host} {profile : Bytes} {d : Object}
    (hcmd : profileCredentialProcess h profile ≠ [])
    (hpopen : h.popen (cStr (profileCredentialProcess h profile)) = some d.text)
    (hlength : d.text.length ≤ 2 ^ 20) (hfinds : FindsAll d (utf8 "SessionToken"))
    (cred : Credentials) : loadCredentialProcess h profile cred
      = ((ofObject h d (utf8 "SessionToken")).valid, ofObject h d (utf8 "SessionToken")) := by
  rw [loadCredentialProcess]
  dsimp only
  rw [if_neg hcmd, hpopen]
  dsimp only
  rw [drain_eq (by simpa using hlength), List.nil_append,
    fields_eq_ofObject h (by decide) hfinds]

/-- **The fields of a document are read as they are there** just when they are found, and the
loaders then take the document's credentials. -/
theorem jsonField_document (d : Object) :
    (∀ key, 34 ∉ key → (jsonField d.text key = d.valueOf key ↔ Finds d key)) ∧
    (∀ h, FindsAll d (utf8 "Token") →
      fillCredsFromJson h d.text = ofObject h d (utf8 "Token")) ∧
    ∀ (h : Host) (profile : Bytes), profileCredentialProcess h profile ≠ [] →
      h.popen (cStr (profileCredentialProcess h profile)) = some d.text →
      d.text.length ≤ 2 ^ 20 → FindsAll d (utf8 "SessionToken") → ∀ cred,
      loadCredentialProcess h profile cred
        = ((ofObject h d (utf8 "SessionToken")).valid, ofObject h d (utf8 "SessionToken")) :=
  ⟨fun _ hkey ↦ jsonField_eq_valueOf_iff d hkey, fun h hfinds ↦ fillCredsFromJson_text h hfinds,
    fun _ _ hcmd hpopen hlength hfinds cred ↦
      loadCredentialProcess_text hcmd hpopen hlength hfinds cred⟩

/-- What a helper prints. -/
def helperOutput : Object where
  members :=
    [{ key := utf8 "Version", value := .number (utf8 "1") },
      { key := utf8 "AccessKeyId", value := .string (utf8 "A"), behindColon := [32] },
      { key := utf8 "SecretAccessKey", value := .string (utf8 "S"), beforeColon := [10] },
      { key := utf8 "SessionToken", value := .string (utf8 "T") }]

/-- A machine with this helper for every profile that has one. -/
def helperHost : Host where
  getenv name := if name = utf8 "HOME" then some (utf8 "/home") else none
  file _ := some (utf8 "[default]\ncredential_process = helper\n")
  popen _ := some helperOutput.text
  strptime _ := none
  metadata _ _ := {}

theorem helperOutput_document :
    (jsonField helperOutput.text (utf8 "Version") = [] ↔ Finds helperOutput (utf8 "Version")) ∧
      fillCredsFromJson helperHost helperOutput.text
        = ofObject helperHost helperOutput (utf8 "Token") ∧
      loadCredentialProcess helperHost (utf8 "default") {}
        = ((ofObject helperHost helperOutput (utf8 "SessionToken")).valid,
          ofObject helperHost helperOutput (utf8 "SessionToken")) := by
  have hfinds (name : Bytes) (hname : name = utf8 "Token" ∨ name = utf8 "SessionToken") :
      FindsAll helperOutput name := by
    refine ⟨finds_of_shown (by decide +kernel), finds_of_shown (by decide +kernel), ?_,
      finds_of_shown (by decide +kernel)⟩
    rcases hname with rfl | rfl
    · exact finds_of_shown (by decide +kernel)
    · exact finds_of_shown (by decide +kernel)
  obtain ⟨hkeys, hfill, hload⟩ := jsonField_document helperOutput
  exact ⟨hkeys (utf8 "Version") (by decide), hfill helperHost (hfinds _ (.inl rfl)),
    hload helperHost (utf8 "default") (by decide +kernel) rfl (by decide +kernel)
      (hfinds _ (.inr rfl)) {}⟩

/-- A document with the text of a key in front of the key. -/
def namedType : Object where
  members :=
    [{ key := utf8 "Type", value := .string (utf8 "AccessKeyId") },
      { key := utf8 "Note", value := .string (utf8 "N") },
      { key := utf8 "AccessKeyId", value := .string (utf8 "A") }]

/-- A document with a line end behind a colon. -/
def brokenLine : Object where
  members :=
    [{ key := utf8 "AccessKeyId", value := .string (utf8 "A"), behindColon := [10] }]

/-- The value of another key is returned, or none. -/
theorem namedType_reads_note :
    namedType.text = utf8 ("\x7b\"Type\":\"AccessKeyId\",\"Note\":\"N\","
        ++ "\"AccessKeyId\":\"A\"\x7d") ∧
      jsonField namedType.text (utf8 "AccessKeyId") = utf8 "N" ∧
      namedType.valueOf (utf8 "AccessKeyId") = utf8 "A" ∧
      jsonField brokenLine.text (utf8 "AccessKeyId") = [] ∧
      brokenLine.valueOf (utf8 "AccessKeyId") = utf8 "A" := by
  decide +kernel

end Credentials

end Nanos3Reader
