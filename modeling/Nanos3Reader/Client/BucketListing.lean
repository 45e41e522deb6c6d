import Nanos3Reader.Client.Commands
import Nanos3Reader.Client.Listing
import Nanos3Reader.Credentials.Refresh
import Nanos3Reader.Lib.Paging
import Nanos3Reader.Xml.Page
import Mathlib.Data.Set.Card

/-!
# What a listing shows of a bucket

A bucket holds objects, and they change while it is listed: each page is one of what the bucket
holds at the time. A listing that succeeds has every object and every group of objects that is there
all the time, has nothing that was never there, and has nothing twice — with the requests read off
the wire by the service, and the pages off the documents by the client.
-/

open ByteText ObjectApi Paging

namespace Nanos3Reader

/-- What one entry of a listing names: an object, with its size, or a group of objects. -/
structure Entry where
  name : Bytes
  size : Option ℕ

namespace Entry

def object? (e : Entry) : Option ObjectInfo := e.size.map fun size ↦ ⟨e.name, size⟩

def group? (e : Entry) : Option Bytes := if e.size = none then some e.name else none

end Entry

/-- The group that a key is in: all keys with the same text up to the first delimiter behind the
prefix. -/
def groupOf (pfx delimiter key : Bytes) : Option Bytes :=
  if delimiter = [] then none
  else (cut delimiter (key.drop pfx.length)).map fun p ↦ pfx ++ p.1 ++ delimiter

/-- What a listing shows of a bucket: the objects under the prefix, and for those with a delimiter
behind it their groups. -/
inductive Shown (holds : Bytes → Option ℕ) (pfx delimiter : Bytes) : Entry → Prop
  | object {key : Bytes} {size : ℕ} (hkey : holds key = some size) (hpfx : pfx <+: key)
      (hgroup : groupOf pfx delimiter key = none) : Shown holds pfx delimiter ⟨key, some size⟩
  | group {key group : Bytes} (hkey : holds key ≠ none) (hpfx : pfx <+: key)
      (hgroup : groupOf pfx delimiter key = some group) : Shown holds pfx delimiter ⟨group, none⟩

/-- The document is the page after `token` of what is there. Behind the last entry of a page that is
truncated is the next one. -/
def ListDocument.IsPage (d : ListDocument) (there : Entry → Prop) (cursor : Bytes → Option Bytes)
    (token : Bytes) : Prop :=
  ∃ entries : List Entry, d.objects = entries.filterMap Entry.object? ∧
    d.commonPrefixes = entries.filterMap Entry.group? ∧
    (d.truncated = false → Page Entry.name there (cursor token) entries none) ∧
    (d.truncated = true → ∃ e ∈ entries, cursor d.nextToken = some e.name ∧
      Page Entry.name there (cursor token) entries (some e.name))

/-- A service that lists what a bucket holds at the time, where it answers with a page at all. -/
structure ListsTruly (env : Outside) (addressing : Addressing) (holds : ℕ → Bytes → Option ℕ)
    (cursor : Bytes → Option Bytes) (bucket pfx delimiter : Bytes) : Prop where
  cursor_nil : cursor [] = none
  page : ∀ m req token,
    command addressing (req.arrived []) = some (.list bucket pfx delimiter token) →
    (env.perform m req).rc = .ok → (env.perform m req).code = 200 →
      ∃ d : ListDocument, (env.perform m req).chunks.flatten = d.xml ∧
        d.IsPage (Shown (holds m) pfx delimiter) cursor token

/-- What a listing says of a bucket between two times. -/
structure ListsBucket (holds : ℕ → Bytes → Option ℕ) (t t' : ℕ) (pfx delimiter : Bytes)
    (objects : List ObjectInfo) (groups : List Bytes) : Prop where
  objects_sorted : objects.Pairwise fun a b ↦ a.key < b.key
  groups_sorted : groups.Pairwise (· < ·)
  object_was_there : ∀ o ∈ objects, pfx <+: o.key ∧ groupOf pfx delimiter o.key = none ∧
    ∃ m, t ≤ m ∧ m < t' ∧ holds m o.key = some o.size
  object_listed : ∀ key, pfx <+: key → groupOf pfx delimiter key = none →
    (∀ m, t ≤ m → m < t' → holds m key ≠ none) → ∃ size, ⟨key, size⟩ ∈ objects
  group_was_there : ∀ group ∈ groups, ∃ m key, t ≤ m ∧ m < t' ∧ holds m key ≠ none ∧
    pfx <+: key ∧ groupOf pfx delimiter key = some group
  group_listed : ∀ group, (∀ m, t ≤ m → m < t' → ∃ key, holds m key ≠ none ∧ pfx <+: key ∧
    groupOf pfx delimiter key = some group) → group ∈ groups

/-! ## What pages add up to -/

section Walk

variable {holds : ℕ → Bytes → Option ℕ} {pfx delimiter : Bytes}

theorem Shown.of_object {e : Entry} {o : ObjectInfo} {b : Bytes → Option ℕ}
    (h : Shown b pfx delimiter e) (ho : e.object? = some o) :
    e.name = o.key ∧ b o.key = some o.size ∧ pfx <+: o.key ∧
      groupOf pfx delimiter o.key = none := by
  cases h with
  | object hkey hpfx hgroup =>
    cases ho
    exact ⟨rfl, hkey, hpfx, hgroup⟩
  | group => cases ho

theorem Shown.of_group {e : Entry} {group : Bytes} {b : Bytes → Option ℕ}
    (h : Shown b pfx delimiter e) (hg : e.group? = some group) :
    e.name = group ∧ ∃ key, b key ≠ none ∧ pfx <+: key ∧
      groupOf pfx delimiter key = some group := by
  cases h with
  | object => cases hg
  | group hkey hpfx hgroup =>
    cases hg
    exact ⟨rfl, _, hkey, hpfx, hgroup⟩

/-- A group is named like no object: behind the prefix it has a delimiter. -/
theorem groupOf_group {key group : Bytes} (h : groupOf pfx delimiter key = some group) :
    groupOf pfx delimiter group = some group := by
  rw [groupOf] at h
  split at h
  · cases h
  · next hne =>
    obtain ⟨p, hp, rfl⟩ := Option.map_eq_some_iff.mp h
    rw [groupOf, if_neg hne, List.append_assoc, List.drop_left, cut_through hp, Option.map_some,
      List.append_assoc]

/-- **The pages of a listing add up to what it shows.** -/
theorem listsBucket_of_walk {t t' : ℕ} {pages : List (List Entry)}
    (h : Walk Entry.name (fun m ↦ Shown (holds m) pfx delimiter) none t pages t') :
    ListsBucket holds t t' pfx delimiter (pages.flatten.filterMap Entry.object?)
      (pages.flatten.filterMap Entry.group?) := by
  have hobject : ∀ e ∈ pages.flatten, ∀ o, e.object? = some o → e.name = o.key := by
    intro e he o ho
    obtain ⟨m, -, -, hshown⟩ := h.was_there e he
    exact (hshown.of_object ho).1
  have hgroup : ∀ e ∈ pages.flatten, ∀ group, e.group? = some group → e.name = group := by
    intro e he group hg
    obtain ⟨m, -, -, hshown⟩ := h.was_there e he
    exact (hshown.of_group hg).1
  refine ⟨?_, ?_, fun o ho ↦ ?_, fun key hpfx hnone hthere ↦ ?_, fun group hg ↦ ?_,
    fun group hthere ↦ ?_⟩
  · rw [List.pairwise_filterMap]
    refine h.sorted.imp_of_mem fun {a b} ha hb hlt o ho o' ho' ↦ ?_
    rw [← hobject a ha o ho, ← hobject b hb o' ho']
    exact hlt
  · rw [List.pairwise_filterMap]
    refine h.sorted.imp_of_mem fun {a b} ha hb hlt g hg g' hg' ↦ ?_
    rw [← hgroup a ha g hg, ← hgroup b hb g' hg']
    exact hlt
  · obtain ⟨e, he, ho⟩ := List.mem_filterMap.mp ho
    obtain ⟨m, hle, hlt, hshown⟩ := h.was_there e he
    obtain ⟨-, hkey, hpfx, hnone⟩ := hshown.of_object ho
    exact ⟨hpfx, hnone, m, hle, hlt, hkey⟩
  · obtain ⟨e, he, rfl⟩ := h.met (x := key) (fun y hy ↦ by cases hy) fun m hle hlt ↦ by
      obtain ⟨size, hsize⟩ := Option.ne_none_iff_exists'.mp (hthere m hle hlt)
      exact ⟨⟨key, some size⟩, .object hsize hpfx hnone, rfl⟩
    obtain ⟨m, -, -, hshown⟩ := h.was_there e he
    cases hshown with
    | @object key size => exact ⟨size, List.mem_filterMap.mpr ⟨_, he, rfl⟩⟩
    | group _ _ hgroup =>
      rw [groupOf_group hgroup] at hnone
      cases hnone
  · obtain ⟨e, he, hg⟩ := List.mem_filterMap.mp hg
    obtain ⟨m, hle, hlt, hshown⟩ := h.was_there e he
    obtain ⟨-, key, hkey, hpfx, hgroup⟩ := hshown.of_group hg
    exact ⟨m, key, hle, hlt, hkey, hpfx, hgroup⟩
  · have hlt := h.lt
    obtain ⟨e, he, rfl⟩ := h.met (x := group) (fun y hy ↦ by cases hy) fun m hle hlt ↦ by
      obtain ⟨key, hkey, hpfx, hgroup⟩ := hthere m hle hlt
      exact ⟨⟨group, none⟩, .group hkey hpfx hgroup, rfl⟩
    obtain ⟨m, -, -, hshown⟩ := h.was_there e he
    cases hshown with
    | object _ _ hnone =>
      obtain ⟨key, -, -, hgroup⟩ := hthere t le_rfl hlt
      rw [groupOf_group hgroup] at hnone
      cases hnone
    | group => exact List.mem_filterMap.mpr ⟨_, he, rfl⟩

end Walk

/-! ## What a page is -/

theorem Prepared.exists_last_attempt (p : Prepared) (env : Outside) (w : World) (left : ℕ) :
    ∃ m, w.moment ≤ m ∧ m < (p.attempts env w left).2.moment ∧ (p.attempts env w left).1
      = p.call.receive (env.perform m (p.httpRequest env.sha256Raw (env.amzNow m))) := by
  induction left using Nat.strongRecOn generalizing w with
  | ind left ih =>
    rw [attempts_eq]
    dsimp only
    rcases hafter : p.call.after left
        (w.perform env (p.httpRequest env.sha256Raw (env.amzNow w.moment))).1 with left' | r
    · obtain ⟨m, hle, hlt, hreply⟩ := ih left' (Call.lt_of_after hafter)
        (w.perform env (p.httpRequest env.sha256Raw (env.amzNow w.moment))).2
      exact ⟨m, Nat.le_of_succ_le hle, hlt, hreply⟩
    · exact ⟨w.moment, le_rfl, Nat.lt_succ_self _, Call.receive_of_after hafter⟩

theorem Prepared.provider_attempts (p : Prepared) (env : Outside) (w : World) (left : ℕ) :
    (p.attempts env w left).2.provider = w.provider := by
  induction left using Nat.strongRecOn generalizing w with
  | ind left ih =>
    rw [attempts_eq]
    dsimp only
    rcases hafter : p.call.after left
        (w.perform env (p.httpRequest env.sha256Raw (env.amzNow w.moment))).1 with left' | r
    · exact ih left' (Call.lt_of_after hafter) _
    · rfl

/-- Whatever credentials the provider comes to hand out, they can stand in headers. -/
structure World.HandsOutPresentable (w : World) (env : Outside) : Prop where
  cached : w.provider.cached.Presentable
  resolved : ∀ m, (w.provider.resolution (env.host m)).1 = true →
    (w.provider.resolution (env.host m)).2.1.Presentable

theorem World.HandsOutPresentable.getCredentials {w : World} {env : Outside}
    (h : w.HandsOutPresentable env) :
    (w.getCredentials env).1.Presentable ∧ (w.getCredentials env).2.HandsOutPresentable env := by
  rw [World.getCredentials]
  dsimp only
  by_cases hresolves : w.provider.resolves (env.clock w.moment) = true
  · rw [CredentialProvider.get_of_resolves hresolves]
    split
    · next hok => exact ⟨h.resolved w.moment hok, ⟨h.resolved w.moment hok, h.resolved⟩⟩
    · exact ⟨h.cached, ⟨h.cached, h.resolved⟩⟩
  · rw [CredentialProvider.get_of_not_resolves (Bool.eq_false_iff.mpr hresolves)]
    exact ⟨h.cached, ⟨h.cached, h.resolved⟩⟩

/-- Either a client has credentials of its own, or the provider hands some out. -/
def ClientImpl.HasPresentable (im : ClientImpl) (env : Outside) (w : World) : Prop :=
  (∀ cred ∈ im.fixedCreds, cred.Presentable) ∧ (im.fixedCreds = none → w.HandsOutPresentable env)

/-- The world after a call hands out such credentials if the world before did. -/
theorem ClientImpl.HasPresentable.run {im : ClientImpl} {env : Outside} {w : World}
    (h : im.HasPresentable env w) (call : Call) : im.HasPresentable env (im.run env w call).2 := by
  refine ⟨h.1, fun hnone ↦ ?_⟩
  have hasked := (h.2 hnone).getCredentials.2
  rw [ClientImpl.run, runRequest, hnone, Option.isSome_none, if_neg Bool.false_ne_true]
  generalize World.getCredentials w env = asked at hasked
  dsimp only
  rcases startRequest env.sha256Raw im.cfg none asked.1 asked.2.provider.diagnostic
      (env.curlInit asked.2.moment) call with e | p
  · exact ⟨hasked.cached, hasked.resolved⟩
  · have hsame := p.provider_attempts env { asked.2 with moment := asked.2.moment + 1 }
      kClientRetries
    exact ⟨by rw [hsame]; exact hasked.cached, by rw [hsame]; exact hasked.resolved⟩

/-- A reply to a call is what its last attempt received, at a time during the call. -/
theorem exists_last_attempt {env : Outside} {im : ClientImpl} {w w' : World} {call : Call}
    {r : Reply} (hcreds : im.HasPresentable env w) (h : im.run env w call = (.ok r, w')) :
    ∃ got diagnostic curl p m, startRequest env.sha256Raw im.cfg im.fixedCreds got diagnostic curl
        call = .ok p ∧ p.cred.Presentable ∧ w.moment ≤ m ∧ m < w'.moment ∧
      r = call.receive (env.perform m (p.httpRequest env.sha256Raw (env.amzNow m))) := by
  obtain ⟨got, w₁, hasked, hgot, hmoment⟩ : ∃ got w₁, (if im.fixedCreds.isSome then
        (({} : Credentials), w) else w.getCredentials env) = (got, w₁) ∧
      (im.fixedCreds.getD got).Presentable ∧ w.moment ≤ w₁.moment := by
    rcases hfixed : im.fixedCreds with _ | cred
    · exact ⟨_, _, rfl, (hcreds.2 hfixed).getCredentials.1, Nat.le_succ _⟩
    · exact ⟨_, _, rfl, hcreds.1 cred (Option.mem_def.mpr hfixed), le_rfl⟩
  rw [ClientImpl.run, runRequest, hasked] at h
  dsimp only at h
  split at h
  · cases h
  · next p hstart =>
    obtain ⟨m, hle, hlt, hreply⟩ := p.exists_last_attempt env { w₁ with moment := w₁.moment + 1 }
      kClientRetries
    obtain ⟨hr, rfl⟩ := Prod.mk.inj h
    obtain rfl := Except.ok.inj hr
    refine ⟨got, _, _, p, m, hstart, ?_, hmoment.trans (Nat.le_of_succ_le hle), hlt, ?_⟩
    · rw [cred_of_startRequest hstart]
      exact hgot
    · rw [hreply, call_of_startRequest hstart]

section Server

variable {env : Outside} {im : ClientImpl} {prefixUri bucket pfx delimiter : Bytes}
  {holds : ℕ → Bytes → Option ℕ} {cursor : Bytes → Option Bytes}

/-- **A page that a listing is given is one of what the bucket holds at the time.** -/
theorem exists_isPage (htools : SigningTools env.sha256Raw env.amzNow)
    (hserver : ListsTruly env (im.cfg.addressing im.cfg.region) holds cursor bucket pfx delimiter)
    (htarget : im.target prefixUri false = .ok (bucket, pfx))
    (hroutes : im.cfg.Routes bucket [] im.cfg.region)
    {w w' : World} (hcreds : im.HasPresentable env w) {token : Bytes} {page : ListPage}
    (h : ClientImpl.servedPage im env bucket pfx delimiter w token = (some page, w')) :
    ∃ m, w.moment ≤ m ∧ m < w'.moment ∧ ∃ d : ListDocument, page.objects = d.objects ∧
      page.commonPrefixes = d.commonPrefixes ∧ page.truncated = d.truncated ∧
      page.nextToken = d.nextToken ∧ d.IsPage (Shown (holds m) pfx delimiter) cursor token := by
  rw [ClientImpl.servedPage] at h
  split at h
  · cases h
  · next r w₁ hrun =>
    obtain ⟨hpage, rfl⟩ := Prod.mk.inj h
    obtain ⟨got, diagnostic, curl, p, m, hstart, hcred, hle, hlt, rfl⟩ :=
      exists_last_attempt hcreds hrun
    refine ⟨m, hle, hlt, ?_⟩
    rw [ClientImpl.pageIn] at hpage
    split at hpage
    · next hgood =>
      obtain ⟨hover, hrc, hcode⟩ := hgood
      have hcall := call_of_startRequest hstart
      -- a listing has no body, and what arrives is read as what was asked for
      have hnone : (p.call.upload []).sent = [] ∧ p.call.bodyLen = 0 := by
        rw [hcall]
        exact ⟨rfl, rfl⟩
      have hcommand := (ClientImpl.Asks.list htarget delimiter token).command_sent htools hstart
        hcred hroutes m
        (show (p.call.upload []).sent.length = p.call.bodyLen by rw [hnone.1, hnone.2]; rfl)
      rw [hnone.1] at hcommand
      obtain ⟨d, hxml, hd⟩ := hserver.page m _ token hcommand (rc_receive_eq_ok.mp hrc).2 hcode
      rw [text_receive rfl hover, hxml, d.parseListPage_eq_readItems, d.readItems_items] at hpage
      obtain rfl := Option.some.inj hpage
      exact ⟨d, rfl, rfl, rfl, rfl, hd⟩
    · cases hpage

/-- What has a name in a listing, at any time. -/
def namesShown (holds : ℕ → Bytes → Option ℕ) (pfx delimiter : Bytes) : Set Bytes :=
  {name | ∃ m e, Shown (holds m) pfx delimiter e ∧ e.name = name}

/-- **The pages from a token on** come to an end, or break off at a request that fails. -/
theorem exists_pageChain (htools : SigningTools env.sha256Raw env.amzNow)
    (hserver : ListsTruly env (im.cfg.addressing im.cfg.region) holds cursor bucket pfx delimiter)
    (htarget : im.target prefixUri false = .ok (bucket, pfx))
    (hroutes : im.cfg.Routes bucket [] im.cfg.region)
    (hfinite : (namesShown holds pfx delimiter).Finite) (w : World)
    (hcreds : im.HasPresentable env w) (token : Bytes) :
    ∃ pages complete w',
      ClientImpl.PageChain im env bucket pfx delimiter w token pages complete w' ∧
      (complete = true → ∃ entries : List (List Entry),
        Walk Entry.name (fun m ↦ Shown (holds m) pfx delimiter) (cursor token) w.moment entries
          w'.moment ∧
        pages.flatMap ListPage.objects = entries.flatten.filterMap Entry.object? ∧
        pages.flatMap ListPage.commonPrefixes = entries.flatten.filterMap Entry.group?) := by
  -- every page that is truncated leaves fewer names behind its cursor
  induction hn : {name ∈ namesShown holds pfx delimiter | Past (cursor token) name}.ncard
    using Nat.strongRecOn generalizing w token with
  | ind n ih =>
    subst hn
    rcases hserved : ClientImpl.servedPage im env bucket pfx delimiter w token with ⟨_ | page, w₁⟩
    · exact ⟨[], false, w₁, .broken hserved, fun h ↦ by cases h⟩
    · obtain ⟨m, hle, hlt, d, hobjects, hgroups, htruncated, hnext, entries, hentries, hentries',
        hlast, hmore⟩ := exists_isPage htools hserver htarget hroutes hcreds hserved
      rcases hflag : page.truncated with _ | _
      · refine ⟨[page], true, w₁, .last hserved hflag, fun _ ↦ ⟨[entries], ?_, ?_, ?_⟩⟩
        · exact .last hle hlt (hlast (htruncated ▸ hflag))
        · simp [hobjects, hentries]
        · simp [hgroups, hentries']
      · obtain ⟨e, he, hcursor, hpage⟩ := hmore (htruncated ▸ hflag)
        obtain ⟨hthere, hpast, -⟩ := (hpage.mem_iff e).mp he
        have hname : e.name ∈ namesShown holds pfx delimiter := ⟨m, e, hthere, rfl⟩
        rw [← hnext] at hcursor
        have hnotPast : ¬Past (cursor page.nextToken) e.name := fun h ↦
          List.lt_irrefl _ (h _ (Option.mem_def.mpr hcursor))
        have hne : page.nextToken ≠ [] ∧ page.nextToken ≠ token := by
          constructor
          · exact fun hnil ↦ by rw [hnil, hserver.cursor_nil] at hcursor; cases hcursor
          · exact fun hsame ↦ hnotPast (hsame ▸ hpast)
        have hfewer : {name ∈ namesShown holds pfx delimiter |
              Past (cursor page.nextToken) name}.ncard
            < {name ∈ namesShown holds pfx delimiter | Past (cursor token) name}.ncard := by
          refine Set.ncard_lt_ncard ?_ (hfinite.subset fun name h ↦ h.1)
          refine ⟨fun name h ↦ ⟨h.1, fun y hy ↦ ?_⟩, fun hsubset ↦ ?_⟩
          · exact List.lt_trans (hpast y hy) (h.2 _ (Option.mem_def.mpr hcursor))
          · exact hnotPast (hsubset ⟨hname, hpast⟩).2
        have hlater : im.HasPresentable env w₁ := by
          have hrun := hcreds.run (listCall bucket pfx delimiter token)
          rw [ClientImpl.servedPage] at hserved
          split at hserved
          · cases hserved
          · next r w₂ hreply =>
            rw [hreply] at hrun
            exact (Prod.mk.inj hserved).2 ▸ hrun
        obtain ⟨pages, complete, w', hchain, hwalk⟩ := ih _ hfewer w₁ hlater page.nextToken rfl
        refine ⟨page :: pages, complete, w', .more hserved hflag hne hchain, fun hcomplete ↦ ?_⟩
        obtain ⟨rest, hwalk, hrest, hrest'⟩ := hwalk hcomplete
        rw [hcursor] at hwalk
        refine ⟨entries :: rest, .more hle hlt hpage hpast hwalk, ?_, ?_⟩
        · rw [List.flatMap_cons, hrest, hobjects, hentries, List.flatten_cons,
            List.filterMap_append]
        · rw [List.flatMap_cons, hrest', hgroups, hentries', List.flatten_cons,
            List.filterMap_append]

theorem listLoop_more {prefixUri : Bytes} {fuel more : ℕ} (hle : fuel ≤ more) {w : World}
    {token : Bytes} {found : List ObjectInfo} {prefixes : List Bytes}
    {result : Except Bytes (List ObjectInfo × List Bytes) × World}
    (h : im.listLoop env prefixUri bucket pfx delimiter fuel w token found prefixes = some result) :
    im.listLoop env prefixUri bucket pfx delimiter more w token found prefixes = some result := by
  induction fuel generalizing more w token found prefixes with
  | zero => cases h
  | succ fuel ih =>
    obtain ⟨more, rfl⟩ := Nat.exists_eq_succ_of_ne_zero (Nat.ne_zero_of_lt hle)
    rw [ClientImpl.listLoop] at h ⊢
    split at h
    · exact h
    · split at h
      · exact h
      · split at h
        · next hlast => rw [if_pos hlast, h]
        · next hmore =>
          rw [if_neg hmore]
          split at h
          · next hsame => rw [if_pos hsame, h]
          · next hnew =>
            rw [if_neg hnew]
            exact ih (Nat.le_of_succ_le_succ hle) h

end Server

/-- **A listing shows what the bucket holds.** The service reads the requests off the wire and
answers, if it answers with a page at all, with one of what the bucket holds at the time; other
requests fail. A listing returns, whatever changes meanwhile; if it succeeds, it has each object and
each group that is there all the time, only such as were there, and none twice; and if not, it has
nothing. -/
theorem list_bucket {env : Outside} {im : ClientImpl} {prefixUri bucket pfx delimiter : Bytes}
    {holds : ℕ → Bytes → Option ℕ} {cursor : Bytes → Option Bytes} {w : World}
    (htools : SigningTools env.sha256Raw env.amzNow)
    (hserver : ListsTruly env (im.cfg.addressing im.cfg.region) holds cursor bucket pfx delimiter)
    (htarget : im.target prefixUri false = .ok (bucket, pfx))
    (hroutes : im.cfg.Routes bucket [] im.cfg.region) (hcreds : im.HasPresentable env w)
    (hfinite : (namesShown holds pfx delimiter).Finite) (objects : List ObjectInfo)
    (groups : List Bytes) :
    (∃ fuel out w', im.list env fuel w prefixUri delimiter objects groups = some (out, w')) ∧
    ∀ fuel out w', im.list env fuel w prefixUri delimiter objects groups = some (out, w') →
      (out.ok = true → out.error = [] ∧
        ListsBucket holds w.moment w'.moment pfx delimiter out.out.1 out.out.2) ∧
      (out.ok = false → out.error ≠ [] ∧ out.out = (objects, groups)) := by
  obtain ⟨pages, complete, w', hchain, hwalk⟩ :=
    exists_pageChain htools hserver htarget hroutes hfinite w hcreds []
  obtain ⟨result, hloop, hok, herror⟩ :=
    @ClientImpl.listLoop_of_chain _ _ _ _ _ prefixUri _ _ _ _ _ hchain [] [] (pages.length + 1)
      (Nat.lt_succ_self _)
  constructor
  · have hreturns :
        im.list env (pages.length + 1) w prefixUri delimiter objects groups ≠ none := by
      rw [ClientImpl.list, htarget]
      dsimp only
      rw [hloop]
      simp
    obtain ⟨⟨out, w''⟩, hlist⟩ := Option.ne_none_iff_exists'.mp hreturns
    exact ⟨_, out, w'', hlist⟩
  · intro fuel out w'' h
    rw [ClientImpl.list, htarget] at h
    obtain ⟨q, hq, heq⟩ := Option.map_eq_some_iff.mp h
    -- with more fuel both are what the chain of pages gives
    have hsame : q = (result, w') := by
      have hmore := listLoop_more (le_max_left fuel (pages.length + 1)) hq
      rw [listLoop_more (le_max_right fuel (pages.length + 1)) hloop] at hmore
      exact (Option.some.inj hmore).symm
    subst hsame
    rcases complete with _ | _
    · obtain ⟨e, hne, rfl⟩ := herror rfl
      cases heq
      exact ⟨fun h ↦ (by cases h), fun _ ↦ ⟨hne, rfl⟩⟩
    · obtain ⟨entries, hentries, hobjects, hgroups⟩ := hwalk rfl
      obtain rfl := hok rfl
      cases heq
      refine ⟨fun _ ↦ ⟨rfl, ?_⟩, fun h ↦ (by cases h)⟩
      rw [hserver.cursor_nil] at hentries
      dsimp only
      rw [List.nil_append, List.nil_append, hobjects, hgroups]
      exact listsBucket_of_walk hentries

/-- A bucket with an object under the prefix `p/` and another one further down. -/
def twoKeys (key : Bytes) : Option ℕ :=
  if key = utf8 "p/a" then some 3 else if key = utf8 "p/b/c" then some 5 else none

/-- The two pages of its listing, one entry each. -/
def firstPage : ListDocument :=
  @ListDocument.plain [⟨utf8 "p/a", 3⟩] [] true (utf8 "t") (by decide) (by decide)

def secondPage : ListDocument :=
  @ListDocument.plain [] [utf8 "p/b/"] false [] (by decide) (by decide)

/-- A service of this bucket. -/
def bucketOfTwo : Outside :=
  { signing with
    perform := fun _ req ↦
      match command (ClientImpl.usEast.cfg.addressing ClientImpl.usEast.cfg.region)
          (req.arrived []) with
      | some (.list _ _ _ token) =>
        if token = [] then { code := 200, chunks := [firstPage.xml] }
        else if token = utf8 "t" then { code := 200, chunks := [secondPage.xml] }
        else { code := 404 }
      | _ => { code := 404 } }

theorem shown_twoKeys {e : Entry} : Shown twoKeys (utf8 "p/") (utf8 "/") e ↔
    e = ⟨utf8 "p/a", some 3⟩ ∨ e = ⟨utf8 "p/b/", none⟩ := by
  have hkeys {key : Bytes} (h : twoKeys key ≠ none) :
      key = utf8 "p/a" ∧ twoKeys key = some 3 ∨ key = utf8 "p/b/c" ∧ twoKeys key = some 5 := by
    rw [twoKeys] at h ⊢
    split
    · next hkey => exact .inl ⟨hkey, rfl⟩
    · next hkey =>
      rw [if_neg hkey] at h
      split
      · next hkey' => exact .inr ⟨hkey', rfl⟩
      · next hkey' => exact absurd (if_neg hkey') h
  have hgroups : groupOf (utf8 "p/") (utf8 "/") (utf8 "p/a") = none ∧
      groupOf (utf8 "p/") (utf8 "/") (utf8 "p/b/c") = some (utf8 "p/b/") := by decide
  constructor
  · intro h
    cases h with
    | @object key size hkey hpfx hgroup =>
      have hne : twoKeys key ≠ none := by simp [hkey]
      rcases hkeys hne with ⟨rfl, hsize⟩ | ⟨rfl, hsize⟩
      · rw [hsize] at hkey
        exact .inl (by rw [Option.some.inj hkey])
      · rw [hgroups.2] at hgroup
        cases hgroup
    | group hkey hpfx hgroup =>
      rcases hkeys hkey with ⟨rfl, -⟩ | ⟨rfl, -⟩
      · rw [hgroups.1] at hgroup
        cases hgroup
      · rw [hgroups.2] at hgroup
        exact .inr (by rw [Option.some.inj hgroup])
  · rintro (rfl | rfl)
    · exact .object (by decide) (by decide) hgroups.1
    · exact .group (show twoKeys (utf8 "p/b/c") ≠ none by decide) (by decide) hgroups.2

/-- Where its pages go on: behind the object, and at the end. -/
def cursorOfTwo (token : Bytes) : Option Bytes :=
  if token = utf8 "t" then some (utf8 "p/a") else none

theorem listsTruly_bucketOfTwo : ListsTruly bucketOfTwo
    (ClientImpl.usEast.cfg.addressing ClientImpl.usEast.cfg.region) (fun _ ↦ twoKeys) cursorOfTwo
    (utf8 "b") (utf8 "p/") (utf8 "/") where
  cursor_nil := by decide
  page m req token hcommand _ hcode := by
    have hperform : bucketOfTwo.perform m req
        = if token = [] then { code := 200, chunks := [firstPage.xml] }
          else if token = utf8 "t" then { code := 200, chunks := [secondPage.xml] }
          else { code := 404 } := by
      rw [bucketOfTwo]
      dsimp only
      rw [hcommand]
    have horder : utf8 "p/a" < utf8 "p/b/" := by decide
    rw [hperform] at hcode ⊢
    split
    · next hfirst =>
      subst hfirst
      refine ⟨firstPage, by simp, [⟨utf8 "p/a", some 3⟩], by decide, by decide, fun h ↦ ?_,
        fun _ ↦ ⟨_, List.mem_singleton_self _, by decide, List.pairwise_singleton _ _, fun e ↦ ?_⟩⟩
      · exact absurd h (by decide)
      · rw [List.mem_singleton, shown_twoKeys]
        constructor
        · rintro rfl
          refine ⟨.inl rfl, fun y hy ↦ ?_, fun y hy ↦ ?_⟩
          · rw [show cursorOfTwo [] = none by decide] at hy
            cases hy
          · obtain rfl := Option.mem_some.mp hy
            exact List.le_refl _
        · rintro ⟨rfl | rfl, -, hle⟩
          · rfl
          · exact absurd (hle _ rfl) (by decide)
    · next hnot =>
      rw [if_neg hnot] at hcode
      split
      · next hsecond =>
        subst hsecond
        refine ⟨secondPage, by simp, [⟨utf8 "p/b/", none⟩], by decide, by decide,
          fun _ ↦ ⟨List.pairwise_singleton _ _, fun e ↦ ?_⟩, fun h ↦ absurd h (by decide)⟩
        rw [List.mem_singleton, shown_twoKeys]
        constructor
        · rintro rfl
          refine ⟨.inr rfl, fun y hy ↦ ?_, by simp⟩
          obtain rfl : utf8 "p/a" = y := Option.some.inj hy
          exact horder
        · rintro ⟨rfl | rfl, hpast, -⟩
          · exact absurd (hpast (utf8 "p/a") rfl) (List.lt_irrefl _)
          · rfl
      · next hother =>
        rw [if_neg hother] at hcode
        cases hcode

/-- The listing has the object, and one group for the other one. -/
theorem list_bucketOfTwo : ∃ out w', ClientImpl.usEast.list bucketOfTwo 2 { provider := .create [] }
      (utf8 "s3://b/p/") (utf8 "/") [] [] = some (out, w') ∧
    out.out = ([⟨utf8 "p/a", 3⟩], [utf8 "p/b/"]) ∧
    ListsBucket (fun _ ↦ twoKeys) 0 w'.moment (utf8 "p/") (utf8 "/") out.out.1 out.out.2 := by
  have hlist : (ClientImpl.usEast.list bucketOfTwo 2 { provider := .create [] }
      (utf8 "s3://b/p/") (utf8 "/") [] []).map Prod.fst
      = some ⟨true, ([⟨utf8 "p/a", 3⟩], [utf8 "p/b/"]), []⟩ := by
    decide +kernel
  obtain ⟨⟨out, w'⟩, hlist, hout⟩ := Option.map_eq_some_iff.mp hlist
  obtain rfl : out = ⟨true, ([⟨utf8 "p/a", 3⟩], [utf8 "p/b/"]), []⟩ := hout
  have hroutes : ClientImpl.usEast.cfg.Routes (utf8 "b") [] ClientImpl.usEast.cfg.region :=
    ⟨routes_usEast.plainRegion, routes_usEast.plainEndpoint, routes_usEast.plainHost,
      fun h ↦ absurd h (by decide), by decide +kernel⟩
  have hcreds : ClientImpl.usEast.HasPresentable bucketOfTwo { provider := .create [] } := by
    refine ⟨fun cred hcred ↦ ?_, fun hnone ↦ by cases hnone⟩
    obtain rfl := Option.mem_some.mp hcred
    exact ⟨forall_mem_of_all (by decide), forall_mem_of_all (by decide)⟩
  have hfinite : (namesShown (fun _ ↦ twoKeys) (utf8 "p/") (utf8 "/")).Finite := by
    refine ([utf8 "p/a", utf8 "p/b/"].finite_toSet).subset ?_
    rintro name ⟨m, e, he, rfl⟩
    rcases shown_twoKeys.mp he with rfl | rfl <;> simp
  have htarget : ClientImpl.usEast.target (utf8 "s3://b/p/") false = .ok (utf8 "b", utf8 "p/") := by
    decide
  have htools : SigningTools bucketOfTwo.sha256Raw bucketOfTwo.amzNow := signingTools_signing
  have hbucket := (list_bucket htools listsTruly_bucketOfTwo htarget hroutes hcreds hfinite [] []).2
    2 _ w' hlist
  exact ⟨_, w', hlist, rfl, (hbucket.1 rfl).2⟩

end Nanos3Reader
