import Nanos3Reader.Client

/-!
# Listings are complete, and all or nothing

What a server has to say about a listing is a chain of pages: each request names the token of the
page before, and the chain ends with a page that is not truncated, or breaks off at a request that
brings no page. `list` walks the chain. It returns all entries of a chain that ends, in order, and
nothing at all of one that breaks.

The chain is stated without the accumulators of `list`: each page is parsed on its own.
-/

open ByteText

namespace Nanos3Reader

namespace ClientImpl

/-! ## Chains of pages -/

section Pages

variable (im : ClientImpl) (env : Outside) (bucket pfx delimiter : Bytes)

/-- The page in a reply, if the transfer worked, the status is 200 and the page parses. -/
def pageIn (r : Reply) : Option ListPage :=
  if r.overflow = false ∧ r.rc = .ok ∧ r.code = 200 then (parseListPage r.text [] []).toOption
  else none

/-- The page the server has for `token`. -/
def servedPage (w : World) (token : Bytes) : Option ListPage × World :=
  match im.run env w (listCall bucket pfx delimiter token) with
  | (.error _, w) => (none, w)
  | (.ok r, w) => (pageIn r, w)

/-- The pages from the one after `token` on, and whether they come to an end or break off. -/
inductive PageChain : World → Bytes → List ListPage → Bool → World → Prop
  | last {w : World} {token : Bytes} {page : ListPage} {w' : World}
      (hpage : servedPage im env bucket pfx delimiter w token = (some page, w'))
      (hlast : page.truncated = false) : PageChain w token [page] true w'
  | broken {w : World} {token : Bytes} {w' : World}
      (hpage : servedPage im env bucket pfx delimiter w token = (none, w')) :
      PageChain w token [] false w'
  | more {w : World} {token : Bytes} {page : ListPage} {w' : World} {pages : List ListPage}
      {complete : Bool} {w'' : World}
      (hpage : servedPage im env bucket pfx delimiter w token = (some page, w'))
      (hmore : page.truncated = true) (hnext : page.nextToken ≠ [] ∧ page.nextToken ≠ token)
      (hpages : PageChain w' page.nextToken pages complete w'') :
      PageChain w token (page :: pages) complete w''

/-- The requests in `block` ask for the page after `token`. -/
def AsksFor (token : Bytes) (block : List HttpRequest) : Prop :=
  ∀ req ∈ block, (listCall bucket pfx delimiter token).SentAs im.cfg req

end Pages

/-- The tokens named by the requests of a chain: the one it starts from, then each page's own. A
complete chain ends with a page whose token is not used. -/
def tokens (token : Bytes) (pages : List ListPage) (complete : Bool) : List Bytes :=
  (token :: pages.map ListPage.nextToken).take (if complete then pages.length else pages.length + 1)

section Walk

variable {im : ClientImpl} {env : Outside} {bucket pfx delimiter : Bytes}

/-! ## One page -/

/-- `list` reads a page as it stands on its own, behind what was found before. -/
theorem readPage_eq (strerror : CurlCode → Bytes) (prefixUri : Bytes) (found : List ObjectInfo)
    (prefixes : List Bytes) (r : Reply) :
    (readPage strerror prefixUri found prefixes r).toOption
      = (pageIn r).map (ListPage.after found prefixes) := by
  rw [readPage, pageIn, parseListPage_eq]
  split
  · next hrc =>
    rw [if_neg fun h ↦ hrc.elim (by simp [h.1]) (by simp [h.2.1])]
    rfl
  · next hrc =>
    obtain ⟨hover, hok⟩ := not_or.mp hrc
    split
    · next hcode =>
      rw [if_neg (by simp [hcode])]
      rfl
    · next hcode =>
      rw [if_pos (by simp_all)]
      cases parseListPage r.text [] [] <;> rfl

theorem readPage_error_ne_nil {strerror : CurlCode → Bytes} {prefixUri : Bytes}
    {found : List ObjectInfo} {prefixes : List Bytes} {r : Reply} {e : Bytes}
    (h : readPage strerror prefixUri found prefixes r = .error e) : e ≠ [] := by
  rw [readPage] at h
  split at h
  · cases h
    exact transferFailure_ne_nil _ _ _
  · split at h
    · cases h
      exact httpFailure_ne_nil _ _
    · split at h
      · cases h
        simp
      · cases h

theorem readPage_of_some {r : Reply} {page : ListPage} (hpage : pageIn r = some page)
    (strerror : CurlCode → Bytes) (prefixUri : Bytes) (found : List ObjectInfo)
    (prefixes : List Bytes) :
    readPage strerror prefixUri found prefixes r = .ok (page.after found prefixes) := by
  have hread := readPage_eq strerror prefixUri found prefixes r
  rw [hpage] at hread
  rcases hr : readPage strerror prefixUri found prefixes r with e | p
  · rw [hr] at hread
    exact absurd hread nofun
  · rw [hr] at hread
    exact congrArg Except.ok (Option.some.inj hread)

theorem readPage_of_none {r : Reply} (hpage : pageIn r = none) (strerror : CurlCode → Bytes)
    (prefixUri : Bytes) (found : List ObjectInfo) (prefixes : List Bytes) :
    ∃ e ≠ [], readPage strerror prefixUri found prefixes r = .error e := by
  have hread := readPage_eq strerror prefixUri found prefixes r
  rw [hpage] at hread
  rcases hr : readPage strerror prefixUri found prefixes r with e | p
  · exact ⟨e, readPage_error_ne_nil hr, rfl⟩
  · rw [hr] at hread
    exact absurd hread nofun

/-- A served page is appended to what was found, and the loop stops or goes on as the page says. -/
theorem listLoop_of_page {prefixUri : Bytes} {w w' : World} {token : Bytes} {page : ListPage}
    (hpage : servedPage im env bucket pfx delimiter w token = (some page, w')) (fuel : ℕ)
    (found : List ObjectInfo) (prefixes : List Bytes) :
    im.listLoop env prefixUri bucket pfx delimiter (fuel + 1) w token found prefixes
      = if page.truncated = false then
          some (.ok (found ++ page.objects, prefixes ++ page.commonPrefixes), w')
        else if page.nextToken = token then
          some (.error (prefixUri ++
            utf8 ": listing did not advance (repeated continuation token)"), w')
        else
          im.listLoop env prefixUri bucket pfx delimiter fuel w' page.nextToken
            (found ++ page.objects) (prefixes ++ page.commonPrefixes) := by
  rw [servedPage] at hpage
  split at hpage
  · cases hpage
  · next r w₁ hrun =>
    obtain ⟨hparse, rfl⟩ := Prod.mk.inj hpage
    rw [listLoop, hrun]
    dsimp only
    rw [readPage_of_some hparse]
    rfl

theorem listLoop_of_noPage {prefixUri : Bytes} {w w' : World} {token : Bytes}
    (hpage : servedPage im env bucket pfx delimiter w token = (none, w')) (fuel : ℕ)
    (found : List ObjectInfo) (prefixes : List Bytes) :
    ∃ e ≠ [], im.listLoop env prefixUri bucket pfx delimiter (fuel + 1) w token found prefixes
      = some (.error e, w') := by
  rw [servedPage] at hpage
  split at hpage
  · next e w₁ hrun =>
    cases hpage
    refine ⟨e, runRequest_error_ne_nil (congrArg Prod.fst hrun), ?_⟩
    rw [listLoop, hrun]
  · next r w₁ hrun =>
    obtain ⟨hparse, rfl⟩ := Prod.mk.inj hpage
    obtain ⟨e, hne, hread⟩ := readPage_of_none hparse env.strerror prefixUri found prefixes
    refine ⟨e, hne, ?_⟩
    rw [listLoop, hrun]
    dsimp only
    rw [hread]

theorem servedPage_sent {w w' : World} {token : Bytes} {page : Option ListPage}
    (hpage : servedPage im env bucket pfx delimiter w token = (page, w')) :
    ∃ block, w'.sent = w.sent ++ block ∧ AsksFor im bucket pfx delimiter token block ∧
      (page ≠ none → block ≠ []) := by
  obtain ⟨block, hsent, hfor, hne⟩ :=
    runRequest_sent env im.cfg im.fixedCreds w (listCall bucket pfx delimiter token)
  rw [servedPage, run] at hpage
  split at hpage
  · next e w₁ hrun =>
    cases hpage
    exact ⟨block, by rw [← hsent, hrun], hfor, fun h ↦ absurd rfl h⟩
  · next r w₁ hrun =>
    cases hpage
    exact ⟨block, by rw [← hsent, hrun], hfor, fun _ ↦ hne r (congrArg Prod.fst hrun)⟩

/-! ## The whole chain -/

/-- **The loop returns what the chain holds.** -/
theorem listLoop_of_chain {prefixUri : Bytes} {w w' : World} {token : Bytes} {pages : List ListPage}
    {complete : Bool} (h : PageChain im env bucket pfx delimiter w token pages complete w') :
    ∀ (found : List ObjectInfo) (prefixes : List Bytes) (fuel : ℕ), pages.length < fuel →
      ∃ result, im.listLoop env prefixUri bucket pfx delimiter fuel w token found prefixes
          = some (result, w') ∧
        (complete = true → result = .ok (found ++ pages.flatMap ListPage.objects,
          prefixes ++ pages.flatMap ListPage.commonPrefixes)) ∧
        (complete = false → ∃ e ≠ [], result = .error e) := by
  induction h with
  | last hpage hlast =>
    intro found prefixes fuel hfuel
    obtain ⟨fuel, rfl⟩ := Nat.exists_eq_succ_of_ne_zero (Nat.ne_zero_of_lt hfuel)
    refine ⟨_, ?_, fun _ ↦ rfl, by simp⟩
    rw [listLoop_of_page hpage, if_pos hlast]
    simp
  | broken hpage =>
    intro found prefixes fuel hfuel
    obtain ⟨fuel, rfl⟩ := Nat.exists_eq_succ_of_ne_zero (Nat.ne_zero_of_lt hfuel)
    obtain ⟨e, hne, hloop⟩ := listLoop_of_noPage hpage fuel found prefixes
    exact ⟨.error e, hloop, by simp, fun _ ↦ ⟨e, hne, rfl⟩⟩
  | @more w token page w' pages complete w'' hpage hmore hnext hpages ih =>
    intro found prefixes fuel hfuel
    obtain ⟨fuel, rfl⟩ := Nat.exists_eq_succ_of_ne_zero (Nat.ne_zero_of_lt hfuel)
    obtain ⟨result, hloop, hok, herr⟩ :=
      ih (found ++ page.objects) (prefixes ++ page.commonPrefixes) fuel (by simpa using hfuel)
    refine ⟨result, ?_, fun hc ↦ ?_, herr⟩
    · rw [listLoop_of_page hpage, if_neg (by simp [hmore]), if_neg hnext.2, hloop]
    · simpa using hok hc

/-- **Each request names the token of the page before.** -/
theorem sent_of_chain {w w' : World} {token : Bytes} {pages : List ListPage} {complete : Bool}
    (h : PageChain im env bucket pfx delimiter w token pages complete w') :
    ∃ blocks, w'.sent = w.sent ++ blocks.flatten ∧
      List.Forall₂ (AsksFor im bucket pfx delimiter) (tokens token pages complete) blocks ∧
      ∀ block ∈ blocks.take pages.length, block ≠ [] := by
  induction h with
  | last hpage hlast =>
    obtain ⟨block, hsent, hfor, hne⟩ := servedPage_sent hpage
    refine ⟨[block], by simpa using hsent, .cons hfor .nil, ?_⟩
    simpa using hne
  | broken hpage =>
    obtain ⟨block, hsent, hfor, -⟩ := servedPage_sent hpage
    exact ⟨[block], by simpa using hsent, .cons hfor .nil, by simp⟩
  | @more w token page w' pages complete w'' hpage hmore hnext hpages ih =>
    obtain ⟨block, hsent, hfor, hne⟩ := servedPage_sent hpage
    obtain ⟨blocks, hsents, hfors, hnes⟩ := ih
    refine ⟨block :: blocks, by rw [hsents, hsent]; simp, ?_, ?_⟩
    · have htokens : tokens token (page :: pages) complete
          = token :: tokens page.nextToken pages complete := by
        cases complete <;> rfl
      rw [htokens]
      exact .cons hfor hfors
    · simpa using ⟨hne (by simp), hnes⟩

end Walk

/-- **A listing is complete, and all or nothing.** Over every finite chain of pages, `list` asks for
the first page without a token and for each other page with the token of the page before. If the
chain is complete it returns the entries of all pages, in order; if a request brings no page it
fails with an error and leaves the caller's lists alone. -/
theorem list_allOrNothing {im : ClientImpl} {env : Outside}
    {prefixUri delimiter bucket pfx : Bytes}
    (hsplit : splitS3Uri prefixUri false = .ok (bucket, pfx))
    (hopen : im.refusal = []) {w w' : World} {pages : List ListPage} {complete : Bool}
    (h : PageChain im env bucket pfx delimiter w [] pages complete w') (objects : List ObjectInfo)
    (commonPrefixes : List Bytes) {fuel : ℕ} (hfuel : pages.length < fuel) :
    (∃ out, im.list env fuel w prefixUri delimiter objects commonPrefixes = some (out, w') ∧
      (complete = true → out = ⟨true, (pages.flatMap ListPage.objects,
        pages.flatMap ListPage.commonPrefixes), []⟩) ∧
      (complete = false → out.ok = false ∧ out.error ≠ [] ∧ out.out = (objects, commonPrefixes))) ∧
    ∃ blocks, w'.sent = w.sent ++ blocks.flatten ∧
      List.Forall₂ (AsksFor im bucket pfx delimiter) (tokens [] pages complete) blocks ∧
      ∀ block ∈ blocks.take pages.length, block ≠ [] := by
  refine ⟨?_, sent_of_chain h⟩
  have htarget : im.target prefixUri false = .ok (bucket, pfx) := by
    rw [target, hsplit]
    exact if_pos hopen
  obtain ⟨result, hloop, hok, herr⟩ := listLoop_of_chain h [] [] fuel hfuel
  rw [list, htarget]
  dsimp only
  rw [hloop]
  cases complete with
  | true =>
    rw [hok rfl]
    exact ⟨_, rfl, fun _ ↦ rfl, by simp⟩
  | false =>
    obtain ⟨e, hne, rfl⟩ := herr rfl
    exact ⟨_, rfl, by simp, fun _ ↦ ⟨rfl, hne, rfl⟩⟩

/-- A server with two pages for the prefix `p`. -/
def twoPages : Outside :=
  .answering fun _ req ↦
    { code := 200
      chunks :=
        [utf8 "<ListBucketResult>",
          if req.query = listQuery (utf8 "p") [] [] then
            utf8 ("<IsTruncated>true</IsTruncated>" ++
              "<NextContinuationToken>t&amp;1</NextContinuationToken>" ++
              "<Contents><Key>p/a</Key><Size>3</Size></Contents>")
          else if req.query = listQuery (utf8 "p") [] (utf8 "t&1") then
            utf8 "<IsTruncated>false</IsTruncated><Contents><Key>p/b</Key><Size>5</Size></Contents>"
          else [],
          utf8 "</ListBucketResult>"] }

theorem list_twoPages : ∃ w', ClientImpl.usEast.list twoPages 3 { provider := .create [] }
      (utf8 "s3://bucket/p") [] [] []
    = some (⟨true, ([⟨utf8 "p/a", 3⟩, ⟨utf8 "p/b", 5⟩], []), []⟩, w') := by
  have hserved {x : Option ListPage × World} {page : Option ListPage} (h : x.1 = page) :
      x = (page, x.2) := Prod.ext h rfl
  have hchain : ∃ w', PageChain ClientImpl.usEast twoPages (utf8 "bucket") (utf8 "p") []
      { provider := .create [] } []
      [⟨[⟨utf8 "p/a", 3⟩], [], true, utf8 "t&1"⟩, ⟨[⟨utf8 "p/b", 5⟩], [], false, []⟩] true w' :=
    ⟨_, .more (hserved (by decide +kernel)) rfl (by decide +kernel)
      (.last (hserved (by decide +kernel)) rfl)⟩
  obtain ⟨w', hchain⟩ := hchain
  have hsplit : splitS3Uri (utf8 "s3://bucket/p") false = .ok (utf8 "bucket", utf8 "p") := rfl
  obtain ⟨⟨out, hlist, hok, -⟩, -⟩ := list_allOrNothing hsplit rfl hchain [] []
    (show 2 < 3 by decide)
  exact ⟨w', by rw [hlist, hok rfl]; rfl⟩

end ClientImpl

end Nanos3Reader
