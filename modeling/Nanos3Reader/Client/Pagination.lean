import Nanos3Reader.Client.Listing
import Nanos3Reader.Lib.Runs

/-!
# When a listing ends

`list` asks for a page, and then for the page after the token it was given, as long as there is
another page and its token is not the one just used. This is a run of a transition system whose
states are tokens, each in the world in which it is asked for. A server with finitely many tokens
can still lead it round in circles: a token is compared with the one before, and with no other.
-/

open ByteText

namespace Nanos3Reader

namespace ClientImpl

section Pages

variable (im : ClientImpl) (env : Outside) (bucket pfx delimiter : Bytes)

/-- The listing has asked for the page after the first token, in the first world, and goes on to the
second. -/
def PageStep (s s' : World × Bytes) : Prop :=
  ∃ page, servedPage im env bucket pfx delimiter s.1 s.2 = (some page, s'.1) ∧
    page.truncated = true ∧ page.nextToken = s'.2 ∧ s'.2 ≠ s.2

/-- The listing comes to ask for the page after `token`, in the world `w'`. -/
def AsksIn (w w' : World) (token : Bytes) : Prop :=
  Relation.ReflTransGen (PageStep im env bucket pfx delimiter) (w, []) (w', token)

/-- The pages that the listing is given are those of `page`, a function of the token. -/
def ServedFrom (w : World) (page : Bytes → ListPage) : Prop :=
  ∀ w' token, AsksIn im env bucket pfx delimiter w w' token →
    ∀ p ∈ (servedPage im env bucket pfx delimiter w' token).1, p = page token

/-- A request for a page that the listing makes brings none. -/
def AskingFails (w : World) : Prop :=
  ∃ w' token, AsksIn im env bucket pfx delimiter w w' token ∧
    (servedPage im env bucket pfx delimiter w' token).1 = none

end Pages

/-- From a token to the token of its page, if another page follows and the two differ. -/
def TokenStep (page : Bytes → ListPage) (token next : Bytes) : Prop :=
  (page token).truncated = true ∧ (page token).nextToken = next ∧ next ≠ token

theorem tokenStep_unique (page : Bytes → ListPage) : Relator.RightUnique (TokenStep page) := by
  rintro token next next' ⟨-, rfl, -⟩ ⟨-, rfl, -⟩
  rfl

section Walk

variable {im : ClientImpl} {env : Outside} {bucket pfx delimiter : Bytes}

/-! ## The loop is a run -/

theorem exists_final_of_listLoop {prefixUri : Bytes} {fuel : ℕ} {w : World} {token : Bytes}
    {found : List ObjectInfo} {prefixes : List Bytes}
    (h : im.listLoop env prefixUri bucket pfx delimiter fuel w token found prefixes ≠ none) :
    ∃ s', Relation.ReflTransGen (PageStep im env bucket pfx delimiter) (w, token) s' ∧
      Runs.Final (PageStep im env bucket pfx delimiter) s' := by
  induction fuel generalizing w token found prefixes with
  | zero => exact absurd rfl h
  | succ fuel ih =>
    by_cases hfinal : Runs.Final (PageStep im env bucket pfx delimiter) (w, token)
    · exact ⟨_, .refl, hfinal⟩
    · obtain ⟨⟨w', next⟩, hstep⟩ := not_forall_not.mp hfinal
      obtain ⟨page, hpage, hmore, rfl, hne⟩ := hstep
      rw [listLoop_of_page hpage, if_neg (by simp [hmore]), if_neg hne] at h
      obtain ⟨s', hrun, hend⟩ := ih h
      exact ⟨s', .head ⟨page, hpage, hmore, rfl, hne⟩ hrun, hend⟩

/-- At the end of a run the loop returns: there is no page, or it is the last one, or it brings no
new token. -/
theorem listLoop_of_final {w : World} {token : Bytes}
    (h : Runs.Final (PageStep im env bucket pfx delimiter) (w, token)) (prefixUri : Bytes)
    (found : List ObjectInfo) (prefixes : List Bytes) :
    im.listLoop env prefixUri bucket pfx delimiter 1 w token found prefixes ≠ none := by
  rcases hpage : servedPage im env bucket pfx delimiter w token with ⟨_ | page, w'⟩
  · obtain ⟨e, -, hloop⟩ : ∃ e ≠ [], im.listLoop env prefixUri bucket pfx delimiter 1 w token found
        prefixes = some (.error e, w') := listLoop_of_noPage hpage 0 found prefixes
    simp [hloop]
  · rw [listLoop_of_page hpage]
    split
    · simp
    · next hmore =>
      rw [if_pos]
      · simp
      · by_contra hne
        exact h (w', page.nextToken) ⟨page, hpage, by simpa using hmore, rfl, hne⟩

theorem exists_listLoop_of_run {s s' : World × Bytes}
    (hrun : Relation.ReflTransGen (PageStep im env bucket pfx delimiter) s s')
    (hfinal : Runs.Final (PageStep im env bucket pfx delimiter) s') (prefixUri : Bytes) :
    ∃ fuel, ∀ found prefixes,
      im.listLoop env prefixUri bucket pfx delimiter fuel s.1 s.2 found prefixes ≠ none := by
  induction hrun using Relation.ReflTransGen.head_induction_on with
  | refl => exact ⟨1, listLoop_of_final hfinal prefixUri⟩
  | head hstep _ ih =>
    obtain ⟨fuel, hfuel⟩ := ih
    obtain ⟨page, hpage, hmore, hnext, hne⟩ := hstep
    refine ⟨fuel + 1, fun found prefixes ↦ ?_⟩
    rw [listLoop_of_page hpage, if_neg (by simp [hmore]), hnext, if_neg hne]
    exact hfuel _ _

/-! ## A run follows the tokens -/

variable {w : World} {page : Bytes → ListPage}

theorem tokenStep_of_pageStep (hserver : ServedFrom im env bucket pfx delimiter w page)
    {s s' : World × Bytes}
    (hs : Relation.ReflTransGen (PageStep im env bucket pfx delimiter) (w, []) s)
    (hstep : PageStep im env bucket pfx delimiter s s') : TokenStep page s.2 s'.2 := by
  obtain ⟨p, hpage, hmore, hnext, hne⟩ := hstep
  obtain rfl := hserver s.1 s.2 hs p (by simp [hpage])
  exact ⟨hmore, hnext, hne⟩

theorem tokens_of_run (hserver : ServedFrom im env bucket pfx delimiter w page)
    {s : World × Bytes}
    (hs : Relation.ReflTransGen (PageStep im env bucket pfx delimiter) (w, []) s) :
    Relation.ReflTransGen (TokenStep page) [] s.2 := by
  induction hs with
  | refl => exact .refl
  | tail hrun hstep ih => exact ih.tail (tokenStep_of_pageStep hserver hrun hstep)

/-- Where no request fails, a page is served and the next token is asked for. -/
theorem exists_pageStep (hserver : ServedFrom im env bucket pfx delimiter w page)
    (hfails : ¬AskingFails im env bucket pfx delimiter w) {w' : World} {token next : Bytes}
    (hs : AsksIn im env bucket pfx delimiter w w' token) (hstep : TokenStep page token next) :
    ∃ w'', PageStep im env bucket pfx delimiter (w', token) (w'', next) := by
  obtain ⟨hmore, hnext, hne⟩ := hstep
  rcases hpage : servedPage im env bucket pfx delimiter w' token with ⟨_ | p, w''⟩
  · exact absurd ⟨w', token, hs, by rw [hpage]⟩ hfails
  · obtain rfl := hserver w' token hs p (by simp [hpage])
    exact ⟨w'', page token, hpage, hmore, hnext, hne⟩

theorem exists_asksIn (hserver : ServedFrom im env bucket pfx delimiter w page)
    (hfails : ¬AskingFails im env bucket pfx delimiter w) {token : Bytes}
    (h : Relation.ReflTransGen (TokenStep page) [] token) :
    ∃ w', AsksIn im env bucket pfx delimiter w w' token := by
  induction h with
  | refl => exact ⟨w, .refl⟩
  | tail _ hstep ih =>
    obtain ⟨w', hasks⟩ := ih
    obtain ⟨w'', hpage⟩ := exists_pageStep hserver hfails hasks hstep
    exact ⟨w'', hasks.tail hpage⟩

/-- **A run ends at a request that fails, or where the tokens end.** -/
theorem exists_final_iff (hserver : ServedFrom im env bucket pfx delimiter w page)
    (hfinite : {token | Relation.ReflTransGen (TokenStep page) [] token}.Finite) :
    (∃ s', Relation.ReflTransGen (PageStep im env bucket pfx delimiter) (w, []) s' ∧
        Runs.Final (PageStep im env bucket pfx delimiter) s') ↔
      AskingFails im env bucket pfx delimiter w ∨ ¬Runs.Cycles (TokenStep page) [] := by
  by_cases hfails : AskingFails im env bucket pfx delimiter w
  · refine iff_of_true ?_ (.inl hfails)
    obtain ⟨w', token, hasks, hnone⟩ := hfails
    refine ⟨(w', token), hasks, ?_⟩
    rintro s' ⟨page, hpage, -⟩
    rw [hpage] at hnone
    cases hnone
  · rw [or_iff_right hfails, ← Runs.exists_final_iff_not_cycles (tokenStep_unique page) hfinite]
    constructor
    · rintro ⟨⟨w', token⟩, hrun, hfinal⟩
      refine ⟨token, tokens_of_run hserver hrun, fun next hnext ↦ ?_⟩
      obtain ⟨w'', hstep⟩ := exists_pageStep hserver hfails hrun hnext
      exact hfinal _ hstep
    · rintro ⟨token, htokens, hfinal⟩
      obtain ⟨w', hasks⟩ := exists_asksIn hserver hfails htokens
      exact ⟨(w', token), hasks, fun s' hstep ↦
        hfinal _ (tokenStep_of_pageStep hserver hasks hstep)⟩

end Walk

/-- **When a listing returns.** The server's pages are a function of the token, and a listing from
the first page on meets finitely many tokens; any request may fail. The listing returns after
finitely many pages exactly if a request of it fails or the tokens do not lead into a cycle of two
or more. -/
theorem list_returns_iff {im : ClientImpl} {env : Outside} {w : World}
    {prefixUri delimiter : Bytes} {page : Bytes → ListPage}
    (hserver : ∀ bucket pfx, im.target prefixUri false = .ok (bucket, pfx) →
      ServedFrom im env bucket pfx delimiter w page)
    (hfinite : {token | Relation.ReflTransGen (TokenStep page) [] token}.Finite)
    (objects : List ObjectInfo) (commonPrefixes : List Bytes) :
    (∃ fuel out w',
        im.list env fuel w prefixUri delimiter objects commonPrefixes = some (out, w')) ↔
      ∀ bucket pfx, im.target prefixUri false = .ok (bucket, pfx) →
        AskingFails im env bucket pfx delimiter w ∨ ¬Runs.Cycles (TokenStep page) [] := by
  have hreturns (fuel : ℕ) : (∃ out w',
        im.list env fuel w prefixUri delimiter objects commonPrefixes = some (out, w')) ↔
      im.list env fuel w prefixUri delimiter objects commonPrefixes ≠ none := by
    rw [Option.ne_none_iff_exists', Prod.exists]
  simp only [hreturns]
  cases htarget : im.target prefixUri false with
  | error e => exact iff_of_true ⟨0, by simp [list, htarget]⟩ (by simp)
  | ok bk =>
    obtain ⟨bucket, pfx⟩ := bk
    have hlist (fuel : ℕ) : im.list env fuel w prefixUri delimiter objects commonPrefixes ≠ none ↔
        im.listLoop env prefixUri bucket pfx delimiter fuel w [] [] [] ≠ none := by
      rw [list, htarget]
      exact not_congr Option.map_eq_none_iff
    have hends := exists_final_iff (hserver bucket pfx htarget) hfinite
    simp only [hlist]
    constructor
    · rintro ⟨fuel, hfuel⟩ bucket' pfx' hbk
      cases hbk
      exact hends.mp (exists_final_of_listLoop hfuel)
    · intro h
      obtain ⟨s', hrun, hfinal⟩ := hends.mpr (h bucket pfx rfl)
      obtain ⟨fuel, hfuel⟩ := exists_listLoop_of_run hrun hfinal prefixUri
      exact ⟨fuel, hfuel [] []⟩

/-! ## Servers that always answer -/

/-- What a server that looks at nothing but the query answers to it. -/
def answerTo (env : Outside) (query : Bytes) : Transfer :=
  env.perform 0 { method := [], url := [], query := query, headers := [] }

theorem servedPage_of_answer {im : ClientImpl} {env : Outside} {bucket pfx delimiter : Bytes}
    {token : Bytes} (hcreds : im.fixedCreds.isSome = true) (hcurl : ∀ m, env.curlInit m = true)
    (hanswer : ∀ m req, env.perform m req = answerTo env req.query)
    (hretries : (listCall bucket pfx delimiter token).retries
      (answerTo env (listQuery pfx delimiter token)) = false) (w : World) :
    (servedPage im env bucket pfx delimiter w token).1
      = pageIn ((listCall bucket pfx delimiter token).receive
          (answerTo env (listQuery pfx delimiter token))) := by
  have hanswered (w : World) (p : Prepared) (hcall : p.call = listCall bucket pfx delimiter token) :
      (w.perform env (p.httpRequest env.sha256Raw (env.amzNow w.moment))).1
        = answerTo env (listQuery pfx delimiter token) := by
    rw [World.perform]
    dsimp only
    rw [hanswer, Prepared.httpRequest, hcall]
    rfl
  obtain ⟨cred, hcred⟩ := Option.isSome_iff_exists.mp hcreds
  rw [servedPage, run, runRequest, hcred]
  dsimp only [Option.isSome_some]
  rw [if_pos rfl, startRequest, if_neg (by simp)]
  dsimp only
  rw [hcurl, if_neg (by simp)]
  dsimp only
  rw [Prepared.attempts_of_not_retries _ _ _ _ (by rwa [hanswered _ _ rfl]), hanswered _ _ rfl]

/-- A server whose pages for the tokens in `T` are known, where these lead to one another only. -/
theorem servedFrom_of_mem {im : ClientImpl} {env : Outside} {bucket pfx delimiter : Bytes}
    {page : Bytes → ListPage} {T : List Bytes} (h0 : [] ∈ T)
    (hserved : ∀ token ∈ T, ∀ w,
      (servedPage im env bucket pfx delimiter w token).1 = some (page token))
    (hclosed : ∀ token ∈ T, (page token).nextToken ∈ T) (w : World) :
    ServedFrom im env bucket pfx delimiter w page ∧
      {token | Relation.ReflTransGen (TokenStep page) [] token}.Finite := by
  constructor
  · intro w' token hasks p hp
    have hmem : token ∈ T := by
      refine Runs.invariant (I := fun s : World × Bytes ↦ s.2 ∈ T) ?_ h0 hasks
      rintro s s' hs ⟨q, hq, -, hnext, -⟩
      have heq : q = page s.2 := by simpa [hq] using hserved s.2 hs s.1
      rw [← hnext, heq]
      exact hclosed s.2 hs
    simpa [hserved token hmem w', eq_comm] using hp
  · refine T.finite_toSet.subset fun token htoken ↦ ?_
    refine Runs.invariant (I := (· ∈ T)) ?_ h0 htoken
    rintro token next htoken ⟨-, rfl, -⟩
    exact hclosed token htoken

/-- A listing of two pages returns. -/
theorem list_returns_twoPages : ∃ fuel out w', ClientImpl.usEast.list twoPages fuel
    { provider := .create [] } (utf8 "s3://bucket/p") [] [] [] = some (out, w') := by
  let page (token : Bytes) : ListPage :=
    if token = [] then ⟨[⟨utf8 "p/a", 3⟩], [], true, utf8 "t&1"⟩
    else ⟨[⟨utf8 "p/b", 5⟩], [], false, []⟩
  have hserved : ∀ token ∈ [[], utf8 "t&1"], ∀ w,
      (servedPage usEast twoPages (utf8 "bucket") (utf8 "p") [] w token).1 = some (page token) := by
    intro token htoken w
    rw [servedPage_of_answer rfl (fun _ ↦ rfl) (fun _ _ ↦ rfl)]
    all_goals
      revert token
      decide +kernel
  obtain ⟨hserver, hfinite⟩ := servedFrom_of_mem (by simp) hserved (by decide +kernel)
    { provider := .create [] }
  have hstep : TokenStep page [] (utf8 "t&1") := ⟨rfl, rfl, by decide⟩
  have hfinal : Runs.Final (TokenStep page) (utf8 "t&1") := fun _ h ↦ absurd h.1 (by decide)
  refine (list_returns_iff (fun bucket pfx htarget ↦ ?_) hfinite [] []).mpr fun _ _ _ ↦
    .inr (Runs.not_cycles_of_final (tokenStep_unique page) (.single hstep) hfinal)
  cases htarget
  exact hserver

/-- A server whose page names the token `B` after the token `A`, and `A` after every other. -/
def circling : Outside :=
  .answering fun _ req ↦
    { code := 200
      chunks :=
        [utf8 "<ListBucketResult><IsTruncated>true</IsTruncated><NextContinuationToken>",
          if req.query = listQuery (utf8 "p") [] (utf8 "A") then utf8 "B" else utf8 "A",
          utf8 "</NextContinuationToken></ListBucketResult>"] }

/-- The pages of `circling`. -/
def circlingPage (token : Bytes) : ListPage :=
  ⟨[], [], true, if token = utf8 "A" then utf8 "B" else utf8 "A"⟩

theorem servedPage_circling {token : Bytes} (htoken : token ∈ [[], utf8 "A", utf8 "B"])
    (w : World) :
    (servedPage usEast circling (utf8 "bucket") (utf8 "p") [] w token).1
      = some (circlingPage token) := by
  rw [servedPage_of_answer rfl (fun _ ↦ rfl) (fun _ _ ↦ rfl)]
  all_goals
    revert token
    decide +kernel

theorem listLoop_circling {fuel : ℕ} {w : World} {token : Bytes} {found : List ObjectInfo}
    {prefixes : List Bytes} (htoken : token ∈ [[], utf8 "A", utf8 "B"]) :
    usEast.listLoop circling (utf8 "s3://bucket/p") (utf8 "bucket") (utf8 "p") [] fuel w token
      found prefixes = none := by
  induction fuel generalizing w token found prefixes with
  | zero => rfl
  | succ fuel ih =>
    have hnext : (circlingPage token).nextToken ∈ [[], utf8 "A", utf8 "B"] ∧
        (circlingPage token).nextToken ≠ token := by
      revert token
      decide +kernel
    rcases hserved : servedPage usEast circling (utf8 "bucket") (utf8 "p") [] w token
      with ⟨page, w'⟩
    have hpage := servedPage_circling htoken w
    rw [hserved] at hpage
    obtain rfl : page = some (circlingPage token) := hpage
    rw [listLoop_of_page hserved, if_neg (by simp [circlingPage]), if_neg hnext.2]
    exact ih hnext.1

/-- Two tokens that name each other: the pages are a function of the token, and there are three
tokens, but the listing does not return. -/
theorem not_list_returns_circling :
    ServedFrom usEast circling (utf8 "bucket") (utf8 "p") [] { provider := .create [] }
        circlingPage ∧
      {token | Relation.ReflTransGen (TokenStep circlingPage) [] token}.Finite ∧
      ∀ fuel, usEast.list circling fuel { provider := .create [] } (utf8 "s3://bucket/p") [] [] []
        = none := by
  obtain ⟨hserver, hfinite⟩ := servedFrom_of_mem (by simp)
    (fun _ htoken w ↦ servedPage_circling htoken w) (by decide +kernel) { provider := .create [] }
  refine ⟨hserver, hfinite, fun fuel ↦ ?_⟩
  rw [list, show usEast.target (utf8 "s3://bucket/p") false = .ok (utf8 "bucket", utf8 "p") from
    rfl]
  dsimp only
  rw [listLoop_circling (by simp)]
  rfl

end ClientImpl

end Nanos3Reader
