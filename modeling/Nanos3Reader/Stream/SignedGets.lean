import Nanos3Reader.Signing
import Nanos3Reader.Stream.Bounds

/-!
# The GETs of a stream are sent as signed

`load_window` lists the headers to sign and the lines to send once more, for its own GETs. They go
to one object all along, and to the region that the last redirect named: a stream is at every moment
targeted at its region, so each of its GETs is signed for where it is sent.
-/

open ByteText

namespace Nanos3Reader

namespace S3Streambuf

/-! ## Which GETs there are -/

/-- The GETs of the loop of `load_window`, each with the stream that sends it and the moment that
dates it. -/
inductive Gets (env : Outside) (cred : Credentials) (start : ℕ) :
    World → S3Streambuf → Bool → ℕ → S3Streambuf → ℕ → Prop
  | first (w : World) (b : S3Streambuf) (redirected : Bool) (attempt : ℕ) :
      Gets env cred start w b redirected attempt b w.moment
  | redirected {w w' : World} {b b' : S3Streambuf} {t : Transfer} {redirected : Bool}
      {attempt m : ℕ}
      (hperform : w.perform env (b.rangeRequest env cred start (env.amzNow w.moment)) = (t, w'))
      (hverdict : (b.receive t).verdict redirected attempt t = .redirect)
      (h : Gets env cred start w' (b.receive t).retarget true attempt b' m) :
      Gets env cred start w b redirected attempt b' m
  | again {w w' : World} {b b' : S3Streambuf} {t : Transfer} {redirected : Bool}
      {attempt m : ℕ}
      (hperform : w.perform env (b.rangeRequest env cred start (env.amzNow w.moment)) = (t, w'))
      (hverdict : (b.receive t).verdict redirected attempt t = .retry)
      (h : Gets env cred start w' (b.receive t) redirected (attempt + 1) b' m) :
      Gets env cred start w b redirected attempt b' m

/-- A GET of `load_window` for `target`, from `start` on and with the keys `cred`. -/
structure LoadGets (env : Outside) (w : World) (b : S3Streambuf) (target : ℕ) (cred : Credentials)
    (start : ℕ) (b' : S3Streambuf) (m : ℕ) : Prop where
  curl : b.curl = true
  start_eq : start = b.loadStart w target
  missed : (w.tryLoad env ⟨b.uri, .ofNat start⟩).1 = none
  cred_eq : cred = ((w.tryLoad env ⟨b.uri, .ofNat start⟩).2.getCredentials env).1
  valid : cred.valid = true
  readAhead : b.readAhead ≤ maxSize
  gets : Gets env cred start ((w.tryLoad env ⟨b.uri, .ofNat start⟩).2.getCredentials env).2 b false
    0 b' m

section

variable {env : Outside} {cred : Credentials} {start target : ℕ} {w w' : World}
  {b b' : S3Streambuf}

theorem Gets.kept {redirected : Bool} {attempt m : ℕ}
    (h : Gets env cred start w b redirected attempt b' m) : Kept b b' := by
  induction h with
  | first w b redirected attempt => exact .refl b
  | redirected hperform hverdict h ih => exact ((Kept.receive _ _).trans (.retarget _)).trans ih
  | again hperform hverdict h ih => exact (Kept.receive _ _).trans ih

theorem sent_cons {P Q : HttpRequest → Prop} {req : HttpRequest} {last : World}
    (hsent : w'.sent = w.sent ++ [req]) (hreq : Q req) (hQ : ∀ r, P r → Q r)
    (h : ∃ reqs, last.sent = w'.sent ++ reqs ∧ ∀ r ∈ reqs, P r) :
    ∃ reqs, last.sent = w.sent ++ reqs ∧ ∀ r ∈ reqs, Q r := by
  obtain ⟨reqs, hreqs, hall⟩ := h
  refine ⟨req :: reqs, by rw [hreqs, hsent, List.append_assoc, List.singleton_append],
    fun r hr ↦ ?_⟩
  rcases List.mem_cons.mp hr with rfl | hr
  · exact hreq
  · exact hQ r (hall r hr)

theorem sent_lastTransfer (env : Outside) (cred : Credentials) (start : ℕ) (w : World)
    (b : S3Streambuf) (redirected : Bool) (attempt : ℕ) :
    ∃ reqs, (lastTransfer env cred start w b redirected attempt).2.2.sent = w.sent ++ reqs ∧
      ∀ req ∈ reqs, ∃ b' m, Gets env cred start w b redirected attempt b' m ∧
        req = b'.rangeRequest env cred start (env.amzNow m) := by
  induction w, b, redirected, attempt using lastTransfer.induct env cred start with
  | case1 w b redirected attempt t w' hperform b' hverdict ih =>
    have hsent : w'.sent = w.sent ++ [b.rangeRequest env cred start (env.amzNow w.moment)] := by
      cases hperform
      rfl
    rw [lastTransfer_eq, hperform]
    dsimp only
    rw [hverdict]
    refine sent_cons hsent ⟨b, w.moment, .first _ _ _ _, rfl⟩ ?_ ih
    rintro r ⟨b'', m, hgets, rfl⟩
    exact ⟨b'', m, .redirected hperform hverdict hgets, rfl⟩
  | case2 w b redirected attempt t w' hperform b' hverdict ih =>
    have hsent : w'.sent = w.sent ++ [b.rangeRequest env cred start (env.amzNow w.moment)] := by
      cases hperform
      rfl
    rw [lastTransfer_eq, hperform]
    dsimp only
    rw [hverdict]
    refine sent_cons hsent ⟨b, w.moment, .first _ _ _ _, rfl⟩ ?_ ih
    rintro r ⟨b'', m, hgets, rfl⟩
    exact ⟨b'', m, .again hperform hverdict hgets, rfl⟩
  | case3 w b redirected attempt t w' hperform b' hredirect hretry =>
    have hsent : w'.sent = w.sent ++ [b.rangeRequest env cred start (env.amzNow w.moment)] := by
      cases hperform
      rfl
    rw [lastTransfer_eq, hperform]
    dsimp only
    refine sent_cons hsent ⟨b, w.moment, .first _ _ _ _, rfl⟩ (fun _ ↦ False.elim) ⟨[], ?_, by simp⟩
    split
    · next h => exact absurd h hredirect
    · next h => exact absurd h hretry
    · rw [List.append_nil]

theorem sent_of_conclude {cacheOn ok : Bool} {last : Transfer × S3Streambuf × World}
    (h : conclude env cacheOn start target last = .ok (ok, b', w')) : w'.sent = last.2.2.sent := by
  obtain ⟨t, b₁, w₁⟩ := last
  rw [conclude] at h
  split at h
  · rw [deliver] at h
    split at h
    · cases h
    · next w₂ hstored =>
      cases h
      dsimp only
      split at hstored
      · obtain ⟨c, -, rfl⟩ := Option.map_eq_some_iff.mp hstored
        rfl
      · cases hstored
        rfl
  · split at h
    · cases h
      rfl
    · cases h
      rfl

/-- **A load sends its GETs and nothing else.** -/
theorem sent_of_loadWindow {ok : Bool} (h : loadWindow env w b target = .ok (ok, b', w')) :
    ∃ reqs, w'.sent = w.sent ++ reqs ∧
      ∀ req ∈ reqs, ∃ cred start b₁ m, LoadGets env w b target cred start b₁ m ∧
        req = b₁.rangeRequest env cred start (env.amzNow m) := by
  have hlookup : (w.tryLoad env ⟨b.uri, .ofNat (b.loadStart w target)⟩).2.sent = w.sent := by
    rw [World.tryLoad]
    split <;> rfl
  rw [loadWindow] at h
  split at h
  · cases h
    exact ⟨[], by simp, by simp⟩
  next hcurl =>
  dsimp only at h
  rw [← loadStart] at h
  split at h
  · next w₁ heq =>
    cases h
    rw [heq] at hlookup
    exact ⟨[], by simpa using hlookup, by simp⟩
  · next w₁ heq =>
    rw [heq] at hlookup
    split at h
    · cases h
      exact ⟨[], by simpa [World.getCredentials] using hlookup, by simp⟩
    · next hvalid =>
      by_cases hra : maxSize < b.readAhead
      · rw [fetch, if_pos hra] at h
        cases h
      · rw [fetch_eq_conclude _ _ _ _ _ _ _ _ _ (not_lt.mp hra)] at h
        obtain ⟨reqs, hreqs, hall⟩ := sent_lastTransfer env (w₁.getCredentials env).1
          (b.loadStart w target) (w₁.getCredentials env).2 b false 0
        refine ⟨reqs, ?_, fun req hreq ↦ ?_⟩
        · rw [sent_of_conclude h, hreqs, ← hlookup]
          rfl
        · obtain ⟨b₁, m, hgets, rfl⟩ := hall req hreq
          refine ⟨_, _, b₁, m, ⟨by simpa using hcurl, rfl, by rw [heq], by rw [heq], ?_,
            not_lt.mp hra, by rw [heq]; exact hgets⟩, rfl⟩
          simpa using hvalid

/-! ## Where they go -/

theorem targeted_of_openStream {cfg : Config} {uri : Bytes} {readAhead : ℕ}
    (h : openStream env cfg w uri readAhead = (some b, w')) : b.Targeted := by
  rw [openStream] at h
  split at h
  · cases h
  · split at h
    · cases h
    · split at h
      · cases h
      · dsimp only at h
        split at h
        · cases h
        · split at h
          · cases h
          · cases h
            exact ⟨rfl, rfl, rfl⟩

theorem Targeted.of_ends {a : Answer} {ok : Bool} (hb : b.Targeted)
    (h : Ends b start target a ok b' w') : b'.Targeted := by
  rcases h with ⟨hkept, -⟩ | ⟨hkept, -⟩ | ⟨hkept, -⟩ | ⟨hkept, -⟩ | ⟨hkept, -, -⟩ <;>
  · have hb₁ := hkept.targeted hb
    exact ⟨hb₁.host, hb₁.url, hb₁.path⟩

/-- **A stream is always targeted at its region**, also after a redirect. -/
theorem Targeted.of_reachable (h : Reachable env b) : b.Targeted := by
  induction h with
  | opened h => exact targeted_of_openStream h
  | @called w w' b b' hb h ih =>
    refine h.preserves (I := fun b _ ↦ b.Targeted) ?_ ?_ ?_ ih
    · intro w b r b' w' hb h
      cases h with
      | inside hlt hget => exact hb
      | ended hle heof => exact hb
      | fails hle heof hload => exact hb.of_ends (ends_of_loadWindow hload).2
      | finds hle heof hload hempty =>
        have hb' := hb.of_ends (ends_of_loadWindow hload).2
        exact ⟨hb'.host, hb'.url, hb'.path⟩
      | loads hle heof hload hpos hget => exact hb.of_ends (ends_of_loadWindow hload).2
    · exact fun b w c hb _ _ ↦ ⟨hb.host, hb.url, hb.path⟩
    · intro w b sp forInput r b' w' hb h
      cases h with
      | refused hinput => exact hb
      | inside hin => exact ⟨hb.host, hb.url, hb.path⟩
      | loads hout hload => exact hb.of_ends (ends_of_loadWindow hload).2

/-! ## The two lists -/

variable (b cred start) (sha256Raw : Bytes → Bytes) (amzDate : Bytes)

/-- The bytes asked for. -/
def rangeText : Bytes :=
  utf8 "bytes=" ++ decimal start ++ utf8 "-" ++ decimal ((start + b.readAhead - 1) % 2 ^ 64)

/-- What a GET has signed. -/
def canonical : S3v4.CanonicalRequest where
  method := utf8 "GET"
  uri := b.path
  query := []
  headers :=
    [⟨utf8 "host", b.host⟩, ⟨utf8 "range", b.rangeText start⟩,
      ⟨utf8 "x-amz-content-sha256", utf8 "UNSIGNED-PAYLOAD"⟩, ⟨utf8 "x-amz-date", amzDate⟩] ++
    tokenHeaders cred.sessionToken
  payloadHash := utf8 "UNSIGNED-PAYLOAD"

/-- The header lines of a GET before the session token. -/
def firstLines : List Bytes :=
  [utf8 "x-amz-date: " ++ amzDate, utf8 "x-amz-content-sha256: UNSIGNED-PAYLOAD",
    utf8 "Range: " ++ b.rangeText start]

variable {b cred start amzDate}

theorem headers_rangeRequest : (b.rangeRequest env cred start amzDate).headers
    = (b.firstLines start amzDate ++ tokenLines cred.sessionToken ++
        [(b.canonical cred start amzDate).authorizationLine env.sha256Raw cred b.region
          amzDate]).map cStr := rfl

/-- The fields to be signed, the session token apart. -/
def signedFields (b : S3Streambuf) (start : ℕ) (amzDate : Bytes) : List (Bytes × Bytes) :=
  [(utf8 "range", b.rangeText start), (utf8 "x-amz-content-sha256", utf8 "UNSIGNED-PAYLOAD"),
    (utf8 "x-amz-date", amzDate)]

theorem canonical_lines : (b.canonical cred start amzDate).lines
    = b.signedFields start amzDate ++ (tokenHeaders cred.sessionToken).map S3v4.Header.pair := by
  rw [S3v4.CanonicalRequest.lines, canonical, signedFields, tokenHeaders]
  split <;> rfl

theorem filterMap_firstLines (hdate : Sendable amzDate) :
    ((b.firstLines start amzDate).filterMap signedField).Perm (b.signedFields start amzDate) := by
  have hdateLine : signedField (utf8 "x-amz-date" ++ utf8 ": " ++ amzDate)
      = some (utf8 "x-amz-date", amzDate) :=
    signedField_line (by decide) (by decide) (by decide) (by decide) hdate
  have hhashLine : signedField (utf8 "x-amz-content-sha256: UNSIGNED-PAYLOAD")
      = some (utf8 "x-amz-content-sha256", utf8 "UNSIGNED-PAYLOAD") := by
    decide
  have hrangeLine : signedField (utf8 "Range" ++ utf8 ": " ++ b.rangeText start)
      = some (utf8 "range", b.rangeText start) :=
    signedField_line (by decide) (by decide) (by decide) (by decide) (sendable_range _ _)
  have hlines : (b.firstLines start amzDate).filterMap signedField
      = (b.signedFields start amzDate).reverse :=
    (List.filterMap_cons_some hdateLine).trans (congrArg (_ :: ·)
      ((List.filterMap_cons_some hhashLine).trans (congrArg (_ :: ·)
        (List.filterMap_cons_some hrangeLine))))
  -- the lines are sent in the reverse of the order in which their fields are signed
  rw [hlines]
  exact List.reverse_perm _

theorem sentAsSigned_rangeRequest (hdate : Sendable amzDate) :
    SentAsSigned (b.canonical cred start amzDate) (b.rangeRequest env cred start amzDate) ↔
      TokenSendable cred.sessionToken := by
  refine sentAsSigned_iff headers_rangeRequest ?_ canonical_lines (filterMap_firstLines hdate) ?_
  · exact @signedField_eq_none (utf8 "Authorization") (by decide) (by decide) (by decide) _
  · simp only [signedFields, List.map_cons, List.map_nil]
    decide

theorem oneLine_headers (hcred : cred.OneLine) (hregion : OneLine b.region)
    (hdate : OneLine amzDate) :
    ∀ line ∈ (b.rangeRequest env cred start amzDate).headers, OneLine line := by
  intro line hline
  rw [headers_rangeRequest, List.mem_map] at hline
  obtain ⟨line, hline, rfl⟩ := hline
  refine OneLine.cStr ?_
  simp only [firstLines, List.mem_append, List.mem_cons, List.not_mem_nil, or_false] at hline
  rcases hline with ((rfl | rfl | rfl) | hline) | rfl
  · exact oneLine_append.mpr ⟨by decide, hdate⟩
  · decide
  · simp only [rangeText, oneLine_append, oneLine_decimal, and_true]
    decide
  · exact oneLine_tokenLines hcred.sessionToken hline
  · refine oneLine_authorizationLine hcred hregion hdate ?_
    rw [canonical, tokenHeaders]
    split <;> simp [signedNames]

theorem Targeted.signedAs (h : b.Targeted) :
    SignedAs env.sha256Raw (b.canonical cred start amzDate) cred
      (buildEndpoint b.cfg b.bucket b.key b.region) b.region amzDate
      (b.rangeRequest env cred start amzDate) := by
  refine ⟨?_, rfl, ?_, h.path, congrArg cStr h.url, by simp [canonical, S3v4.Header.pair]⟩
  · rw [headers_rangeRequest]
    simp
  · rw [canonical, tokenHeaders, ← h.host]
    split <;> rfl

/-- **The GETs of a stream are sent as signed**, if the session token can be. -/
theorem Targeted.signsWhatIsSent_iff (h : b.Targeted)
    (htools : SigningTools env.sha256Raw env.amzNow) (hcred : cred.OneLine) (m : ℕ) :
    SignsWhatIsSent env.sha256Raw (b.canonical cred start (env.amzNow m)) cred
        (buildEndpoint b.cfg b.bucket b.key b.region) b.region (env.amzNow m)
        (b.rangeRequest env cred start (env.amzNow m)) ↔
      TokenSendable cred.sessionToken := by
  have hsent : SentAsSigned _ (b.rangeRequest env cred start (env.amzNow m)) ↔ _ :=
    sentAsSigned_rangeRequest (htools.sendable_date m)
  refine ⟨fun hsigns ↦ hsent.mp hsigns.sentAsSigned, fun htoken ↦ ?_⟩
  exact ⟨h.signedAs, hsent.mpr htoken,
    fun hregion ↦ oneLine_headers hcred hregion (htools.oneLine_date m)⟩

end

end S3Streambuf

end Nanos3Reader
