import Nanos3Reader.Client.Requests
import Nanos3Reader.Signing

/-!
# The client's requests are sent as signed

`run_request` lists the headers to sign and the lines to send in one place, but not in one list.
Here the two lists are compared for every call that an operation makes: they agree, unless the
session token cannot be sent.
-/

open ByteText

namespace Nanos3Reader

/-! ## What the calls bring -/

/-- What of a call could come between what is signed and what is sent: header lines of its own, and
a hash of its own. -/
structure Call.Plain (sha256Raw : Bytes → Bytes) (call : Call) : Prop where
  extra : ∀ line ∈ call.extraHeaders, signedField line = none ∧ OneLine line
  hash : call.payloadHash = [] ∨ call.payloadHash = S3v4.sha256Hex sha256Raw call.payload

theorem oneLine_of_clean {v : Bytes} (h : clean v = true) : OneLine v := by
  simp only [clean, List.all_eq_true, Bool.and_eq_true, decide_eq_true_eq] at h
  exact ⟨fun hmem ↦ (h _ hmem).1 rfl, fun hmem ↦ (h _ hmem).2 rfl⟩

theorem plain_contentTypeLine {contentType : Bytes} (h : OneLine contentType) :
    signedField (contentTypeLine contentType) = none ∧ OneLine (contentTypeLine contentType) := by
  have hname : utf8 "Content-Type: " = utf8 "Content-Type" ++ utf8 ": " := by decide
  rw [contentTypeLine, oneLine_append]
  refine ⟨?_, by decide, ?_⟩
  · rw [hname]
    exact signedField_eq_none (by decide) (by decide) (by decide) _
  · split
    · decide
    · exact h

theorem plain_of_options {options : PutOptions} (htype : OneLine options.contentType)
    (hmatch : OneLine options.ifMatch) {line : Bytes} (h : line ∈ options.headers) :
    signedField line = none ∧ OneLine line := by
  have hname : utf8 "If-Match: " = utf8 "If-Match" ++ utf8 ": " := by decide
  rw [PutOptions.headers, List.mem_append, List.mem_append] at h
  rcases h with (h | h) | h
  · obtain rfl := List.mem_singleton.mp h
    exact plain_contentTypeLine htype
  · split at h
    · obtain rfl := List.mem_singleton.mp h
      decide
    · cases h
  · split at h
    · cases h
    · obtain rfl := List.mem_singleton.mp h
      refine ⟨?_, oneLine_append.mpr ⟨by decide, hmatch⟩⟩
      rw [hname]
      exact signedField_eq_none (by decide) (by decide) (by decide) _

theorem hash_of_sha256FileHex {sha256Raw : Bytes → Bytes} {file : LocalFile} {offset len : ℕ}
    {reads : Bool} {hash : Bytes} (h : sha256FileHex sha256Raw file offset len reads = some hash) :
    hash = S3v4.sha256Hex sha256Raw ((file.content.drop offset).take len) := by
  rw [sha256FileHex] at h
  split at h
  · exact (Option.some.inj h).symm
  · cases h

theorem FileUpload.MadeAs.plain {u : FileUpload} {sha256Raw : Bytes → Bytes} {call : Call}
    (h : u.MadeAs sha256Raw call) (htype : OneLine u.options.contentType) :
    call.Plain sha256Raw := by
  cases h with
  | single hsingle reads hhash =>
    refine ⟨fun line hline ↦ ?_, ?_⟩
    · obtain rfl := List.mem_singleton.mp hline
      exact plain_contentTypeLine htype
    · rw [FileUpload.singleHash] at hhash
      split at hhash
      · exact .inr (hash_of_sha256FileHex hhash)
      · exact .inl (Option.some.inj hhash).symm
  | create =>
    refine ⟨fun line hline ↦ ?_, .inl rfl⟩
    obtain rfl := List.mem_singleton.mp hline
    exact plain_contentTypeLine htype
  -- a part has no header lines of its own, and is hashed only when the payload is to be signed
  | part uploadId hi hhash =>
    refine ⟨fun line hline ↦ absurd hline List.not_mem_nil, ?_⟩
    rw [FileUpload.PartHash] at hhash
    split at hhash
    · obtain ⟨reads, hhash⟩ := hhash
      exact .inr (hash_of_sha256FileHex hhash)
    · exact .inl hhash
  | complete uploadId etags =>
    refine ⟨fun line hline ↦ ?_, .inl rfl⟩
    obtain rfl := List.mem_singleton.mp hline
    decide
  | abort uploadId => exact ⟨fun line hline ↦ absurd hline List.not_mem_nil, .inl rfl⟩

theorem ClientImpl.Makes.plain {env : Outside} {im : ClientImpl} {call : Call}
    (h : im.Makes env call) : call.Plain env.sha256Raw := by
  cases h with
  | head h => exact ⟨fun line hline ↦ absurd hline List.not_mem_nil, .inl rfl⟩
  | readRange h =>
    rw [readRangeStart] at h
    split at h
    · cases h
    · split at h
      · cases h
      · split at h
        · cases h
        · split at h
          · cases h
          · cases h
            exact ⟨fun line hline ↦ absurd hline List.not_mem_nil, .inl rfl⟩
  | list h delimiter token => exact ⟨fun line hline ↦ absurd hline List.not_mem_nil, .inl rfl⟩
  | put h =>
    rw [putCall] at h
    split at h
    · cases h
    · split at h
      · cases h
      · split at h
        · cases h
        · split at h
          · cases h
          · next hclean =>
            cases h
            obtain ⟨htype, hmatch⟩ : clean _ = true ∧ clean _ = true := by simpa using hclean
            exact ⟨fun line hline ↦
              plain_of_options (oneLine_of_clean htype) (oneLine_of_clean hmatch) hline, .inl rfl⟩
  | putFile h hcall =>
    have hu := of_acceptFile h
    exact hcall.madeAs.plain (hu.options ▸ oneLine_of_clean hu.clean)
  -- the files of a directory go the way of `put_file`
  | putDirectory hd hs hitem h hcall =>
    have hu := of_acceptFile h
    exact hcall.madeAs.plain (hu.options ▸ oneLine_of_clean hu.clean)

/-! ## The two lists -/

namespace Prepared

variable (p : Prepared) (sha256Raw : Bytes → Bytes) (amzDate : Bytes)

/-- What an attempt has signed. -/
def canonical : S3v4.CanonicalRequest where
  method := p.call.method
  uri := p.path
  query := p.call.query
  headers :=
    [⟨utf8 "host", p.host⟩, ⟨utf8 "x-amz-content-sha256", p.payloadHash⟩,
      ⟨utf8 "x-amz-date", amzDate⟩] ++
    (p.rangeText.map fun range ↦ ⟨utf8 "range", range⟩).toList ++ tokenHeaders p.cred.sessionToken
  payloadHash := p.payloadHash

/-- The header lines of an attempt before the session token. -/
def firstLines : List Bytes :=
  [utf8 "x-amz-date: " ++ amzDate, utf8 "x-amz-content-sha256: " ++ p.payloadHash] ++
  p.call.extraHeaders ++
  (if p.call.isPut || p.call.isPost then [utf8 "Expect:"] else []) ++
  (p.rangeText.map (utf8 "Range: " ++ ·)).toList

theorem headers_httpRequest : (p.httpRequest sha256Raw amzDate).headers
    = (p.firstLines amzDate ++ tokenLines p.cred.sessionToken ++
        [(p.canonical amzDate).authorizationLine sha256Raw p.cred p.region amzDate]).map cStr := rfl

/-- The fields to be signed, the session token apart. -/
def signedFields : List (Bytes × Bytes) :=
  [(utf8 "x-amz-content-sha256", p.payloadHash), (utf8 "x-amz-date", amzDate)] ++
    (p.rangeText.map fun range ↦ (utf8 "range", range)).toList

theorem canonical_lines : (p.canonical amzDate).lines
    = p.signedFields amzDate ++ (tokenHeaders p.cred.sessionToken).map S3v4.Header.pair := by
  rw [S3v4.CanonicalRequest.lines, canonical, signedFields, tokenHeaders]
  cases p.rangeText <;> split <;> rfl

variable {p sha256Raw amzDate}

theorem filterMap_firstLines (hdate : Sendable amzDate) (hhash : Sendable p.payloadHash)
    (hextra : ∀ line ∈ p.call.extraHeaders, signedField line = none) :
    ((p.firstLines amzDate).filterMap signedField).Perm (p.signedFields amzDate) := by
  have hdateLine : signedField (utf8 "x-amz-date" ++ utf8 ": " ++ amzDate)
      = some (utf8 "x-amz-date", amzDate) :=
    signedField_line (by decide) (by decide) (by decide) (by decide) hdate
  have hhashLine : signedField (utf8 "x-amz-content-sha256" ++ utf8 ": " ++ p.payloadHash)
      = some (utf8 "x-amz-content-sha256", p.payloadHash) :=
    signedField_line (by decide) (by decide) (by decide) (by decide) hhash
  have hexpect : (if p.call.isPut || p.call.isPost then [utf8 "Expect:"] else []).filterMap
      signedField = [] := by
    split <;> rfl
  have hrange : (p.rangeText.map (utf8 "Range: " ++ ·)).toList.filterMap signedField
      = (p.rangeText.map fun range ↦ (utf8 "range", range)).toList := by
    rw [rangeText]
    cases p.call.range with
    | none => rfl
    | some r =>
      have hline : signedField (utf8 "Range" ++ utf8 ": " ++ (utf8 "bytes=" ++ decimal r.1 ++
          utf8 "-" ++ decimal r.2)) = some (utf8 "range", _) :=
        signedField_line (by decide) (by decide) (by decide) (by decide) (sendable_range r.1 r.2)
      exact List.filterMap_cons_some hline
  have hfirst : [utf8 "x-amz-date: " ++ amzDate,
      utf8 "x-amz-content-sha256: " ++ p.payloadHash].filterMap signedField
      = [(utf8 "x-amz-date", amzDate), (utf8 "x-amz-content-sha256", p.payloadHash)] :=
    (List.filterMap_cons_some hdateLine).trans
      (congrArg (_ :: ·) (List.filterMap_cons_some hhashLine))
  -- the date is sent before the hash, and signed after it
  rw [firstLines, signedFields]
  simp only [List.filterMap_append, hfirst, List.filterMap_eq_nil_iff.mpr hextra, hexpect, hrange,
    List.append_nil]
  exact (List.Perm.swap _ _ []).append_right _

theorem sentAsSigned_httpRequest (hdate : Sendable amzDate) (hhash : Sendable p.payloadHash)
    (hextra : ∀ line ∈ p.call.extraHeaders, signedField line = none) :
    SentAsSigned (p.canonical amzDate) (p.httpRequest sha256Raw amzDate) ↔
      TokenSendable p.cred.sessionToken := by
  refine sentAsSigned_iff (p.headers_httpRequest sha256Raw amzDate) ?_ (p.canonical_lines amzDate)
    (filterMap_firstLines hdate hhash hextra) ?_
  · exact @signedField_eq_none (utf8 "Authorization") (by decide) (by decide) (by decide) _
  · rw [signedFields]
    cases p.rangeText <;>
    · simp only [Option.map_none, Option.map_some, Option.toList_none, Option.toList_some,
        List.append_nil, List.cons_append, List.nil_append, List.map_cons, List.map_nil]
      decide

theorem oneLine_headers (hcred : p.cred.OneLine) (hregion : OneLine p.region)
    (hdate : OneLine amzDate) (hhash : OneLine p.payloadHash)
    (hextra : ∀ line ∈ p.call.extraHeaders, OneLine line) :
    ∀ line ∈ (p.httpRequest sha256Raw amzDate).headers, OneLine line := by
  intro line hline
  rw [headers_httpRequest, List.mem_map] at hline
  obtain ⟨line, hline, rfl⟩ := hline
  refine OneLine.cStr ?_
  simp only [firstLines, List.mem_append, List.mem_cons, List.not_mem_nil, or_false] at hline
  -- line by line in the order of `run_request`
  rcases hline with (((((rfl | rfl) | hline) | hline) | hline) | hline) | rfl
  · exact oneLine_append.mpr ⟨by decide, hdate⟩
  · exact oneLine_append.mpr ⟨by decide, hhash⟩
  · exact hextra line hline
  · split at hline
    · obtain rfl := List.mem_singleton.mp hline
      decide
    · cases hline
  · obtain ⟨range, hrange, rfl⟩ := Option.map_eq_some_iff.mp (Option.mem_toList.mp hline)
    obtain ⟨r, -, rfl⟩ := Option.map_eq_some_iff.mp hrange
    simp only [oneLine_append, oneLine_decimal, and_true]
    decide
  · exact oneLine_tokenLines hcred.sessionToken hline
  · refine oneLine_authorizationLine hcred hregion hdate ?_
    rw [canonical, tokenHeaders]
    cases p.rangeText <;> split <;> simp [signedNames]

theorem Carries.payloadHash_cases {cfg : Config} {call : Call} (h : p.Carries sha256Raw cfg call)
    (hplain : call.Plain sha256Raw) :
    p.payloadHash = S3v4.sha256Hex sha256Raw call.payload ∨
      p.payloadHash = utf8 "UNSIGNED-PAYLOAD" := by
  rw [h.payloadHash]
  split
  · next hhash => exact .inl (hplain.hash.resolve_left hhash)
  · split
    · next hmemory =>
      -- a body in memory is hashed when the request is made, a file's body was hashed before
      have hfile : call.bodyFile = none := by
        simpa using (Bool.and_eq_true_iff.mp hmemory).2
      rw [Call.payload, hfile]
      exact .inl rfl
    · exact .inr rfl

theorem Carries.signedAs {cfg : Config} {call : Call} (h : p.Carries sha256Raw cfg call) :
    SignedAs sha256Raw (p.canonical amzDate) p.cred
      (buildEndpoint cfg call.bucket call.key cfg.region) cfg.region amzDate
      (p.httpRequest sha256Raw amzDate) := by
  have hcall := h.call_eq
  subst hcall
  refine ⟨?_, rfl, ?_, h.path, congrArg cStr h.url, by simp [canonical, S3v4.Header.pair]⟩
  · rw [headers_httpRequest, h.region]
    simp
  · rw [canonical, tokenHeaders, ← h.host]
    cases p.rangeText <;> split <;> rfl

/-- The hash signed for a body is that of the bytes that `upload_read` hands out: they are the start
of what was hashed, and all of it once they are as many as announced. -/
def HashesBody (p : Prepared) (sha256Raw : Bytes → Bytes) : Prop :=
  p.payloadHash ≠ utf8 "UNSIGNED-PAYLOAD" →
    ∃ body, p.payloadHash = S3v4.sha256Hex sha256Raw body ∧
      ∀ reads, (p.call.upload reads).sent <+: body ∧
        ((p.call.upload reads).sent.length = p.call.bodyLen → (p.call.upload reads).sent = body)

theorem Carries.hashesBody {cfg : Config} {call : Call} (h : p.Carries sha256Raw cfg call)
    (hplain : call.Plain sha256Raw) : p.HashesBody sha256Raw := by
  intro hsigned
  have hhash := (h.payloadHash_cases hplain).resolve_right hsigned
  rw [h.call_eq]
  exact ⟨call.payload, hhash, fun reads ↦ ⟨call.sent_prefix_payload reads, Call.sent_eq_payload⟩⟩

/-- **The attempts of a call are sent as signed**, if the session token can be. -/
theorem Carries.signsWhatIsSent_iff {cfg : Config} {call : Call} {amzNow : ℕ → Bytes}
    (h : p.Carries sha256Raw cfg call) (hplain : call.Plain sha256Raw)
    (htools : SigningTools sha256Raw amzNow) (hcred : p.cred.OneLine) (m : ℕ) :
    SignsWhatIsSent sha256Raw (p.canonical (amzNow m)) p.cred
        (buildEndpoint cfg call.bucket call.key cfg.region) cfg.region (amzNow m)
        (p.httpRequest sha256Raw (amzNow m)) ↔
      TokenSendable p.cred.sessionToken := by
  have hcall := h.call_eq
  have hextra : ∀ line ∈ p.call.extraHeaders, signedField line = none ∧ OneLine line := by
    rw [hcall]
    exact hplain.extra
  have hhash : Sendable p.payloadHash ∧ OneLine p.payloadHash := by
    rcases h.payloadHash_cases hplain with hhash | hhash
    · rw [hhash]
      exact ⟨sendable_sha256Hex htools.digest _, oneLine_hexEncode _⟩
    · rw [hhash]
      exact ⟨sendable_unsigned, by decide⟩
  have hsent := @sentAsSigned_httpRequest p sha256Raw (amzNow m) (htools.sendable_date m) hhash.1
    fun line hline ↦ (hextra line hline).1
  refine ⟨fun hsigns ↦ hsent.mp hsigns.sentAsSigned, fun htoken ↦ ?_⟩
  refine ⟨h.signedAs, hsent.mpr htoken, fun hregion ↦ ?_⟩
  exact oneLine_headers hcred (h.region ▸ hregion) (htools.oneLine_date m) hhash.2
    fun line hline ↦ (hextra line hline).2

end Prepared

end Nanos3Reader
