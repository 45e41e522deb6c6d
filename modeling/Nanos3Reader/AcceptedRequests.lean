import Nanos3Reader.SignedRequests
import Nanos3Reader.Signing.Receiver

/-!
# The reader's requests are accepted

A receiver with the reader's secret accepts every request that the reader sends: every attempt of
every call of a client, with whatever body it carries, and every GET of every load of a stream. What
it takes for that is that the target and the credentials arrive as they are.
-/

open ByteText

namespace Nanos3Reader

/-! ## Targets and credentials that arrive as they are -/

/-- The bucket and the key name a target that arrives as it is written. -/
structure Config.Routes (cfg : Config) (bucket key region : Bytes) : Prop where
  plainRegion : ∀ c ∈ region, isAlnum c = true ∨ c = 45
  plainEndpoint : cfg.pathStyle = true → IsOrigin cfg.endpoint
  plainHost : IsPlainAuthority (buildEndpoint cfg bucket key region).host
  /-- The endpoint does not spell out the port that goes without saying. -/
  port : cfg.pathStyle = true → ¬defaultPort (buildEndpoint cfg bucket key region).url <:+
    (buildEndpoint cfg bucket key region).host
  segments : ∀ seg ∈ (namedPath cfg bucket key).splitOn 47, ¬Uri.IsDots seg

/-- Credentials that can stand in header lines: the access key between the bytes that delimit it,
and the session token without spaces. -/
structure Credentials.Presentable (cred : Credentials) : Prop where
  accessKey : ∀ c ∈ cred.accessKey, c ≠ 0 ∧ c ≠ 13 ∧ c ≠ 10 ∧ c ≠ 44 ∧ c ≠ 47
  sessionToken : ∀ c ∈ cred.sessionToken, c ≠ 0 ∧ isSpace c = false

theorem Credentials.Presentable.oneLine {cred : Credentials} (h : cred.Presentable) :
    cred.OneLine where
  accessKey := ⟨fun hmem ↦ (h.accessKey _ hmem).2.1 rfl, fun hmem ↦ (h.accessKey _ hmem).2.2.1 rfl⟩
  sessionToken := ⟨fun hmem ↦ absurd (h.sessionToken _ hmem).2 (by decide),
    fun hmem ↦ absurd (h.sessionToken _ hmem).2 (by decide)⟩

theorem Credentials.Presentable.tokenSendable {cred : Credentials} (h : cred.Presentable) :
    TokenSendable cred.sessionToken := by
  by_cases hnil : cred.sessionToken = []
  · exact .inl hnil
  · obtain ⟨c, rest, hc⟩ := List.exists_cons_of_ne_nil hnil
    have hmem : c ∈ cred.sessionToken := hc ▸ List.mem_cons_self
    exact .inr ⟨fun h0 ↦ (h.sessionToken _ h0).1 rfl, c, hmem, (h.sessionToken c hmem).2⟩

theorem isBlank_of_isSpace {c : UInt8} (h : isSpace c = false) : SignatureV4.isBlank c = false := by
  have hall : ∀ n < 256, isSpace (UInt8.ofNat n) = false →
      SignatureV4.isBlank (UInt8.ofNat n) = false := by decide +kernel
  have hc := hall c.toNat c.toNat_lt
  rw [UInt8.ofNat_toNat] at hc
  exact hc h

theorem isSpace_of_isAlnum {c : UInt8} (h : isAlnum c = true ∨ c = 45) : isSpace c = false := by
  rcases h with h | rfl
  · have hall : ∀ n < 256, isAlnum (UInt8.ofNat n) = true → isSpace (UInt8.ofNat n) = false := by
      decide +kernel
    have hc := hall c.toNat c.toNat_lt
    rw [UInt8.ofNat_toNat] at hc
    exact hc h
  · decide

theorem isBlank_of_isAlnum {c : UInt8} (h : isAlnum c = true ∨ c = 45) :
    SignatureV4.isBlank c = false :=
  isBlank_of_isSpace (isSpace_of_isAlnum h)

theorem newline_notMem_of_isSpace {v : Bytes} (h : ∀ c ∈ v, isSpace c = false) : 10 ∉ v :=
  fun hmem ↦ absurd (h 10 hmem) (by decide)

theorem IsHostPort.notMem {host : Bytes} (h : IsHostPort host) : 0 ∉ host :=
  fun hmem ↦ (h 0 hmem).1 rfl

/-- Behind a scheme, a plain host and a path without segments of dots arrive. -/
theorem arrives_of_parts {scheme host path : Bytes}
    (hscheme : scheme = utf8 "http" ∨ scheme = utf8 "https") (hhost : IsPlainAuthority host)
    (hport : ¬defaultPort (scheme ++ utf8 "://" ++ host ++ uriEncodePath (utf8 "/" ++ path))
      <:+ host)
    (hsegments : ∀ seg ∈ (utf8 "/" ++ path).splitOn 47, ¬Uri.IsDots seg) :
    Endpoint.Arrives ⟨host, scheme ++ utf8 "://" ++ host ++ uriEncodePath (utf8 "/" ++ path),
      uriEncodePath (utf8 "/" ++ path)⟩ := by
  have hslash : utf8 "/" ++ path = 47 :: path := rfl
  have hsplit : (47 :: path).splitOn 47 = [] :: path.splitOn 47 := by
    rw [List.splitOn_cons_eq_if_modifyHead, if_pos (by simp)]
  refine ⟨hhost, ((addressed_iff path hscheme).mpr hhost.clean.1).1, ?_, ?_, hport, ?_⟩
  · simp only [List.mem_append, not_or]
    exact ⟨⟨⟨by rcases hscheme with rfl | rfl <;> decide, by decide⟩, hhost.clean.1.notMem⟩,
      fun hmem ↦ (clean_uriEncodePath hmem).1 rfl⟩
  · rcases hscheme with rfl | rfl
    · exact .inl ⟨host ++ uriEncodePath (utf8 "/" ++ path), by
        rw [← List.append_assoc]
        rfl⟩
    · exact .inr ⟨host ++ uriEncodePath (utf8 "/" ++ path), by
        rw [← List.append_assoc]
        rfl⟩
  · dsimp only
    rw [hslash] at hsegments ⊢
    refine (removeDotSegments_uriEncodePath path).mpr ?_
    rw [hsplit, List.forall_mem_cons] at hsegments
    exact hsegments.2

section Routes

variable {cfg : Config} {bucket key region : Bytes}

/-- **A target that is routed arrives as it was written.** -/
theorem Config.Routes.arrives (h : cfg.Routes bucket key region) :
    (buildEndpoint cfg bucket key region).Arrives := by
  have hhost := h.plainHost
  have hport := h.port
  have hsegments := h.segments
  rw [namedPath] at hsegments
  rw [buildEndpoint] at hhost hport ⊢
  cases hstyle : cfg.pathStyle with
  | true =>
    obtain ⟨scheme, host, hscheme, -, hsplit⟩ := splitScheme_of_isOrigin (h.plainEndpoint hstyle)
    rw [hstyle, hsplit] at hhost hport
    rw [hstyle] at hsegments
    rw [hsplit]
    simp only [reduceIte, List.append_assoc (utf8 "/")] at hhost hport hsegments ⊢
    exact arrives_of_parts hscheme hhost (hport trivial) hsegments
  | false =>
    rw [hstyle] at hhost hsegments
    simp only [Bool.false_eq_true, if_false] at hhost hsegments ⊢
    refine arrives_of_parts (.inr rfl) hhost ?_ hsegments
    -- a host of AWS ends with its domain, not with a port
    have hdefault : defaultPort (utf8 "https" ++ utf8 "://" ++
        (bucket ++ utf8 ".s3." ++ region ++ utf8 ".amazonaws.com") ++
        uriEncodePath (utf8 "/" ++ key)) = utf8 ":443" := rfl
    rw [hdefault]
    rintro ⟨front, hfront⟩
    have hlast := congrArg (fun s ↦ s.getLast?) hfront
    simp [show utf8 ":443" = [58, 52, 52] ++ [51] from by decide,
      show utf8 ".amazonaws.com" = utf8 ".amazonaws.co" ++ [109] from by decide,
      ← List.append_assoc] at hlast

end Routes

/-! ## Which calls there are -/

/-- The header lines that calls bring along have these names. -/
def extraNames : List Bytes :=
  [utf8 "Content-Type", utf8 "If-None-Match", utf8 "If-Match"]

/-- What a receiver needs to know of a call: a method, a bucket without slashes, header lines with
names that mean nothing to it, and a canonical query. -/
structure Call.Shaped (call : Call) : Prop where
  method : call.method ∈ [utf8 "HEAD", utf8 "GET", utf8 "PUT", utf8 "POST", utf8 "DELETE"]
  slash : 47 ∉ call.bucket
  extra : ∀ line ∈ call.extraHeaders, ∃ name ∈ extraNames, ∃ v, line = name ++ utf8 ": " ++ v
  query : CanonicalQuery call.query

theorem canonicalQuery_nil : CanonicalQuery [] := ⟨[], rfl, List.Pairwise.nil⟩

theorem canonicalQuery_one {name : Bytes} (hname : uriEncodeComponent name = name) (v : Bytes) :
    CanonicalQuery (name ++ utf8 "=" ++ uriEncodeComponent v) := by
  refine ⟨[(name, v)], ?_, List.pairwise_singleton _ _⟩
  simp [Uri.renderParameters, encodeParameter, hname, List.intercalate,
    show utf8 "=" = [61] from by decide]

theorem canonicalQuery_listQuery (pfx delimiter token : Bytes) :
    CanonicalQuery (listQuery pfx delimiter token) := by
  refine ⟨listParameters pfx delimiter token, listQuery_eq pfx delimiter token, ?_⟩
  rw [map_fst_encodeParameter]
  exact listParameters_names_sorted pfx delimiter token

theorem uriEncodeComponent_decimal (n : ℕ) : uriEncodeComponent (decimal n) = decimal n := by
  have hkeep : ∀ c ∈ decimal n, isUnreserved c = true := by
    intro c hc
    have hdigit := mem_decimal hc
    simp [isUnreserved, isAlnum, hdigit.1, hdigit.2]
  rw [uriEncodeComponent, percentEncode, List.flatMap_congr fun c hc ↦ if_pos (hkeep c hc),
    List.flatMap_singleton']

theorem renderParameters_partQuery (uploadId : Bytes) (n : ℕ) :
    FileUpload.partQuery uploadId n = Uri.renderParameters
      ([(utf8 "partNumber", decimal n), (utf8 "uploadId", uploadId)].map encodeParameter) := by
  have hnames : uriEncodeComponent (utf8 "partNumber") = utf8 "partNumber" ∧
      uriEncodeComponent (utf8 "uploadId") = utf8 "uploadId" := by decide
  have hliterals : utf8 "partNumber=" = utf8 "partNumber" ++ [61] ∧ utf8 "&" = [38] ∧
      utf8 "uploadId=" = utf8 "uploadId" ++ [61] := by decide
  simp [FileUpload.partQuery, FileUpload.idQuery, Uri.renderParameters, encodeParameter, hnames,
    uriEncodeComponent_decimal, hliterals, List.intercalate]

theorem canonicalQuery_partQuery (uploadId : Bytes) (n : ℕ) :
    CanonicalQuery (FileUpload.partQuery uploadId n) := by
  have hnames : uriEncodeComponent (utf8 "partNumber") = utf8 "partNumber" ∧
      uriEncodeComponent (utf8 "uploadId") = utf8 "uploadId" := by decide
  refine ⟨_, renderParameters_partQuery uploadId n, ?_⟩
  simp only [List.map_cons, List.map_nil, encodeParameter, hnames]
  decide

theorem contentTypeLine_named (contentType : Bytes) :
    ∃ name ∈ extraNames, ∃ v, contentTypeLine contentType = name ++ utf8 ": " ++ v := by
  have hname : utf8 "Content-Type: " = utf8 "Content-Type" ++ utf8 ": " := by decide
  rw [contentTypeLine, hname]
  exact ⟨utf8 "Content-Type", List.mem_cons_self, _, rfl⟩

theorem FileUpload.MadeAs.shaped {u : FileUpload} {sha256Raw : Bytes → Bytes} {call : Call}
    (h : u.MadeAs sha256Raw call) (hslash : 47 ∉ u.bucket) : call.Shaped := by
  have hid (uploadId : Bytes) : CanonicalQuery (FileUpload.idQuery uploadId) := by
    have hone := canonicalQuery_one (show uriEncodeComponent (utf8 "uploadId") = utf8 "uploadId" by
      decide) uploadId
    rwa [show utf8 "uploadId" ++ utf8 "=" = utf8 "uploadId=" from by decide] at hone
  cases h with
  | single hsingle reads hhash =>
    refine ⟨by simp [FileUpload.singleCall], hslash, fun line hline ↦ ?_, canonicalQuery_nil⟩
    obtain rfl := List.mem_singleton.mp hline
    exact contentTypeLine_named _
  | create =>
    refine ⟨by simp [FileUpload.createCall], hslash, fun line hline ↦ ?_, ?_⟩
    · obtain rfl := List.mem_singleton.mp hline
      exact contentTypeLine_named _
    · exact canonicalQuery_one (show uriEncodeComponent (utf8 "uploads") = utf8 "uploads" by decide)
        []
  | part uploadId hi hhash =>
    exact ⟨by simp [FileUpload.partCall], hslash, fun line hline ↦ absurd hline List.not_mem_nil,
      canonicalQuery_partQuery _ _⟩
  | complete uploadId etags =>
    refine ⟨by simp [FileUpload.completeCall], hslash, fun line hline ↦ ?_, hid uploadId⟩
    obtain rfl := List.mem_singleton.mp hline
    exact ⟨utf8 "Content-Type", List.mem_cons_self, utf8 "application/xml", by decide⟩
  | abort uploadId =>
    exact ⟨by simp [FileUpload.abortCall], hslash,
      fun line hline ↦ absurd hline List.not_mem_nil, hid uploadId⟩

theorem ClientImpl.splitS3Uri_of_target {im : ClientImpl} {uri : Bytes} {needKey : Bool}
    {bk : Bytes × Bytes} (h : im.target uri needKey = .ok bk) :
    splitS3Uri uri needKey = .ok bk := by
  rw [target] at h
  split at h
  · cases h
  · next hsplit =>
    split at h
    · rw [hsplit, h]
    · cases h

theorem slash_of_target {im : ClientImpl} {uri bucket key : Bytes} {needKey : Bool}
    (h : im.target uri needKey = .ok (bucket, key)) : 47 ∉ bucket :=
  (of_splitS3Uri (ClientImpl.splitS3Uri_of_target h)).2

/-- **Every call of a client has this shape.** -/
theorem ClientImpl.Makes.shaped {env : Outside} {im : ClientImpl} {call : Call}
    (h : im.Makes env call) : call.Shaped := by
  cases h with
  | head h =>
    exact ⟨by simp [headCall], slash_of_target h, fun line hline ↦ absurd hline List.not_mem_nil,
      canonicalQuery_nil⟩
  | readRange h =>
    rw [readRangeStart] at h
    split at h
    · cases h
    · next htarget =>
      split at h
      · cases h
      · split at h
        · cases h
        · split at h
          · cases h
          · cases h
            exact ⟨by simp [readRangeCall], slash_of_target htarget,
              fun line hline ↦ absurd hline List.not_mem_nil, canonicalQuery_nil⟩
  | list h delimiter token =>
    exact ⟨by simp [listCall], slash_of_target h, fun line hline ↦ absurd hline List.not_mem_nil,
      canonicalQuery_listQuery _ _ _⟩
  | put h =>
    rw [putCall] at h
    split at h
    · cases h
    · next htarget =>
      split at h
      · cases h
      · split at h
        · cases h
        · split at h
          · cases h
          · cases h
            refine ⟨by simp, slash_of_target htarget, fun line hline ↦ ?_, canonicalQuery_nil⟩
            dsimp only at hline
            rw [PutOptions.headers, List.mem_append, List.mem_append] at hline
            rcases hline with (hline | hline) | hline
            · obtain rfl := List.mem_singleton.mp hline
              exact contentTypeLine_named _
            · split at hline
              · obtain rfl := List.mem_singleton.mp hline
                exact ⟨utf8 "If-None-Match", by decide, utf8 "*", by decide⟩
              · cases hline
            · split at hline
              · cases hline
              · obtain rfl := List.mem_singleton.mp hline
                exact ⟨utf8 "If-Match", by decide, _, rfl⟩
  | putFile h hcall => exact hcall.madeAs.shaped (slash_of_target (of_acceptFile h).target)
  | putDirectory hd hs hitem h hcall =>
    exact hcall.madeAs.shaped (slash_of_target (of_acceptFile h).target)

/-! ## Fields -/

theorem ne_of_line {name other : Bytes} (hname : 58 ∉ name) (h0 : 0 ∉ name)
    (hother : name.map toLower ≠ other) (v : Bytes) :
    ∀ f ∈ headerField (cStr (name ++ utf8 ": " ++ v)), f.1 ≠ other := by
  intro f hf
  rw [headerField_line hname h0] at hf
  split at hf
  · obtain rfl := Option.mem_some.mp hf
    exact hother
  · cases hf

theorem filter_lines_eq_nil {lines : List Bytes} {name : Bytes}
    (h : ∀ line ∈ lines, ∀ f ∈ headerField (cStr line), f.1 ≠ name) :
    ((lines.filterMap (headerField ∘ cStr)).filter fun f ↦ f.1 = name) = [] := by
  refine List.filter_eq_nil_iff.mpr fun f hf ↦ ?_
  obtain ⟨line, hline, hbrings⟩ := List.mem_filterMap.mp hf
  simpa using h line hline f hbrings

theorem filter_authorization {req : HttpRequest} {first : List Bytes} {value : Bytes}
    (hlines : req.headers = (first ++ [utf8 "Authorization: " ++ value]).map cStr)
    (hfirst : ∀ line ∈ first, ∀ f ∈ headerField (cStr line), f.1 ≠ utf8 "authorization")
    (hvalue : Sendable value) :
    (req.fields.filter fun f ↦ f.1 = utf8 "authorization") = [(utf8 "authorization", value)] := by
  have hlast : headerField (cStr (utf8 "Authorization: " ++ value))
      = some (utf8 "authorization", value) :=
    @headerField_of_sendable (utf8 "Authorization") (by decide) (by decide) value hvalue
  rw [HttpRequest.fields, hlines, List.filterMap_map, List.filterMap_append, List.filter_append,
    filter_lines_eq_nil hfirst, List.filterMap_cons_some (by exact hlast)]
  rfl

theorem arrivesAsSigned {signed : S3v4.CanonicalRequest} {sha256Raw : Bytes → Bytes}
    {cred : Credentials} {ep : Endpoint} {region amzDate : Bytes} {req : HttpRequest}
    (h : SignsWhatIsSent sha256Raw signed cred ep region amzDate req) (hep : ep.Arrives)
    (hquery : CanonicalQuery signed.query) (body : Bytes) :
    ArrivesAsSigned signed (req.arrived body) ∧ (req.arrived body).host = ep.host := by
  obtain ⟨hhost, hpath, hq⟩ := hep.target (hquery.notMem (by decide) (by decide))
    (hquery.notMem (by decide) (by decide)) h.signedAs.url body
  refine ⟨⟨h.signedAs.method.symm, hpath.trans h.signedAs.path.symm, hq, fun x hx ↦ ?_,
    fun f hf hamz ↦ ?_⟩, hhost⟩
  · by_cases hname : x.name = utf8 "host"
    · have hmem : x ∈ signed.headers.filter fun h ↦ h.name = utf8 "host" :=
        List.mem_filter.mpr ⟨hx, by simpa using hname⟩
      rw [h.signedAs.host] at hmem
      obtain rfl := List.mem_singleton.mp hmem
      rw [SignatureV4.Arrived.value, if_pos rfl, hhost]
    · have hsent := h.sentAsSigned.sent x hx hname
      rw [SignatureV4.Arrived.value, if_neg hname]
      have hheaders : (req.arrived body).headers = req.fields := rfl
      rw [hheaders, hsent]
      rfl
  · have hmust : mustSign f.1 = true := by
      rw [mustSign, hamz]
      rfl
    obtain ⟨x, hx, rfl⟩ := List.mem_map.mp (h.sentAsSigned.signed f hf hmust)
    exact List.mem_map_of_mem hx

theorem comma_notMem_hexEncode (data : Bytes) : 44 ∉ S3v4.hexEncode data := by
  have hdigit {d : UInt8} (hd : d < 16) : S3v4.hexDigit d ≠ 44 := by
    have hall : ∀ n < 16, S3v4.hexDigit (.ofNat n) ≠ 44 := by decide
    simpa using hall d.toNat (UInt8.lt_iff_toNat_lt.mp hd)
  intro hc
  obtain ⟨b, -, hb⟩ := List.mem_flatMap.mp hc
  obtain ⟨hhi, hlo⟩ := nibbles_lt b
  simp only [List.mem_cons, List.not_mem_nil, or_false] at hb
  rcases hb with hb | hb
  · exact hdigit hhi hb.symm
  · exact hdigit hlo hb.symm

/-- `r` is the request for `signed` as it arrives, with the line that carries the signature. -/
structure Presents (sha256Raw : Bytes → Bytes) (signed : S3v4.CanonicalRequest)
    (cred : Credentials) (region amzDate : Bytes) (r : SignatureV4.Arrived) : Prop where
  arrives : ArrivesAsSigned signed r
  spelled : signed.Spelled
  authorization : r.value (utf8 "authorization")
    = some (S3v4.buildAuthorization sha256Raw signed cred.accessKey cred.secretKey region
        (utf8 "s3") amzDate).1
  date : ⟨utf8 "x-amz-date", amzDate⟩ ∈ signed.headers
  host : utf8 "host" ∈ signed.headers.map S3v4.Header.name
  payload : signed.payloadHash = utf8 "UNSIGNED-PAYLOAD" ∨
    signed.payloadHash = S3v4.sha256Hex sha256Raw r.body
  oneLine : r.OneLine

section Presents

variable {signed : S3v4.CanonicalRequest} {r : SignatureV4.Arrived} {sha256Raw : Bytes → Bytes}
  {cred : Credentials} {region amzDate : Bytes}

theorem Presents.readClaim (h : Presents sha256Raw signed cred region amzDate r)
    (hcred : cred.Presentable) (hregion : ∀ c ∈ region, isAlnum c = true ∨ c = 45)
    (hdate : ∀ c ∈ amzDate, isAlnum c = true) :
    SignatureV4.readClaim (S3v4.buildAuthorization sha256Raw signed cred.accessKey cred.secretKey
      region (utf8 "s3") amzDate).1 = some (claimOf sha256Raw signed cred region amzDate) := by
  rw [buildAuthorization_eq_render]
  refine SignatureV4.readClaim_render
    ⟨?_, ?_, List.ne_nil_of_mem (mem_names.mpr h.host), comma_notMem_hexEncode _⟩
  · have hword : ∀ c : UInt8, isAlnum c = true ∨ c = 45 → c ≠ 44 ∧ c ≠ 47 := by
      rintro c (hc | rfl)
      · constructor <;>
        · rintro rfl
          exact absurd hc (by decide)
      · decide
    have htext {v : Bytes} (hv : ∀ c ∈ v, isAlnum c = true ∨ c = 45) : 44 ∉ v ∧ 47 ∉ v :=
      ⟨fun hc ↦ (hword _ (hv _ hc)).1 rfl, fun hc ↦ (hword _ (hv _ hc)).2 rfl⟩
    intro part hpart
    simp only [claimOf, List.mem_cons, List.not_mem_nil, or_false] at hpart
    rcases hpart with rfl | rfl | rfl | rfl
    · exact ⟨fun hc ↦ (hcred.accessKey _ hc).2.2.2.1 rfl,
        fun hc ↦ (hcred.accessKey _ hc).2.2.2.2 rfl⟩
    · exact htext fun c hc ↦ .inl (hdate c (List.mem_of_mem_take hc))
    · exact htext hregion
    · decide
  · intro name hname
    have hall : ∀ name ∈ signedNames, 44 ∉ name ∧ 59 ∉ name := by decide
    exact hall name (h.spelled.names (mem_names.mp hname))

theorem Presents.value_payload (h : Presents sha256Raw signed cred region amzDate r) :
    r.value (utf8 "x-amz-content-sha256") = some signed.payloadHash := by
  obtain ⟨x, hx, heq⟩ := List.mem_map.mp h.spelled.payloadHash
  obtain ⟨hname, hvalue⟩ := Prod.mk.inj heq
  rw [← hname, ← hvalue]
  exact h.arrives.value x hx

/-- **A receiver that has the reader's secret accepts what arrives as it was signed.** -/
theorem Presents.accepts (h : Presents sha256Raw signed cred region amzDate r)
    (hdigest : ∀ x, (sha256Raw x).length = 32) (hcred : cred.Presentable)
    (hregion : ∀ c ∈ region, isAlnum c = true ∨ c = 45) (hdate : ∀ c ∈ amzDate, isAlnum c = true)
    {secretOf : Bytes → Option Bytes} (hsecret : secretOf cred.accessKey = some cred.secretKey) :
    SignatureV4.Accepts sha256Raw secretOf (utf8 "s3") region r := by
  have harrives : r.value (utf8 "x-amz-date") = some amzDate := h.arrives.value _ h.date
  refine ⟨⟨_, claimOf sha256Raw signed cred region amzDate, cred.secretKey, h.authorization,
    h.readClaim hcred hregion hdate, ?_, hsecret,
    signature_claimOf hdigest h.arrives h.spelled harrives cred region⟩,
    signed.payloadHash, h.value_payload, ?_⟩
  · exact ⟨rfl, rfl, ⟨amzDate, harrives, rfl⟩, h.spelled.sorted, mem_names.mpr h.host,
      fun f hf hamz ↦ mem_names.mpr (h.arrives.amz f hf hamz)⟩
  · rcases h.payload with hpayload | hpayload
    · exact .inl hpayload
    · exact .inr (by rw [hpayload, S3v4.sha256Hex, hexEncode_eq])

end Presents

theorem newline_notMem_headerField {line : Bytes} (h : OneLine line) {f : Bytes × Bytes}
    (hf : headerField line = some f) : 10 ∉ f.1 ∧ 10 ∉ f.2 := by
  rw [headerField] at hf
  split at hf
  · obtain rfl := Option.some.inj hf
    constructor
    · intro hmem
      obtain ⟨c, hc, hlower⟩ := List.mem_map.mp hmem
      have hall : ∀ n < 256, toLower (UInt8.ofNat n) = 10 → UInt8.ofNat n = 10 := by decide +kernel
      have hten := hall c.toNat c.toNat_lt
      rw [UInt8.ofNat_toNat] at hten
      exact h.2 (hten hlower ▸ (List.takeWhile_sublist _).subset hc)
    · intro hmem
      exact h.2 ((List.dropWhile_sublist _).subset (List.mem_of_mem_drop hmem))
  · cases hf

theorem oneLine_arrived {sha256Raw : Bytes → Bytes} {signed : S3v4.CanonicalRequest}
    {cred : Credentials} {ep : Endpoint} {region amzDate : Bytes} {req : HttpRequest}
    (h : SignsWhatIsSent sha256Raw signed cred ep region amzDate req)
    (hregion : ∀ c ∈ region, isAlnum c = true ∨ c = 45) (hmethod : 10 ∉ signed.method)
    {body : Bytes} (hhost : 10 ∉ (req.arrived body).host) : (req.arrived body).OneLine := by
  have hplain : OneLine region :=
    ⟨fun hc ↦ absurd (hregion _ hc) (by decide), fun hc ↦ absurd (hregion _ hc) (by decide)⟩
  refine ⟨?_, hhost, fun f hf ↦ ?_⟩
  · rw [HttpRequest.arrived, ← h.signedAs.method]
    exact hmethod
  · obtain ⟨line, hline, hfield⟩ := List.mem_filterMap.mp hf
    exact newline_notMem_headerField (h.oneLine hplain line hline) hfield

/-! ## Values without blanks -/

theorem plain_hexEncode {data : Bytes} : ∀ c ∈ S3v4.hexEncode data, SignatureV4.isBlank c = false :=
  fun _ hc ↦ isBlank_of_isSpace (of_mem_hexEncode hc).2

theorem plain_decimal (n : ℕ) : ∀ c ∈ decimal n, SignatureV4.isBlank c = false := by
  intro c hc
  have hdigit := mem_decimal hc
  exact isBlank_of_isAlnum (.inl (by simp [isAlnum, hdigit.1, hdigit.2]))

theorem plain_rangeText (first last : ℕ) :
    ∀ c ∈ utf8 "bytes=" ++ decimal first ++ utf8 "-" ++ decimal last,
      SignatureV4.isBlank c = false := by
  intro c hc
  simp only [List.mem_append] at hc
  rcases hc with ((hc | hc) | hc) | hc
  · exact forall_mem_of_all (p := fun c ↦ SignatureV4.isBlank c = false) (by decide) c hc
  · exact plain_decimal first c hc
  · exact forall_mem_of_all (p := fun c ↦ SignatureV4.isBlank c = false) (by decide) c hc
  · exact plain_decimal last c hc

theorem plain_tokenHeaders {cred : Credentials} (hcred : cred.Presentable) :
    ∀ h ∈ tokenHeaders cred.sessionToken, ∀ c ∈ h.value, SignatureV4.isBlank c = false := by
  intro h hh c hc
  rw [tokenHeaders] at hh
  split at hh
  · obtain rfl := List.mem_singleton.mp hh
    exact isBlank_of_isSpace (hcred.sessionToken c hc).2
  · cases hh

theorem ne_of_mem_tokenLines {token line name : Bytes} (hline : line ∈ tokenLines token)
    (hname : utf8 "x-amz-security-token" ≠ name) :
    ∀ f ∈ headerField (cStr line), f.1 ≠ name := by
  have hlower : (utf8 "x-amz-security-token").map toLower = utf8 "x-amz-security-token" := by decide
  rw [tokenLines] at hline
  split at hline
  · obtain rfl := List.mem_singleton.mp hline
    rw [tokenName_eq]
    exact ne_of_line (by decide) (by decide) (by rw [hlower]; exact hname) _
  · cases hline

theorem sendable_authorization {signed : S3v4.CanonicalRequest} {sha256Raw : Bytes → Bytes}
    {cred : Credentials} {region amzDate : Bytes} (hcred : cred.Presentable)
    (hregion : ∀ c ∈ region, isAlnum c = true ∨ c = 45) (hdate : ∀ c ∈ amzDate, isAlnum c = true)
    (hnames : signed.headers.map S3v4.Header.name ⊆ signedNames) :
    Sendable (S3v4.buildAuthorization sha256Raw signed cred.accessKey cred.secretKey region
      (utf8 "s3") amzDate).1 := by
  have hkey : 0 ∉ cred.accessKey := fun hc ↦ (hcred.accessKey _ hc).1 rfl
  have hregion : 0 ∉ region := fun hc ↦ absurd (hregion _ hc) (by decide)
  have hday : 0 ∉ amzDate.take 8 := fun hc ↦ absurd (hdate _ (List.mem_of_mem_take hc)) (by decide)
  have hsigned : 0 ∉ S3v4.signedHeaders (S3v4.sortHeaders signed.headers) := by
    refine @notMem_intercalate 59 0 _ (fun name hname ↦ ?_) (by decide)
    have hall : ∀ name ∈ signedNames, 0 ∉ name := by decide
    exact hall name (hnames (((S3v4.sortHeaders_perm signed.headers).map _).subset hname))
  have hhex (data : Bytes) : 0 ∉ S3v4.hexEncode data := fun hc ↦ (of_mem_hexEncode hc).1 rfl
  have hfirst : (65 : UInt8) ∈ utf8 "AWS4-HMAC-SHA256 Credential=" := by decide
  refine ⟨?_, 65, ?_, by decide⟩
  · simp only [S3v4.buildAuthorization, List.mem_append, hkey, hregion, hday, hsigned, hhex,
      or_false, false_or]
    decide
  · simp only [S3v4.buildAuthorization, List.mem_append]
    simp [hfirst]

/-! ## The requests of a client -/

namespace Prepared

variable {p : Prepared} {sha256Raw : Bytes → Bytes} {cfg : Config} {call : Call} {amzDate : Bytes}

theorem map_name_canonical (p : Prepared) (amzDate : Bytes) :
    (p.canonical amzDate).headers.map S3v4.Header.name ⊆ signedNames ∧
      ((p.canonical amzDate).headers.map S3v4.Header.name).Nodup ∧
      utf8 "host" ∈ (p.canonical amzDate).headers.map S3v4.Header.name ∧
      ⟨utf8 "x-amz-date", amzDate⟩ ∈ (p.canonical amzDate).headers ∧
      (utf8 "x-amz-content-sha256", (p.canonical amzDate).payloadHash)
        ∈ (p.canonical amzDate).headers.map S3v4.Header.pair := by
  rw [canonical, tokenHeaders]
  cases p.rangeText <;> split <;>
  · simp only [Option.map_none, Option.map_some, Option.toList_none, Option.toList_some,
      List.append_nil, List.cons_append, List.nil_append, List.map_cons, List.map_nil]
    refine ⟨by decide, by decide, by decide, by simp, by simp [S3v4.Header.pair]⟩

theorem Carries.spelled (h : p.Carries sha256Raw cfg call) (hplain : call.Plain sha256Raw)
    (hshaped : call.Shaped) (hcred : p.cred.Presentable)
    (hhost : ∀ c ∈ (buildEndpoint cfg call.bucket call.key cfg.region).host, isSpace c = false)
    (hdate : ∀ c ∈ amzDate, isAlnum c = true) : (p.canonical amzDate).Spelled := by
  obtain ⟨hnames, hnodup, -, -, hpayload⟩ := p.map_name_canonical amzDate
  refine ⟨?_, ?_, ?_, hnames, hnodup, hpayload⟩
  · rw [canonical, h.path, path_buildEndpoint]
    exact canonicalPath_uriEncodePath _
  · rw [canonical, h.call_eq]
    exact hshaped.query
  · intro x hx
    simp only [canonical, List.mem_append, List.mem_cons, List.not_mem_nil, or_false] at hx
    rcases hx with ((rfl | rfl | rfl) | hx) | hx
    · rw [h.host]
      exact fun c hc ↦ isBlank_of_isSpace (hhost c hc)
    · rcases h.payloadHash_cases hplain with hhash | hhash
      · rw [hhash]
        exact plain_hexEncode
      · rw [hhash]
        exact forall_mem_of_all (by decide)
    · exact fun c hc ↦ isBlank_of_isAlnum (.inl (hdate c hc))
    · obtain ⟨range, hrange, rfl⟩ := Option.map_eq_some_iff.mp (Option.mem_toList.mp hx)
      obtain ⟨r, -, rfl⟩ := Option.map_eq_some_iff.mp hrange
      exact plain_rangeText r.1 r.2
    · exact plain_tokenHeaders hcred x hx

theorem Carries.filter_authorization (h : p.Carries sha256Raw cfg call) (hshaped : call.Shaped)
    (hcred : p.cred.Presentable) (hregion : ∀ c ∈ cfg.region, isAlnum c = true ∨ c = 45)
    (hdate : ∀ c ∈ amzDate, isAlnum c = true) :
    ((p.httpRequest sha256Raw amzDate).fields.filter fun f ↦ f.1 = utf8 "authorization")
      = [(utf8 "authorization", (S3v4.buildAuthorization sha256Raw (p.canonical amzDate)
          p.cred.accessKey p.cred.secretKey p.region (utf8 "s3") amzDate).1)] := by
  refine @Nanos3Reader.filter_authorization _
    (p.firstLines amzDate ++ tokenLines p.cred.sessionToken) _
    (p.headers_httpRequest sha256Raw amzDate) (fun line hline ↦ ?_)
    (sendable_authorization hcred (h.region ▸ hregion) hdate (p.map_name_canonical amzDate).1)
  simp only [firstLines, List.mem_append, List.mem_cons, List.not_mem_nil, or_false] at hline
  rcases hline with ((((rfl | rfl) | hline) | hline) | hline) | hline
  · exact @ne_of_line (utf8 "x-amz-date") (utf8 "authorization") (by decide) (by decide)
      (by decide) _
  · exact @ne_of_line (utf8 "x-amz-content-sha256") (utf8 "authorization") (by decide) (by decide)
      (by decide) _
  · rw [h.call_eq] at hline
    obtain ⟨name, hname, v, rfl⟩ := hshaped.extra line hline
    have hall : ∀ name ∈ extraNames, 58 ∉ name ∧ 0 ∉ name ∧
        name.map toLower ≠ utf8 "authorization" := by decide
    obtain ⟨hcolon, hnul, hother⟩ := hall name hname
    exact ne_of_line hcolon hnul hother v
  · split at hline
    · obtain rfl := List.mem_singleton.mp hline
      decide
    · cases hline
  · obtain ⟨range, -, rfl⟩ := Option.map_eq_some_iff.mp (Option.mem_toList.mp hline)
    exact @ne_of_line (utf8 "Range") (utf8 "authorization") (by decide) (by decide) (by decide)
      range
  · exact ne_of_mem_tokenLines hline (by decide)

theorem Carries.presents {amzNow : ℕ → Bytes} (h : p.Carries sha256Raw cfg call)
    (htools : SigningTools sha256Raw amzNow) (hplain : call.Plain sha256Raw)
    (hshaped : call.Shaped) (hcred : p.cred.Presentable)
    (hroutes : cfg.Routes call.bucket call.key cfg.region) (m : ℕ) {reads : List ReadCall}
    (hwhole : (p.call.upload reads).sent.length = p.call.bodyLen) :
    Presents sha256Raw (p.canonical (amzNow m)) p.cred cfg.region (amzNow m)
      ((p.httpRequest sha256Raw (amzNow m)).arrived (p.call.upload reads).sent) := by
  have hdate := (htools.date m).2
  have hep := hroutes.arrives
  have hspaces := hep.host.clean.2
  obtain ⟨-, -, hhost, hsigned, -⟩ := p.map_name_canonical (amzNow m)
  have hspelled := h.spelled hplain hshaped hcred hspaces hdate
  have hsigns := (h.signsWhatIsSent_iff hplain htools hcred.oneLine m).mpr hcred.tokenSendable
  have hauth := h.filter_authorization hshaped hcred hroutes.plainRegion hdate
  obtain ⟨harrives, harrived⟩ :=
    arrivesAsSigned hsigns hep hspelled.query (p.call.upload reads).sent
  have hregion := h.region
  refine ⟨harrives, hspelled, ?_, hsigned, hhost, ?_,
    oneLine_arrived hsigns hroutes.plainRegion ?_ ?_⟩
  · rw [SignatureV4.Arrived.value, if_neg (by decide), HttpRequest.arrived, hauth, hregion]
  · by_cases hunsigned : p.payloadHash = utf8 "UNSIGNED-PAYLOAD"
    · exact .inl hunsigned
    · -- what is hashed is what the read callback hands out
      obtain ⟨body, hhash, hsent⟩ := h.hashesBody hplain hunsigned
      refine .inr ?_
      rw [HttpRequest.arrived, (hsent reads).2 hwhole]
      exact hhash
  · have hmethod := hshaped.method
    rw [← h.call_eq] at hmethod
    have hall : ∀ method ∈ [utf8 "HEAD", utf8 "GET", utf8 "PUT", utf8 "POST", utf8 "DELETE"],
        10 ∉ method := by decide
    exact hall _ hmethod
  · rw [harrived]
    exact newline_notMem_of_isSpace hspaces

end Prepared

/-! ## The GETs of a stream -/

namespace S3Streambuf

variable {env : Outside} {b : S3Streambuf} {cred : Credentials} {start : ℕ}

theorem map_name_canonical (b : S3Streambuf) (cred : Credentials) (start : ℕ) (amzDate : Bytes) :
    (b.canonical cred start amzDate).headers.map S3v4.Header.name ⊆ signedNames ∧
      ((b.canonical cred start amzDate).headers.map S3v4.Header.name).Nodup ∧
      utf8 "host" ∈ (b.canonical cred start amzDate).headers.map S3v4.Header.name ∧
      ⟨utf8 "x-amz-date", amzDate⟩ ∈ (b.canonical cred start amzDate).headers ∧
      (utf8 "x-amz-content-sha256", (b.canonical cred start amzDate).payloadHash)
        ∈ (b.canonical cred start amzDate).headers.map S3v4.Header.pair := by
  rw [canonical, tokenHeaders]
  split <;>
  · simp only [List.append_nil, List.cons_append, List.nil_append, List.map_cons, List.map_nil]
    refine ⟨by decide, by decide, by decide, by simp, by simp [S3v4.Header.pair]⟩

theorem Targeted.spelled {amzDate : Bytes} (h : b.Targeted) (hcred : cred.Presentable)
    (hhost : ∀ c ∈ (buildEndpoint b.cfg b.bucket b.key b.region).host, isSpace c = false)
    (hdate : ∀ c ∈ amzDate, isAlnum c = true) :
    (b.canonical cred start amzDate).Spelled := by
  obtain ⟨hnames, hnodup, -, -, hpayload⟩ := b.map_name_canonical cred start amzDate
  refine ⟨?_, canonicalQuery_nil, ?_, hnames, hnodup, hpayload⟩
  · rw [canonical, h.path, path_buildEndpoint]
    exact canonicalPath_uriEncodePath _
  · intro x hx
    simp only [canonical, List.mem_append, List.mem_cons, List.not_mem_nil, or_false] at hx
    rcases hx with (rfl | rfl | rfl | rfl) | hx
    · rw [h.host]
      exact fun c hc ↦ isBlank_of_isSpace (hhost c hc)
    · exact plain_rangeText _ _
    · exact forall_mem_of_all (by decide)
    · exact fun c hc ↦ isBlank_of_isAlnum (.inl (hdate c hc))
    · exact plain_tokenHeaders hcred x hx

theorem filter_authorization {amzDate : Bytes} (hcred : cred.Presentable)
    (hregion : ∀ c ∈ b.region, isAlnum c = true ∨ c = 45)
    (hdate : ∀ c ∈ amzDate, isAlnum c = true) :
    ((b.rangeRequest env cred start amzDate).fields.filter fun f ↦ f.1 = utf8 "authorization")
      = [(utf8 "authorization", (S3v4.buildAuthorization env.sha256Raw
          (b.canonical cred start amzDate) cred.accessKey cred.secretKey b.region (utf8 "s3")
          amzDate).1)] := by
  refine @Nanos3Reader.filter_authorization _
    (b.firstLines start amzDate ++ tokenLines cred.sessionToken) _ headers_rangeRequest
    (fun line hline ↦ ?_)
    (sendable_authorization hcred hregion hdate (b.map_name_canonical cred start amzDate).1)
  simp only [firstLines, List.mem_append, List.mem_cons, List.not_mem_nil, or_false] at hline
  rcases hline with (rfl | rfl | rfl) | hline
  · exact @ne_of_line (utf8 "x-amz-date") (utf8 "authorization") (by decide) (by decide)
      (by decide) _
  · exact @ne_of_line (utf8 "x-amz-content-sha256") (utf8 "authorization") (by decide) (by decide)
      (by decide) (utf8 "UNSIGNED-PAYLOAD")
  · exact @ne_of_line (utf8 "Range") (utf8 "authorization") (by decide) (by decide) (by decide) _
  · exact ne_of_mem_tokenLines hline (by decide)

theorem Targeted.presents (h : b.Targeted) (htools : SigningTools env.sha256Raw env.amzNow)
    (hcred : cred.Presentable)
    (hroutes : b.cfg.Routes b.bucket b.key b.region) (m : ℕ) :
    Presents env.sha256Raw (b.canonical cred start (env.amzNow m)) cred b.region (env.amzNow m)
      ((b.rangeRequest env cred start (env.amzNow m)).arrived []) := by
  have hdate := (htools.date m).2
  have hep := hroutes.arrives
  have hspaces := hep.host.clean.2
  obtain ⟨-, -, hhost, hsigned, -⟩ := b.map_name_canonical cred start (env.amzNow m)
  have hspelled : (b.canonical cred start (env.amzNow m)).Spelled :=
    h.spelled hcred hspaces hdate
  have hsigns := (@Targeted.signsWhatIsSent_iff env cred start b h htools hcred.oneLine m).mpr
    hcred.tokenSendable
  have hauth := @filter_authorization env b cred start _ hcred hroutes.plainRegion hdate
  obtain ⟨harrives, harrived⟩ := arrivesAsSigned hsigns hep hspelled.query []
  have hmethod : 10 ∉ utf8 "GET" := by decide
  refine ⟨harrives, hspelled, ?_, hsigned, hhost, .inl rfl,
    oneLine_arrived hsigns hroutes.plainRegion hmethod ?_⟩
  · rw [SignatureV4.Arrived.value, if_neg (by decide), HttpRequest.arrived, hauth]
  · rw [harrived]
    exact newline_notMem_of_isSpace hspaces

theorem slash_of_reachable (h : Reachable env b) : 47 ∉ b.bucket := by
  have hends : ∀ {b b' : S3Streambuf} {w' : World} {start target : ℕ} {a : Answer} {ok : Bool},
      47 ∉ b.bucket → Ends b start target a ok b' w' → 47 ∉ b'.bucket := by
    intro b b' w' start target a ok hb hends
    rcases hends with ⟨hkept, -⟩ | ⟨hkept, -⟩ | ⟨hkept, -⟩ | ⟨hkept, -⟩ | ⟨hkept, -, -⟩ <;>
    exact hkept.bucket ▸ hb
  induction h with
  | opened h => exact (opens_of_openStream h).slash
  | called hb h ih =>
    refine h.preserves (I := fun b _ ↦ 47 ∉ b.bucket) ?_ (fun _ _ _ hb _ _ ↦ hb) ?_ ih
    · intro w b r b' w' hb h
      rcases h with ⟨-, -⟩ | ⟨-, -⟩ | ⟨-, -, hload⟩ | ⟨-, -, hload, -⟩ | ⟨-, -, hload, -, -⟩
      · exact hb
      · exact hb
      · exact hends hb (ends_of_loadWindow hload).2
      · have hfound := hends hb (ends_of_loadWindow hload).2
        exact hfound
      · exact hends hb (ends_of_loadWindow hload).2
    · intro w b sp forInput r b' w' hb h
      rcases h with _ | _ | ⟨-, hload⟩
      · exact hb
      · exact hb
      · exact hends hb (ends_of_loadWindow hload).2

end S3Streambuf

/-- **The requests of the reader are accepted** by a receiver that has the secret of the key they
are signed with: every attempt of every call of a client that carries its body whole, and every GET
of every load of a stream, for the region that it goes to. -/
theorem requests_accepted {env : Outside} (htools : SigningTools env.sha256Raw env.amzNow)
    {secretOf : Bytes → Option Bytes} :
    (∀ {im : ClientImpl} {call : Call} {got : Credentials} {diagnostic : Bytes} {curl : Bool}
      {p : Prepared}, im.Makes env call →
      startRequest env.sha256Raw im.cfg im.fixedCreds got diagnostic curl call = .ok p →
      p.cred.Presentable → im.cfg.Routes call.bucket call.key im.cfg.region →
      secretOf p.cred.accessKey = some p.cred.secretKey → ∀ (m : ℕ) (reads : List ReadCall),
        (p.call.upload reads).sent.length = p.call.bodyLen →
        SignatureV4.Accepts env.sha256Raw secretOf (utf8 "s3") im.cfg.region
          ((p.httpRequest env.sha256Raw (env.amzNow m)).arrived (p.call.upload reads).sent)) ∧
    ∀ {w : World} {b b' : S3Streambuf} {target start m : ℕ} {cred : Credentials},
      S3Streambuf.Reachable env b → b.LoadGets env w target cred start b' m → cred.Presentable →
      b.cfg.Routes b.bucket b.key b'.region → secretOf cred.accessKey = some cred.secretKey →
        SignatureV4.Accepts env.sha256Raw secretOf (utf8 "s3") b'.region
          ((b'.rangeRequest env cred start (env.amzNow m)).arrived []) := by
  constructor
  · intro im call got diagnostic curl p hcall hstart hcred hroutes hsecret m reads hwhole
    have hpresents := (carries_of_startRequest hstart).presents htools hcall.plain hcall.shaped
      hcred hroutes m hwhole
    exact hpresents.accepts htools.digest hcred hroutes.plainRegion (htools.date m).2 hsecret
  · intro w b b' target start m cred hb hgets hcred hroutes hsecret
    have hkept := hgets.gets.kept
    rw [← hkept.cfg, ← hkept.bucket, ← hkept.key] at hroutes
    have hpresents := @S3Streambuf.Targeted.presents env b' cred start
      (hkept.targeted (.of_reachable hb)) htools hcred hroutes m
    exact hpresents.accepts htools.digest hcred hroutes.plainRegion (htools.date m).2 hsecret

/-- The secrets of these examples. -/
def secretOfK (accessKey : Bytes) : Option Bytes :=
  if accessKey = utf8 "K" then some (utf8 "S") else none

theorem plainHost_usEast : IsPlainAuthority (utf8 "b.s3.us-east-1.amazonaws.com") :=
  ⟨_, ⟨by decide +kernel, .inl (by decide +kernel)⟩, .inl rfl⟩

theorem routes_usEast : ClientImpl.usEast.cfg.Routes (utf8 "b") (utf8 "k") (utf8 "us-east-1") where
  plainRegion := forall_mem_of_all (by decide)
  plainEndpoint h := absurd h (by decide)
  plainHost := plainHost_usEast
  port h := absurd h (by decide)
  segments := by decide +kernel

theorem exists_conditional_put : ∃ call p,
    (ClientImpl.withToken (utf8 "T")).putCall (utf8 "s3://b/k") (some [1, 2, 3])
        { ifNoneMatch := true } = .ok call ∧
      startRequest signing.sha256Raw (ClientImpl.withToken (utf8 "T")).cfg
        (ClientImpl.withToken (utf8 "T")).fixedCreds {} [] true call = .ok p ∧
      p.cred.Presentable ∧ secretOfK p.cred.accessKey = some p.cred.secretKey ∧
      (ClientImpl.withToken (utf8 "T")).cfg.Routes call.bucket call.key
        (ClientImpl.withToken (utf8 "T")).cfg.region ∧
      p.payloadHash ≠ utf8 "UNSIGNED-PAYLOAD" ∧
      (p.call.upload [{ capacity := 8 }]).sent = [1, 2, 3] ∧
      (p.call.upload [{ capacity := 8 }]).sent.length = p.call.bodyLen := by
  obtain ⟨call, p, hcall, hstart, hcred, hsigned, ⟨hsent, hlen⟩, hbucket⟩ : ∃ call p,
      (ClientImpl.withToken (utf8 "T")).putCall (utf8 "s3://b/k") (some [1, 2, 3])
          { ifNoneMatch := true } = .ok call ∧
        startRequest signing.sha256Raw (ClientImpl.withToken (utf8 "T")).cfg
          (ClientImpl.withToken (utf8 "T")).fixedCreds {} [] true call = .ok p ∧
        p.cred = { accessKey := utf8 "K", secretKey := utf8 "S", sessionToken := utf8 "T" } ∧
        p.payloadHash ≠ utf8 "UNSIGNED-PAYLOAD" ∧
        ((p.call.upload [{ capacity := 8 }]).sent = [1, 2, 3] ∧ p.call.bodyLen = 3) ∧
        call.bucket = utf8 "b" ∧ call.key = utf8 "k" :=
    ⟨_, _, rfl, rfl, rfl, by decide +kernel, ⟨rfl, rfl⟩, rfl, rfl⟩
  refine ⟨call, p, hcall, hstart, ?_, ?_, ?_, hsigned, hsent, by rw [hsent, hlen]; rfl⟩
  · rw [hcred]
    exact ⟨forall_mem_of_all (by decide), forall_mem_of_all (by decide)⟩
  · rw [hcred]
    decide
  · rw [hbucket.1, hbucket.2]
    exact routes_usEast

theorem exists_first_window : ∃ b w cred m, S3Streambuf.justOpened signing 2 = (some b, w) ∧
    b.LoadGets signing w 0 cred 0 b m ∧ Credentials.Presentable cred ∧
    b.cfg.Routes b.bucket b.key b.region ∧ b.bucket = utf8 "b" ∧ b.key = utf8 "k" ∧
    b.readAhead = 2 := by
  obtain ⟨b, w, hopen, htry⟩ := @S3Streambuf.exists_of_justOpened signing 2
    (fun b w ↦ decide ((b.curl = true ∧ b.loadStart w 0 = 0 ∧
      (w.tryLoad signing ⟨b.uri, .ofNat 0⟩).1 = none ∧ b.readAhead = 2) ∧
      (b.bucket = utf8 "b" ∧ b.key = utf8 "k" ∧ b.cfg.pathStyle = false ∧
        b.region = utf8 "us-east-1") ∧
      let cred := ((w.tryLoad signing ⟨b.uri, .ofNat 0⟩).2.getCredentials signing).1
      cred.valid = true ∧ cred.accessKey.all isAlnum = true ∧
        cred.sessionToken.all isAlnum = true)) (by decide +kernel)
  obtain ⟨⟨hcurl, hstart, hmissed, hra⟩, ⟨hbucket, hkey, hstyle, hregion⟩, hvalid, haccess,
    htoken⟩ := of_decide_eq_true htry
  have hroutes : b.cfg.Routes b.bucket b.key b.region := by
    rw [hbucket, hkey, hregion]
    refine ⟨forall_mem_of_all (by decide), by simp [hstyle], ?_, by simp [hstyle], ?_⟩
    · rw [buildEndpoint, hstyle]
      exact plainHost_usEast
    · rw [namedPath, hstyle]
      decide +kernel
  have hword : ∀ c : UInt8, isAlnum c = true →
      (c ≠ 0 ∧ c ≠ 13 ∧ c ≠ 10 ∧ c ≠ 44 ∧ c ≠ 47) ∧ isSpace c = false := by
    intro c hc
    have hall : ∀ n < 256, isAlnum (UInt8.ofNat n) = true → (UInt8.ofNat n ≠ 0 ∧
        UInt8.ofNat n ≠ 13 ∧ UInt8.ofNat n ≠ 10 ∧ UInt8.ofNat n ≠ 44 ∧ UInt8.ofNat n ≠ 47) ∧
        isSpace (UInt8.ofNat n) = false := by decide +kernel
    have hc' := hall c.toNat c.toNat_lt
    rw [UInt8.ofNat_toNat] at hc'
    exact hc' hc
  have hpresentable : Credentials.Presentable
      ((w.tryLoad signing ⟨b.uri, .ofNat 0⟩).2.getCredentials signing).1 :=
    ⟨fun c hc ↦ (hword c (List.all_eq_true.mp haccess c hc)).1, fun c hc ↦
      ⟨(hword c (List.all_eq_true.mp htoken c hc)).1.1,
        (hword c (List.all_eq_true.mp htoken c hc)).2⟩⟩
  have hfits : b.readAhead ≤ maxSize := by
    rw [hra]
    decide
  exact ⟨b, w, _, _, hopen, ⟨hcurl, hstart.symm, hmissed, rfl, hvalid, hfits, .first _ _ _ _⟩,
    hpresentable, hroutes, hbucket, hkey, hra⟩

/-- A put of three bytes, and the first window of a stream. -/
theorem requests_accepted_put_and_window :
    (∃ call p reads, (ClientImpl.withToken (utf8 "T")).putCall (utf8 "s3://b/k") (some [1, 2, 3])
        { ifNoneMatch := true } = .ok call ∧
      startRequest signing.sha256Raw (ClientImpl.withToken (utf8 "T")).cfg
        (ClientImpl.withToken (utf8 "T")).fixedCreds {} [] true call = .ok p ∧
      (p.call.upload reads).sent = [1, 2, 3] ∧
      SignatureV4.Accepts signing.sha256Raw secretOfK (utf8 "s3") (utf8 "us-east-1")
        ((p.httpRequest signing.sha256Raw (signing.amzNow 0)).arrived (p.call.upload reads).sent)) ∧
    ∃ b w cred m, S3Streambuf.justOpened signing 2 = (some b, w) ∧
      SignatureV4.Accepts signing.sha256Raw (fun _ ↦ some cred.secretKey) (utf8 "s3") b.region
        ((b.rangeRequest signing cred 0 (signing.amzNow m)).arrived []) := by
  constructor
  · obtain ⟨call, p, hcall, hstart, hcred, hsecret, hroutes, -, hsent, hwhole⟩ :=
      exists_conditional_put
    exact ⟨call, p, _, hcall, hstart, hsent,
      (@requests_accepted signing signingTools_signing secretOfK).1 (.put hcall) hstart hcred
        hroutes hsecret 0 [{ capacity := 8 }] hwhole⟩
  · obtain ⟨b, w, cred, m, hopen, hgets, hcred, hroutes, -⟩ := exists_first_window
    exact ⟨b, w, cred, m, hopen, (requests_accepted signingTools_signing).2 (.opened hopen) hgets
      hcred hroutes rfl⟩

end Nanos3Reader
