import Nanos3Reader.AcceptedRequests

/-!
# What a signature is good for

Whoever sees a request of the reader on its way can send another with its `Authorization` header. A
receiver accepts that one only if it names the same object, asks for the same bytes of it and brings
the same body where the body is signed. What this takes of the hash is that it tells apart the texts
that are hashed to check the two: their canonical requests, what is hashed to sign these, and the
bodies. Header lines that are not signed, the conditions of a put among them, make no difference.
-/

open ByteText

namespace Nanos3Reader

/-- `r` says what was signed, of the object with the path `named`, and brings `body` where the body
is signed. It may have other header lines too, as long as they must not be signed. -/
structure S3v4.CanonicalRequest.SaidBy (signed : S3v4.CanonicalRequest)
    (named amzDate body : Bytes) (r : SignatureV4.Arrived) : Prop where
  method : r.method = signed.method
  path : Uri.percentDecode r.path = some named
  query : SignatureV4.canonicalQuery r.query = some signed.query
  value : ∀ h ∈ signed.headers, (r.value h.name).map SignatureV4.canonicalValue = some h.value
  date : r.value (utf8 "x-amz-date") = some amzDate
  amz : ∀ f ∈ r.headers, (utf8 "x-amz-").isPrefixOf f.1 = true →
    f.1 ∈ signed.headers.map S3v4.Header.name
  payload : r.value (utf8 "x-amz-content-sha256") = some signed.payloadHash
  body : signed.payloadHash = utf8 "UNSIGNED-PAYLOAD" ∨ r.body = body

/-- The hash tells what is hashed to check `r'`, with the authorization that `r` came with, from
what is hashed to check `r`. -/
def S3v4.CanonicalRequest.TellsApart (signed : S3v4.CanonicalRequest) (sha256Raw : Bytes → Bytes)
    (cred : Credentials) (region amzDate : Bytes) (r r' : SignatureV4.Arrived) : Prop :=
  SignatureV4.ToldApart sha256Raw
    (r.hashedTexts sha256Raw cred.secretKey (claimOf sha256Raw signed cred region amzDate))
    (r'.hashedTexts sha256Raw cred.secretKey (claimOf sha256Raw signed cred region amzDate))

section

variable {signed : S3v4.CanonicalRequest} {r r' : SignatureV4.Arrived}
  {sha256Raw : Bytes → Bytes} {cred : Credentials} {region amzDate named : Bytes}

/-- A path says the same as that of `named` just when it decodes to `named`. -/
theorem canonicalPath_eq_iff {path : Bytes} :
    SignatureV4.canonicalPath path = some (uriEncodePath named) ↔
      Uri.percentDecode path = some named := by
  rw [SignatureV4.canonicalPath, Option.map_eq_some_iff]
  constructor
  · rintro ⟨s, hs, hspelled⟩
    rw [← uriEncodePath_eq] at hspelled
    rw [hs, uriEncodePath_injective hspelled]
  · intro hnamed
    exact ⟨named, hnamed, (uriEncodePath_eq named).symm⟩

/-- A header that was signed says the same just when its canonical value is the one signed. -/
theorem Presents.headers_iff (h : Presents sha256Raw signed cred region amzDate r) :
    (∀ name ∈ signed.names, (r'.value name).map SignatureV4.canonicalValue
        = (r.value name).map SignatureV4.canonicalValue) ↔
      ∀ x ∈ signed.headers, (r'.value x.name).map SignatureV4.canonicalValue = some x.value := by
  have hvalue : ∀ x ∈ signed.headers,
      (r.value x.name).map SignatureV4.canonicalValue = some x.value := by
    intro x hx
    rw [h.arrives.value x hx, Option.map_some,
      SignatureV4.canonicalValue_of_forall (h.spelled.value x hx)]
  constructor
  · intro hsame x hx
    rw [hsame x.name (mem_names.mpr (List.mem_map_of_mem hx)), hvalue x hx]
  · intro hsame name hname
    obtain ⟨x, hx, rfl⟩ := List.mem_map.mp (mem_names.mp hname)
    rw [hsame x hx, hvalue x hx]

/-- What a signature of the reader is good for, in the receiver's terms and in the reader's. -/
theorem Presents.saysAs_of_saidBy (h : Presents sha256Raw signed cred region amzDate r)
    (hnamed : signed.uri = uriEncodePath named) (hsaid : signed.SaidBy named amzDate r.body r') :
    SignatureV4.Arrived.SaysAs sha256Raw (claimOf sha256Raw signed cred region amzDate) r r' := by
  have hquery : SignatureV4.canonicalQuery r.query = some signed.query := by
    rw [h.arrives.query, h.spelled.query.eq]
  refine ⟨⟨hsaid.method.trans h.arrives.method.symm, ?_, hsaid.query.trans hquery.symm,
    h.headers_iff.mpr hsaid.value, hsaid.payload.trans h.value_payload.symm⟩,
    hsaid.date.trans (h.arrives.value _ h.date).symm,
    fun f hf hamz ↦ mem_names.mpr (hsaid.amz f hf hamz), signed.payloadHash, h.value_payload, ?_⟩
  · rw [h.arrives.path, h.spelled.path, hnamed]
    exact canonicalPath_eq_iff.mpr hsaid.path
  · rcases hsaid.body with hunsigned | hbody
    · exact .inl hunsigned
    · rcases h.payload with hunsigned | hhash
      · exact .inl hunsigned
      · exact .inr (by rw [hhash, hbody, S3v4.sha256Hex, hexEncode_eq])

theorem Presents.saidBy_of_saysAs (h : Presents sha256Raw signed cred region amzDate r)
    (hnamed : signed.uri = uriEncodePath named)
    (hsame : SignatureV4.Arrived.SaysAs sha256Raw (claimOf sha256Raw signed cred region amzDate)
      r r')
    (hbody : signed.payloadHash ≠ utf8 "UNSIGNED-PAYLOAD" →
      sha256Raw r.body = sha256Raw r'.body → r.body = r'.body) :
    signed.SaidBy named amzDate r.body r' := by
  have hpath : SignatureV4.canonicalPath r.path = some (uriEncodePath named) := by
    rw [h.arrives.path, h.spelled.path, hnamed]
  have hquery : SignatureV4.canonicalQuery r.query = some signed.query := by
    rw [h.arrives.query, h.spelled.query.eq]
  have hagree := hsame.agree
  refine ⟨hagree.method.trans h.arrives.method,
    canonicalPath_eq_iff.mp (hagree.path.trans hpath), hagree.query.trans hquery,
    h.headers_iff.mp hagree.headers, hsame.date.trans (h.arrives.value _ h.date),
    fun f hf hamz ↦ mem_names.mp (hsame.amz f hf hamz), hagree.payload.trans h.value_payload, ?_⟩
  by_cases hunsigned : signed.payloadHash = utf8 "UNSIGNED-PAYLOAD"
  · exact .inl hunsigned
  · -- both bodies have the hash that was signed
    obtain ⟨payload, hpayload, hhash⟩ := hsame.payload
    obtain rfl : payload = signed.payloadHash :=
      Option.some.inj (hpayload.symm.trans h.value_payload)
    have hhash := hhash.resolve_left hunsigned
    rw [h.payload.resolve_left hunsigned, S3v4.sha256Hex, hexEncode_eq] at hhash
    exact .inr (hbody hunsigned (SignatureV4.hexText_injective hhash)).symm

/-- What is hashed for requests that agree is told apart if their bodies are, where these count. -/
theorem Presents.tellsApart_iff (h : Presents sha256Raw signed cred region amzDate r)
    (hdigest : ∀ x, (sha256Raw x).length = 32)
    (hagree : SignatureV4.Arrived.Agree r r' signed.names)
    (hdate : r'.value (utf8 "x-amz-date") = r.value (utf8 "x-amz-date")) :
    signed.TellsApart sha256Raw cred region amzDate r r' ↔
      (signed.payloadHash ≠ utf8 "UNSIGNED-PAYLOAD" →
        sha256Raw r.body = sha256Raw r'.body → r.body = r'.body) := by
  have hsignature := signature_claimOf hdigest h.arrives h.spelled (h.arrives.value _ h.date) cred
    region
  have hiff := @SignatureV4.Arrived.Agree.toldApart_iff r r' sha256Raw
    (claimOf sha256Raw signed cred region amzDate) hagree hdate _ _ hsignature
  rw [S3v4.CanonicalRequest.TellsApart, hiff, h.value_payload, Ne, Option.some_inj, ← Ne]

theorem value_filter {keep : Bytes → Bool} {name : Bytes} (hkeep : keep name = true) :
    SignatureV4.Arrived.value { r with headers := r.headers.filter fun f ↦ keep f.1 } name
      = r.value name := by
  have hfields : ((r.headers.filter fun f ↦ keep f.1).filter fun f ↦ f.1 = name)
      = r.headers.filter fun f ↦ f.1 = name := by
    rw [List.filter_filter]
    refine List.filter_congr fun f _ ↦ ?_
    by_cases hf : f.1 = name
    · rw [hf, hkeep, Bool.and_true]
    · simp [hf]
  rw [SignatureV4.Arrived.value, SignatureV4.Arrived.value, hfields]

/-- Without header lines that were not signed, a request still says what was signed. -/
theorem Presents.saidBy_filter (h : Presents sha256Raw signed cred region amzDate r)
    (hnamed : signed.uri = uriEncodePath named) {keep : Bytes → Bool}
    (hkeep : ∀ name ∈ signedNames, keep name = true) :
    signed.SaidBy named amzDate r.body
      { r with headers := r.headers.filter fun f ↦ keep f.1 } := by
  have hsigned {x : S3v4.Header} (hx : x ∈ signed.headers) :
      SignatureV4.Arrived.value { r with headers := r.headers.filter fun f ↦ keep f.1 } x.name
        = some x.value := by
    rw [value_filter (hkeep _ (h.spelled.names (List.mem_map_of_mem hx)))]
    exact h.arrives.value x hx
  refine ⟨h.arrives.method, ?_, ?_, fun x hx ↦ ?_, hsigned h.date,
    fun f hf hamz ↦ h.arrives.amz f (List.mem_filter.mp hf).1 hamz, ?_, .inr rfl⟩
  · refine canonicalPath_eq_iff.mp ?_
    dsimp only
    rw [h.arrives.path, h.spelled.path, hnamed]
  · dsimp only
    rw [h.arrives.query, h.spelled.query.eq]
  · rw [hsigned hx, Option.map_some, SignatureV4.canonicalValue_of_forall (h.spelled.value x hx)]
  · obtain ⟨x, hx, heq⟩ := List.mem_map.mp h.spelled.payloadHash
    obtain ⟨hname, hvalue⟩ := Prod.mk.inj heq
    rw [← hname, ← hvalue]
    exact hsigned hx

/-- **With the authorization of a request of the reader, a receiver accepts what says the same.** -/
theorem Presents.accepts_iff (h : Presents sha256Raw signed cred region amzDate r)
    (hdigest : ∀ x, (sha256Raw x).length = 32) (hcred : cred.Presentable)
    (hregion : ∀ c ∈ region, isAlnum c = true ∨ c = 45) (hdate : ∀ c ∈ amzDate, isAlnum c = true)
    {secretOf : Bytes → Option Bytes} (hsecret : secretOf cred.accessKey = some cred.secretKey)
    (hnamed : signed.uri = uriEncodePath named) (hr' : r'.OneLine)
    (hauth : r'.value (utf8 "authorization") = r.value (utf8 "authorization"))
    (hapart : signed.TellsApart sha256Raw cred region amzDate r r') :
    SignatureV4.Accepts sha256Raw secretOf (utf8 "s3") region r' ↔
      signed.SaidBy named amzDate r.body r' := by
  have haccepted := h.accepts hdigest hcred hregion hdate hsecret
  have hsays := haccepted.iff_saysAs h.oneLine hr' h.authorization (hauth.trans h.authorization)
    (h.readClaim hcred hregion hdate) hsecret hapart
  constructor
  · intro haccepts
    have hsame := hsays.mp haccepts
    exact h.saidBy_of_saysAs hnamed hsame
      ((h.tellsApart_iff hdigest hsame.agree hsame.date).mp hapart)
  · intro hsaid
    exact hsays.mpr (h.saysAs_of_saidBy hnamed hsaid)

end

/-- **A signature is good for one request**: with the authorization of an attempt of a client, or of
a GET of a stream, a receiver accepts just the requests that say the same, of the same object and
with the same body where it is signed, as long as SHA-256 tells apart what is hashed for the two. -/
theorem accepted_iff_saidBy {env : Outside} (htools : SigningTools env.sha256Raw env.amzNow)
    {secretOf : Bytes → Option Bytes} {r' : SignatureV4.Arrived} (hr' : r'.OneLine) :
    (∀ {im : ClientImpl} {call : Call} {got : Credentials} {diagnostic : Bytes} {curl : Bool}
      {p : Prepared}, im.Makes env call →
      startRequest env.sha256Raw im.cfg im.fixedCreds got diagnostic curl call = .ok p →
      p.cred.Presentable → im.cfg.Routes call.bucket call.key im.cfg.region →
      secretOf p.cred.accessKey = some p.cred.secretKey → ∀ (m : ℕ) (reads : List ReadCall),
        let r := (p.httpRequest env.sha256Raw (env.amzNow m)).arrived (p.call.upload reads).sent
        (p.call.upload reads).sent.length = p.call.bodyLen →
        r'.value (utf8 "authorization") = r.value (utf8 "authorization") →
        (p.canonical (env.amzNow m)).TellsApart env.sha256Raw p.cred im.cfg.region (env.amzNow m)
          r r' →
        (SignatureV4.Accepts env.sha256Raw secretOf (utf8 "s3") im.cfg.region r' ↔
          (p.canonical (env.amzNow m)).SaidBy (namedPath im.cfg call.bucket call.key)
            (env.amzNow m) call.payload r')) ∧
    ∀ {w : World} {b b' : S3Streambuf} {target start m : ℕ} {cred : Credentials},
      S3Streambuf.Reachable env b → b.LoadGets env w target cred start b' m → cred.Presentable →
      b.cfg.Routes b.bucket b.key b'.region → secretOf cred.accessKey = some cred.secretKey →
        let r := (b'.rangeRequest env cred start (env.amzNow m)).arrived []
        r'.value (utf8 "authorization") = r.value (utf8 "authorization") →
        (b'.canonical cred start (env.amzNow m)).TellsApart env.sha256Raw cred b'.region
          (env.amzNow m) r r' →
        (SignatureV4.Accepts env.sha256Raw secretOf (utf8 "s3") b'.region r' ↔
          (b'.canonical cred start (env.amzNow m)).SaidBy (namedPath b.cfg b.bucket b.key)
            (env.amzNow m) [] r') := by
  constructor
  · intro im call got diagnostic curl p hcall hstart hcred hroutes hsecret m reads r hwhole hauth
      hapart
    have hcarries := carries_of_startRequest hstart
    have hpresents := hcarries.presents htools hcall.plain hcall.shaped hcred hroutes m hwhole
    have hnamed : (p.canonical (env.amzNow m)).uri
        = uriEncodePath (namedPath im.cfg call.bucket call.key) := by
      rw [Prepared.canonical, hcarries.path, path_buildEndpoint]
    have hsent : (p.call.upload reads).sent = call.payload := by
      rw [Call.sent_eq_payload hwhole, hcarries.call_eq]
    rw [← hsent]
    exact hpresents.accepts_iff htools.digest hcred hroutes.plainRegion (htools.date m).2 hsecret
      hnamed hr' hauth hapart
  · intro w b b' target start m cred hb hgets hcred hroutes hsecret r hauth hapart
    have hkept := hgets.gets.kept
    have htargeted := hkept.targeted (.of_reachable hb)
    rw [← hkept.cfg, ← hkept.bucket, ← hkept.key] at hroutes ⊢
    have hpresents :=
      @S3Streambuf.Targeted.presents env b' cred start htargeted htools hcred hroutes m
    have hnamed : (b'.canonical cred start (env.amzNow m)).uri
        = uriEncodePath (namedPath b'.cfg b'.bucket b'.key) := by
      rw [S3Streambuf.canonical, htargeted.path, path_buildEndpoint]
    exact hpresents.accepts_iff htools.digest hcred hroutes.plainRegion (htools.date m).2 hsecret
      hnamed hr' hauth hapart

/-- The request without its `If-None-Match`. -/
def unconditional (r : SignatureV4.Arrived) : SignatureV4.Arrived :=
  { r with headers := r.headers.filter fun f ↦ decide (f.1 ≠ utf8 "if-none-match") }

theorem Presents.saidBy_unconditional {signed : S3v4.CanonicalRequest} {r : SignatureV4.Arrived}
    {sha256Raw : Bytes → Bytes} {cred : Credentials} {region amzDate named : Bytes}
    (h : Presents sha256Raw signed cred region amzDate r)
    (hnamed : signed.uri = uriEncodePath named) :
    (unconditional r).OneLine ∧
      (unconditional r).value (utf8 "authorization") = r.value (utf8 "authorization") ∧
      signed.SaidBy named amzDate r.body (unconditional r) :=
  ⟨⟨h.oneLine.method, h.oneLine.host, fun f hf ↦ h.oneLine.headers f (List.mem_filter.mp hf).1⟩,
    @value_filter r (fun name ↦ decide (name ≠ utf8 "if-none-match")) (utf8 "authorization")
      (by decide),
    @Presents.saidBy_filter _ _ _ _ _ _ _ h hnamed
      (fun name ↦ decide (name ≠ utf8 "if-none-match")) (by decide)⟩

/-- The same request with another body. -/
def withBody (r : SignatureV4.Arrived) (body : Bytes) : SignatureV4.Arrived :=
  { r with body := body }

theorem sha256_lastByte : signing.sha256Raw [1, 2, 3] ≠ signing.sha256Raw [1, 2, 4] := by
  decide +kernel

/-- The condition of a put is not signed: without its line, a receiver accepts the request too. Its
body is, and another one is refused. -/
theorem accepted_iff_saidBy_put : ∃ call p reads,
    (ClientImpl.withToken (utf8 "T")).putCall (utf8 "s3://b/k") (some [1, 2, 3])
        { ifNoneMatch := true } = .ok call ∧
      startRequest signing.sha256Raw (ClientImpl.withToken (utf8 "T")).cfg
        (ClientImpl.withToken (utf8 "T")).fixedCreds {} [] true call = .ok p ∧
      (p.call.upload reads).sent = [1, 2, 3] ∧
      let r := (p.httpRequest signing.sha256Raw (signing.amzNow 0)).arrived
        (p.call.upload reads).sent
      SignatureV4.Accepts signing.sha256Raw secretOfK (utf8 "s3") (utf8 "us-east-1")
          (unconditional r) ∧
        ¬SignatureV4.Accepts signing.sha256Raw secretOfK (utf8 "s3") (utf8 "us-east-1")
          (withBody r [1, 2, 4]) := by
  obtain ⟨call, p, hcall, hstart, hcred, hsecret, hroutes, hsigned, hsent, hwhole⟩ :=
    exists_conditional_put
  have hmakes : (ClientImpl.withToken (utf8 "T")).Makes signing call := .put hcall
  have hcarries := carries_of_startRequest hstart
  have hnamed : (p.canonical (signing.amzNow 0)).uri = uriEncodePath
      (namedPath (ClientImpl.withToken (utf8 "T")).cfg call.bucket call.key) := by
    rw [Prepared.canonical, hcarries.path, path_buildEndpoint]
  have hpresents := hcarries.presents signingTools_signing hmakes.plain hmakes.shaped hcred hroutes
    0 hwhole
  have hbody : (p.call.upload [{ capacity := 8 }]).sent = call.payload := by
    rw [Call.sent_eq_payload hwhole, hcarries.call_eq]
  refine ⟨call, p, [{ capacity := 8 }], hcall, hstart, hsent, ?_, ?_⟩
  · obtain ⟨hone, hauth, hsaid⟩ := hpresents.saidBy_unconditional hnamed
    have hsame := hpresents.saysAs_of_saidBy hnamed hsaid
    have hapart := (hpresents.tellsApart_iff signingTools_signing.digest hsame.agree hsame.date).mpr
      fun _ _ ↦ rfl
    refine ((@accepted_iff_saidBy signing signingTools_signing secretOfK _ hone).1 hmakes hstart
      hcred hroutes hsecret 0 [{ capacity := 8 }] hwhole hauth hapart).mpr ?_
    rw [← hbody]
    exact hsaid
  · intro haccepts
    let r := (p.httpRequest signing.sha256Raw (signing.amzNow 0)).arrived
      (p.call.upload [{ capacity := 8 }]).sent
    have hone : (withBody r [1, 2, 4]).OneLine :=
      ⟨hpresents.oneLine.method, hpresents.oneLine.host, hpresents.oneLine.headers⟩
    have hagree : SignatureV4.Arrived.Agree r (withBody r [1, 2, 4])
        (p.canonical (signing.amzNow 0)).names := ⟨rfl, rfl, rfl, fun _ _ ↦ rfl, rfl⟩
    have hapart := (hpresents.tellsApart_iff signingTools_signing.digest hagree rfl).mpr
      fun _ hhash ↦ absurd (hsent ▸ hhash) sha256_lastByte
    have hsaid := ((@accepted_iff_saidBy signing signingTools_signing secretOfK _ hone).1 hmakes
      hstart hcred hroutes hsecret 0 [{ capacity := 8 }] hwhole rfl hapart).mp haccepts
    rcases hsaid.body with hunsigned | hother
    · exact hsigned hunsigned
    · have hsame : ([1, 2, 4] : Bytes) = [1, 2, 3] := hother.trans (hbody.symm.trans hsent)
      exact absurd hsame (by decide)

end Nanos3Reader
