import Nanos3Reader.Client.Query
import Nanos3Reader.Lib.SignatureV4
import Nanos3Reader.Signing

/-!
# What the receiver makes of a request

A receiver that checks signatures has only what has arrived: the host and the path as libcurl sends
them, the query, the header fields and the body. It spells all of it anew before it computes the
signature, so a request is accepted only if the reader's spelling of paths and queries is the
receiver's, and so are its digits, its keys and its canonical request.
-/

open ByteText

namespace Nanos3Reader

/-! ## What arrives -/

/-- Four numbers below 256, as an address is written in full. -/
def IsQuad (host : Bytes) : Prop :=
  (host.splitOn 46).length = 4 ∧ ∀ part ∈ host.splitOn 46, ∃ n < 256, part = decimal n

instance : DecidablePred IsQuad := fun _ ↦ inferInstanceAs (Decidable (_ ∧ _))

/-- A host that libcurl leaves as it is. There is nothing in it to decode or to encode, and it is
not a number that libcurl would write out as an address, since a part of it begins with no digit or
it is such an address already. -/
structure IsPlainHost (host : Bytes) : Prop where
  parts : ∀ part ∈ host.splitOn 46, part ≠ [] ∧
    ∀ c ∈ part, isAlnum c = true ∨ c = 45 ∨ c = 95
  address : (∃ part ∈ host.splitOn 46, ∀ c ∈ part.head?, ¬(48 ≤ c ∧ c ≤ 57)) ∨ IsQuad host

/-- An authority that libcurl leaves as it is: such a host, and behind it a port without leading
zeros, if any. -/
def IsPlainAuthority (authority : Bytes) : Prop :=
  ∃ host, IsPlainHost host ∧
    (authority = host ∨ ∃ port < 65536, 0 < port ∧ authority = host ++ 58 :: decimal port)

/-- The port that goes without saying for the scheme of a URL. -/
def defaultPort (url : Bytes) : Bytes :=
  if (utf8 "http://").isPrefixOf url then utf8 ":80" else utf8 ":443"

/-- The `Host` header that libcurl makes of a plain authority. Others it rewrites, and nothing is
said of them. -/
def hostHeader (url authority : Bytes) : Bytes :=
  let port := defaultPort url
  if port.isSuffixOf authority then authority.take (authority.length - port.length) else authority

theorem IsPlainAuthority.mem {authority : Bytes} (h : IsPlainAuthority authority) {c : UInt8}
    (hc : c ∈ authority) : isAlnum c = true ∨ c = 45 ∨ c = 95 ∨ c = 46 ∨ c = 58 := by
  obtain ⟨host, hhost, hauthority⟩ := h
  have hmem : c ∈ host → isAlnum c = true ∨ c = 45 ∨ c = 95 ∨ c = 46 ∨ c = 58 := by
    intro hc
    by_contra hno
    simp only [not_or] at hno
    have hother : c ∉ [46].intercalate (host.splitOn 46) := by
      refine @notMem_intercalate 46 c _ (fun part hpart hmem ↦ ?_) hno.2.2.2.1
      rcases (hhost.parts part hpart).2 c hmem with hword | hdash | hline
      · exact hno.1 hword
      · exact hno.2.1 hdash
      · exact hno.2.2.1 hline
    rw [List.intercalate_splitOn] at hother
    exact hother hc
  rcases hauthority with rfl | ⟨port, -, -, rfl⟩
  · exact hmem hc
  · rcases List.mem_append.mp hc with hc | hc
    · exact hmem hc
    · rcases List.mem_cons.mp hc with rfl | hc
      · simp
      · have hdigit := mem_decimal hc
        simp [isAlnum, hdigit.1, hdigit.2]

theorem IsPlainAuthority.clean {authority : Bytes} (h : IsPlainAuthority authority) :
    IsHostPort authority ∧ ∀ c ∈ authority, isSpace c = false := by
  have hall : ∀ n < 256, (isAlnum (.ofNat n) = true ∨ UInt8.ofNat n = 45 ∨ UInt8.ofNat n = 95 ∨
      UInt8.ofNat n = 46 ∨ UInt8.ofNat n = 58) → (UInt8.ofNat n ≠ 0 ∧ UInt8.ofNat n ≠ 47 ∧
        UInt8.ofNat n ≠ 63 ∧ UInt8.ofNat n ≠ 35 ∧ UInt8.ofNat n ≠ 64) ∧
          isSpace (.ofNat n) = false := by decide +kernel
  have hplain (c : UInt8) (hc : c ∈ authority) :
      (c ≠ 0 ∧ c ≠ 47 ∧ c ≠ 63 ∧ c ≠ 35 ∧ c ≠ 64) ∧ isSpace c = false := by
    have hbyte := hall c.toNat c.toNat_lt
    rw [UInt8.ofNat_toNat] at hbyte
    exact hbyte (h.mem hc)
  exact ⟨fun c hc ↦ (hplain c hc).1, fun c hc ↦ (hplain c hc).2⟩

example : IsPlainAuthority (utf8 "127.0.0.1:9000") :=
  ⟨utf8 "127.0.0.1", ⟨by decide +kernel, .inr (by decide +kernel)⟩,
    .inr ⟨9000, by decide, by decide, by decide⟩⟩

/-- The request as it arrives with `body`. libcurl resolves the dot segments of the path. -/
def HttpRequest.arrived (req : HttpRequest) (body : Bytes) : SignatureV4.Arrived where
  method := req.method
  host := hostHeader req.url ((Uri.parse req.url).authority.getD [])
  path := Uri.removeDotSegments (Uri.parse req.url).path
  query := (Uri.parse req.url).query.getD []
  headers := req.fields
  body := body

/-- A target whose host and path arrive as they are written. -/
structure Endpoint.Arrives (e : Endpoint) : Prop where
  host : IsPlainAuthority e.host
  addresses : Uri.Addresses e.url e.host e.path
  nul : 0 ∉ e.url
  scheme : utf8 "http://" <+: e.url ∨ utf8 "https://" <+: e.url
  port : ¬defaultPort e.url <:+ e.host
  path : Uri.removeDotSegments e.path = e.path

theorem Endpoint.Arrives.target {e : Endpoint} (h : e.Arrives) {query : Bytes} (h0 : 0 ∉ query)
    (hfragment : 35 ∉ query) {req : HttpRequest}
    (hurl : req.url = cStr (if query = [] then e.url else e.url ++ utf8 "?" ++ query))
    (body : Bytes) : (req.arrived body).host = e.host ∧ (req.arrived body).path = e.path ∧
      (req.arrived body).query = query := by
  have hhost (rest : Bytes) : hostHeader (e.url ++ rest) e.host = e.host := by
    have hport : defaultPort (e.url ++ rest) = defaultPort e.url := by
      rw [defaultPort, defaultPort]
      rcases h.scheme with ⟨t, ht⟩ | ⟨t, ht⟩
      · rw [← ht]
        simp
      · rw [← ht]
        simp [show ∀ s, (utf8 "http://").isPrefixOf (utf8 "https://" ++ s) = false from fun _ ↦ rfl]
    rw [hostHeader, hport, if_neg (by simpa using h.port)]
  by_cases hquery : query = []
  · rw [if_pos hquery, cStr_eq_self h.nul] at hurl
    have hempty := hhost []
    rw [List.append_nil] at hempty
    refine ⟨?_, ?_, ?_⟩
    · rw [HttpRequest.arrived, hurl, h.addresses.authority]
      exact hempty
    · rw [HttpRequest.arrived, hurl, h.addresses.path]
      exact h.path
    · rw [HttpRequest.arrived, hurl, h.addresses.query, hquery]
      rfl
  · have hmark : e.url ++ utf8 "?" ++ query = e.url ++ 63 :: query := by
      rw [List.append_assoc]
      rfl
    have hnul : 0 ∉ e.url ++ 63 :: query := by
      rw [List.mem_append, List.mem_cons, not_or, not_or]
      exact ⟨h.nul, by decide, h0⟩
    obtain ⟨hauthority, hpath, hq⟩ := h.addresses.parse_query hfragment
    rw [if_neg hquery, hmark, cStr_eq_self hnul] at hurl
    refine ⟨?_, ?_, ?_⟩
    · rw [HttpRequest.arrived, hurl, hauthority]
      exact hhost _
    · rw [HttpRequest.arrived, hurl, hpath]
      exact h.path
    · rw [HttpRequest.arrived, hurl, hq]
      rfl

/-! ## Spelling -/

theorem hexDigit_eq {d : UInt8} (hd : d < 16) : S3v4.hexDigit d = SignatureV4.hexDigit d := by
  have hall : ∀ n < 16, S3v4.hexDigit (.ofNat n) = SignatureV4.hexDigit (.ofNat n) := by decide
  simpa using hall d.toNat (UInt8.lt_iff_toNat_lt.mp hd)

theorem upperHexDigit_eq {d : UInt8} (hd : d < 16) :
    upperHexDigit d = SignatureV4.upperHexDigit d := by
  have hall : ∀ n < 16, upperHexDigit (.ofNat n) = SignatureV4.upperHexDigit (.ofNat n) := by decide
  simpa using hall d.toNat (UInt8.lt_iff_toNat_lt.mp hd)

theorem nibbles_eq (c : UInt8) : c >>> (4 : UInt8) = c / 16 ∧ c &&& 0x0F = c % 16 := by
  have hall : ∀ n < 256, UInt8.ofNat n >>> (4 : UInt8) = UInt8.ofNat n / 16 ∧
      UInt8.ofNat n &&& 0x0F = UInt8.ofNat n % 16 := by decide +kernel
  simpa using hall c.toNat c.toNat_lt

theorem hexEncode_eq (data : Bytes) : S3v4.hexEncode data = SignatureV4.hexText data := by
  refine List.flatMap_congr fun b _ ↦ ?_
  obtain ⟨hhi, hlo⟩ := nibbles_lt b
  obtain ⟨hdiv, hmod⟩ := nibbles_eq b
  rw [hexDigit_eq hhi, show (b &&& (15 : UInt8)) = b &&& 0x0F from rfl, hexDigit_eq hlo, hdiv, hmod]

theorem percentEncode_eq {keep : UInt8 → Bool} {slash : Bool}
    (hkeep : ∀ c, keep c = true ↔ Uri.Unreserved c ∨ c = 47 ∧ slash = false) (s : Bytes) :
    percentEncode keep s = SignatureV4.uriEncode slash s := by
  refine List.flatMap_congr fun c _ ↦ ?_
  obtain ⟨hhi, hlo⟩ := nibbles_lt c
  obtain ⟨hdiv, hmod⟩ := nibbles_eq c
  rw [upperHexDigit_eq hhi, upperHexDigit_eq hlo, hdiv, hmod]
  simp only [hkeep]

theorem uriEncodePath_eq (s : Bytes) : uriEncodePath s = SignatureV4.uriEncode false s :=
  percentEncode_eq (fun c ↦ by simp [unreserved_iff]) s

theorem uriEncodeComponent_eq (s : Bytes) : uriEncodeComponent s = SignatureV4.uriEncode true s :=
  percentEncode_eq (fun c ↦ by simp [unreserved_iff]) s

theorem canonicalPath_uriEncodePath (s : Bytes) :
    SignatureV4.canonicalPath (uriEncodePath s) = some (uriEncodePath s) := by
  rw [SignatureV4.canonicalPath, percentDecode_uriEncodePath, Option.map_some, uriEncodePath_eq]

/-- A query of encoded parameters in the order of their names. -/
def CanonicalQuery (query : Bytes) : Prop :=
  ∃ ps : List (Bytes × Bytes), query = Uri.renderParameters (ps.map encodeParameter) ∧
    ((ps.map encodeParameter).map Prod.fst).Pairwise (· < ·)

theorem CanonicalQuery.eq {query : Bytes} (h : CanonicalQuery query) :
    SignatureV4.canonicalQuery query = some query := by
  obtain ⟨ps, rfl, hsorted⟩ := h
  refine SignatureV4.canonicalQuery_render ?_ ?_ hsorted
  · intro p hp
    obtain ⟨q, -, rfl⟩ := List.mem_map.mp hp
    exact ⟨encoded_uriEncodeComponent q.1, encoded_uriEncodeComponent q.2⟩
  · intro p hp
    obtain ⟨q, -, rfl⟩ := List.mem_map.mp hp
    rw [SignatureV4.canonicalParameter, encodeParameter, percentDecode_uriEncodeComponent,
      percentDecode_uriEncodeComponent]
    dsimp only
    rw [uriEncodeComponent_eq, uriEncodeComponent_eq]

/-- A reserved byte other than those between the parameters does not occur in such a query. -/
theorem CanonicalQuery.notMem {query : Bytes} (h : CanonicalQuery query) {c : UInt8}
    (hc : ¬Uri.Unreserved c) (hne : c ≠ 37 ∧ c ≠ 38 ∧ c ≠ 61) : c ∉ query := by
  obtain ⟨ps, rfl, -⟩ := h
  refine @notMem_intercalate 38 c _ ?_ hne.2.1
  intro l hl
  obtain ⟨p, hp, rfl⟩ := List.mem_map.mp hl
  obtain ⟨q, -, rfl⟩ := List.mem_map.mp hp
  rw [List.mem_append, List.mem_cons, not_or, not_or]
  exact ⟨(encoded_uriEncodeComponent q.1).notMem hc hne.1, hne.2.2,
    (encoded_uriEncodeComponent q.2).notMem hc hne.1⟩

/-! ## Keys -/

section Keys

variable {sha256Raw : Bytes → Bytes} (hdigest : ∀ x, (sha256Raw x).length = 32)

include hdigest

theorem hmacSha256_eq (key msg : Bytes) :
    S3v4.hmacSha256 sha256Raw key msg = SignatureV4.hmac sha256Raw 64 key msg := by
  have hshort : (if 64 < key.length then sha256Raw key else key).length ≤ 64 := by
    split
    · rw [hdigest]
      decide
    · omega
  rw [S3v4.hmacSha256, SignatureV4.hmac, List.take_append, List.take_of_length_le hshort,
    List.take_replicate, min_eq_left (Nat.sub_le _ _)]

theorem deriveSigningKey_eq (secret date region service : Bytes) :
    S3v4.deriveSigningKey sha256Raw secret date region service
      = SignatureV4.signingKey sha256Raw secret date region service := by
  simp only [S3v4.deriveSigningKey, hmacSha256_eq hdigest]
  rfl

end Keys

/-! ## The signature -/

/-- What was signed arrives: each header with its value, and the target. -/
structure ArrivesAsSigned (signed : S3v4.CanonicalRequest) (r : SignatureV4.Arrived) : Prop where
  method : r.method = signed.method
  path : r.path = signed.uri
  query : r.query = signed.query
  value : ∀ h ∈ signed.headers, r.value h.name = some h.value
  amz : ∀ f ∈ r.headers, (utf8 "x-amz-").isPrefixOf f.1 = true →
    f.1 ∈ signed.headers.map S3v4.Header.name

/-- What is signed is in the receiver's spelling. -/
structure S3v4.CanonicalRequest.Spelled (signed : S3v4.CanonicalRequest) : Prop where
  path : SignatureV4.canonicalPath signed.uri = some signed.uri
  query : CanonicalQuery signed.query
  value : ∀ h ∈ signed.headers, ∀ c ∈ h.value, SignatureV4.isBlank c = false
  names : signed.headers.map S3v4.Header.name ⊆ signedNames
  nodup : (signed.headers.map S3v4.Header.name).Nodup
  payloadHash : (utf8 "x-amz-content-sha256", signed.payloadHash)
    ∈ signed.headers.map S3v4.Header.pair

/-- The names under which the headers were signed. -/
def S3v4.CanonicalRequest.names (signed : S3v4.CanonicalRequest) : List Bytes :=
  (S3v4.sortHeaders signed.headers).map S3v4.Header.name

section

variable {signed : S3v4.CanonicalRequest} {r : SignatureV4.Arrived}

theorem mem_names {name : Bytes} :
    name ∈ signed.names ↔ name ∈ signed.headers.map S3v4.Header.name :=
  ((S3v4.sortHeaders_perm signed.headers).map _).mem_iff

theorem S3v4.CanonicalRequest.Spelled.sorted (h : signed.Spelled) :
    signed.names.Pairwise (· < ·) := by
  have hle : signed.names.Pairwise (· ≤ ·) := by
    rw [S3v4.CanonicalRequest.names, List.pairwise_map]
    exact S3v4.sortHeaders_pairwise signed.headers
  have hne : signed.names.Nodup :=
    ((S3v4.sortHeaders_perm signed.headers).map _).nodup_iff.mpr h.nodup
  refine hle.imp₂ (fun a b hab hne ↦ ?_) hne
  by_contra hlt
  exact hne (List.le_antisymm hab (List.not_lt.mp hlt))

theorem trim_of_spelled {v : Bytes} (h : ∀ c ∈ v, SignatureV4.isBlank c = false) :
    S3v4.trim v = v := by
  have hkeep : ∀ c ∈ v, S3v4.isBlank c = false := by
    intro c hc
    have hblank := h c hc
    simp only [SignatureV4.isBlank, Bool.or_eq_false_iff, decide_eq_false_iff_not] at hblank
    simpa [S3v4.isBlank] using hblank
  have hdrop (l : Bytes) (hl : ∀ c ∈ l, S3v4.isBlank c = false) : l.dropWhile S3v4.isBlank = l := by
    rw [List.dropWhile_eq_self_iff]
    intro hpos
    simpa using hl _ (List.getElem_mem hpos)
  rw [S3v4.trim, trimBy, hdrop v hkeep, List.rdropWhile,
    hdrop v.reverse fun c hc ↦ hkeep c (List.mem_reverse.mp hc), List.reverse_reverse]

/-- **The receiver puts together the canonical request that was signed.** -/
theorem ArrivesAsSigned.canonicalRequest_eq (h : ArrivesAsSigned signed r) (hs : signed.Spelled) :
    r.canonicalRequest signed.names = some (S3v4.canonicalRequest signed) := by
  have hlines : signed.names.mapM r.headerLine = some
      ((S3v4.sortHeaders signed.headers).map fun h ↦ h.name ++ 58 :: S3v4.trim h.value) := by
    have hmem : ∀ x ∈ S3v4.sortHeaders signed.headers, x ∈ signed.headers :=
      fun x hx ↦ (S3v4.sortHeaders_perm _).mem_iff.mp hx
    rw [S3v4.CanonicalRequest.names]
    generalize S3v4.sortHeaders signed.headers = headers at hmem
    induction headers with
    | nil => rfl
    | cons x headers ih =>
      have hx := hmem x List.mem_cons_self
      have hline : r.headerLine x.name = some (x.name ++ 58 :: S3v4.trim x.value) := by
        rw [SignatureV4.Arrived.headerLine, h.value x hx, Option.map_some,
          SignatureV4.canonicalValue_of_forall (hs.value x hx), trim_of_spelled (hs.value x hx)]
      rw [List.map_cons, List.mapM_cons, hline, ih fun y hy ↦ hmem y (List.mem_cons_of_mem _ hy)]
      rfl
  have hpayload : r.value (utf8 "x-amz-content-sha256") = some signed.payloadHash := by
    obtain ⟨x, hx, heq⟩ := List.mem_map.mp hs.payloadHash
    obtain ⟨hname, hvalue⟩ := Prod.mk.inj heq
    rw [← hname, ← hvalue]
    exact h.value x hx
  have hnames : S3v4.signedHeaders (S3v4.sortHeaders signed.headers)
      = [59].intercalate signed.names := rfl
  rw [SignatureV4.Arrived.canonicalRequest, h.path, h.query, hs.path, hs.query.eq, hlines, hpayload]
  dsimp only
  rw [h.method, S3v4.canonicalRequest_eq_lines, hnames]

/-- The claim that the reader makes. -/
def claimOf (sha256Raw : Bytes → Bytes) (signed : S3v4.CanonicalRequest) (cred : Credentials)
    (region amzDate : Bytes) : SignatureV4.Claim where
  accessKey := cred.accessKey
  date := amzDate.take 8
  region := region
  service := utf8 "s3"
  signedHeaders := signed.names
  signature :=
    let scope := amzDate.take 8 ++ utf8 "/" ++ region ++ utf8 "/" ++ utf8 "s3" ++
      utf8 "/aws4_request"
    S3v4.hexEncode (S3v4.hmacSha256 sha256Raw
      (S3v4.deriveSigningKey sha256Raw cred.secretKey (amzDate.take 8) region (utf8 "s3"))
      (utf8 "AWS4-HMAC-SHA256\n" ++ amzDate ++ utf8 "\n" ++ scope ++ utf8 "\n" ++
        S3v4.sha256Hex sha256Raw (S3v4.canonicalRequest signed)))

theorem buildAuthorization_eq_render (sha256Raw : Bytes → Bytes) (cred : Credentials)
    (region amzDate : Bytes) :
    (S3v4.buildAuthorization sha256Raw signed cred.accessKey cred.secretKey region (utf8 "s3")
      amzDate).1 = (claimOf sha256Raw signed cred region amzDate).render := by
  have hliterals : utf8 "AWS4-HMAC-SHA256 Credential="
        = utf8 "AWS4-HMAC-SHA256 " ++ utf8 "Credential=" ∧
      utf8 ", SignedHeaders=" = utf8 ", " ++ utf8 "SignedHeaders=" ∧
      utf8 ", Signature=" = utf8 ", " ++ utf8 "Signature=" ∧
      utf8 "/aws4_request" = 47 :: utf8 "aws4_request" ∧ utf8 "/" = [47] := by decide
  have hnames : S3v4.signedHeaders (S3v4.sortHeaders signed.headers)
      = [59].intercalate signed.names := rfl
  simp [S3v4.buildAuthorization, SignatureV4.Claim.render, claimOf, hliterals, hnames,
    List.intercalate]

/-- **The receiver computes the signature that the reader has computed.** -/
theorem signature_claimOf {sha256Raw : Bytes → Bytes} (hdigest : ∀ x, (sha256Raw x).length = 32)
    (h : ArrivesAsSigned signed r) (hs : signed.Spelled) {amzDate : Bytes}
    (hdate : r.value (utf8 "x-amz-date") = some amzDate) (cred : Credentials) (region : Bytes) :
    r.signature sha256Raw cred.secretKey (claimOf sha256Raw signed cred region amzDate)
      = some (claimOf sha256Raw signed cred region amzDate).signature := by
  have hliterals : utf8 "AWS4-HMAC-SHA256\n" = utf8 "AWS4-HMAC-SHA256" ++ [10] ∧
      utf8 "/aws4_request" = 47 :: utf8 "aws4_request" ∧ utf8 "/" = [47] ∧ utf8 "\n" = [10] := by
    decide
  have hcanonical : r.canonicalRequest (claimOf sha256Raw signed cred region amzDate).signedHeaders
      = some (S3v4.canonicalRequest signed) := h.canonicalRequest_eq hs
  rw [SignatureV4.Arrived.signature, hdate, hcanonical]
  simp [claimOf, S3v4.sha256Hex, hexEncode_eq, hmacSha256_eq hdigest, deriveSigningKey_eq hdigest,
    hliterals, List.intercalate]

end

end Nanos3Reader
