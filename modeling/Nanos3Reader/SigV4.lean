import Nanos3Reader.Lib.ByteText
import Mathlib.Data.List.Nodup
import Mathlib.Data.List.Perm.Basic
import Mathlib.Data.Set.Basic

/-!
# AWS Signature Version 4

The signing primitives of the reader: the canonical request, the key derivation chain and the
`Authorization` header built from them. SHA-256 comes from one of two back ends chosen when the
library is built, so every definition that hashes takes the digest function as an argument.

The result of this file is that the signature binds the request. The canonical request string is a
list of lines joined by newlines, so it can be cut back into its lines, and a header line can be
cut at its first colon; sorting removes the caller's order and nothing else.
-/

open ByteText

namespace Nanos3Reader

namespace S3v4

/-! ## Hashing -/

/-- `kHexDigits[d]`. -/
def hexDigit (d : UInt8) : UInt8 := if d < 10 then 48 + d else 87 + d

/-- Lowercase hex of a byte buffer. -/
def hexEncode (data : Bytes) : Bytes :=
  data.flatMap fun b ↦ [hexDigit (b >>> (4 : UInt8)), hexDigit (b &&& (15 : UInt8))]

section Hash

variable (sha256Raw : Bytes → Bytes)

def sha256Hex (payload : Bytes) : Bytes := hexEncode (sha256Raw payload)

/-- HMAC-SHA256: a key longer than the block is hashed down, a shorter one padded with zeros. -/
def hmacSha256 (key msg : Bytes) : Bytes :=
  let k := ((if 64 < key.length then sha256Raw key else key) ++ List.replicate 64 0).take 64
  let inner := k.map (· ^^^ 0x36) ++ msg
  sha256Raw (k.map (· ^^^ 0x5c) ++ sha256Raw inner)

def deriveSigningKey (secret date region service : Bytes) : Bytes :=
  let kDate := hmacSha256 sha256Raw (utf8 "AWS4" ++ secret) date
  let kRegion := hmacSha256 sha256Raw kDate region
  let kService := hmacSha256 sha256Raw kRegion service
  hmacSha256 sha256Raw kService (utf8 "aws4_request")

end Hash

/-! ## The canonical request -/

/-- The two bytes `trim` strips: space and horizontal tab. -/
def isBlank (c : UInt8) : Bool := c == 32 || c == 9

def trim (s : Bytes) : Bytes := trimBy isBlank s

/-- One header for the canonical request. The name is lowercase; the value is trimmed by the
signer. -/
structure Header where
  name : Bytes
  value : Bytes
deriving DecidableEq

/-- A request to sign. -/
structure CanonicalRequest where
  method : Bytes
  uri : Bytes
  query : Bytes
  headers : List Header
  payloadHash : Bytes

/-- `std::sort` by header name, in byte order. -/
def sortHeaders (headers : List Header) : List Header :=
  headers.mergeSort fun a b ↦ decide (a.name ≤ b.name)

def canonicalHeaders (headers : List Header) : Bytes :=
  headers.flatMap fun h ↦ h.name ++ utf8 ":" ++ trim h.value ++ utf8 "\n"

def signedHeaders (headers : List Header) : Bytes :=
  (utf8 ";").intercalate (headers.map Header.name)

/-- The string whose hash `buildAuthorization` signs. -/
def canonicalRequest (req : CanonicalRequest) : Bytes :=
  let headers := sortHeaders req.headers
  req.method ++ utf8 "\n" ++ req.uri ++ utf8 "\n" ++ req.query ++ utf8 "\n" ++
    canonicalHeaders headers ++ utf8 "\n" ++ signedHeaders headers ++ utf8 "\n" ++ req.payloadHash

/-- The `Authorization` header value for `req`, and the signed-header list that goes out through
`out_signed_headers`. -/
def buildAuthorization (sha256Raw : Bytes → Bytes) (req : CanonicalRequest)
    (accessKey secretKey region service amzDate : Bytes) : Bytes × Bytes :=
  let signed := signedHeaders (sortHeaders req.headers)
  let scopeDate := amzDate.take 8
  let credentialScope := scopeDate ++ utf8 "/" ++ region ++ utf8 "/" ++ service ++
    utf8 "/aws4_request"
  let stringToSign := utf8 "AWS4-HMAC-SHA256\n" ++ amzDate ++ utf8 "\n" ++ credentialScope ++
    utf8 "\n" ++ sha256Hex sha256Raw (canonicalRequest req)
  let signingKey := deriveSigningKey sha256Raw secretKey scopeDate region service
  let signature := hexEncode (hmacSha256 sha256Raw signingKey stringToSign)
  (utf8 "AWS4-HMAC-SHA256 Credential=" ++ accessKey ++ utf8 "/" ++ credentialScope ++
    utf8 ", SignedHeaders=" ++ signed ++ utf8 ", Signature=" ++ signature, signed)

/-! ## Requests the signer can tell apart

The conditions under which the canonical string is unambiguous. They are the ones HTTP puts on
header names and values, and what the reader's own requests satisfy. -/

/-- No part of the request contains a newline, and header names are distinct tokens. -/
structure CanonicalRequest.WellFormed (req : CanonicalRequest) : Prop where
  method : 10 ∉ req.method
  uri : 10 ∉ req.uri
  query : 10 ∉ req.query
  payloadHash : 10 ∉ req.payloadHash
  name : ∀ h ∈ req.headers, 58 ∉ h.name ∧ 59 ∉ h.name ∧ 10 ∉ h.name
  value : ∀ h ∈ req.headers, 10 ∉ h.value
  distinct : (req.headers.map Header.name).Nodup

/-- The name and the trimmed value: what of a header the signature covers. -/
def Header.signedPart (h : Header) : Bytes × Bytes := (h.name, trim h.value)

/-- The set of headers the signature covers. -/
def CanonicalRequest.signedSet (req : CanonicalRequest) : Set (Bytes × Bytes) :=
  {p | p ∈ req.headers.map Header.signedPart}

/-- Two requests that differ at most in the order of their headers and in blanks around header
values. -/
structure SameRequest (a b : CanonicalRequest) : Prop where
  method : a.method = b.method
  uri : a.uri = b.uri
  query : a.query = b.query
  payloadHash : a.payloadHash = b.payloadHash
  headers : a.signedSet = b.signedSet

/-! ## Sorting -/

theorem sortHeaders_perm (hs : List Header) : (sortHeaders hs).Perm hs := List.mergeSort_perm _ _

theorem sortHeaders_pairwise (hs : List Header) :
    (sortHeaders hs).Pairwise fun a b ↦ a.name ≤ b.name := by
  have htrans : ∀ a b c : Header, decide (a.name ≤ b.name) = true →
      decide (b.name ≤ c.name) = true → decide (a.name ≤ c.name) = true := by
    intro a b c hab hbc
    simp only [decide_eq_true_eq] at hab hbc ⊢
    exact List.le_trans hab hbc
  have htotal : ∀ a b : Header,
      (decide (a.name ≤ b.name) || decide (b.name ≤ a.name)) = true := by
    intro a b
    simp only [Bool.or_eq_true, decide_eq_true_eq]
    exact List.le_total _ _
  simpa [sortHeaders] using List.pairwise_mergeSort htrans htotal hs

/-- The sorted list depends on the caller's headers only through the set they make, as far as the
signature looks at it. -/
theorem map_sortHeaders_eq_iff {xs ys : List Header} (hx : (xs.map Header.name).Nodup)
    (hy : (ys.map Header.name).Nodup) :
    (sortHeaders xs).map Header.signedPart = (sortHeaders ys).map Header.signedPart
      ↔ ∀ p, p ∈ xs.map Header.signedPart ↔ p ∈ ys.map Header.signedPart := by
  have hpx := (sortHeaders_perm xs).map Header.signedPart
  have hpy := (sortHeaders_perm ys).map Header.signedPart
  constructor
  · intro h p
    rw [← hpx.mem_iff, h, hpy.mem_iff]
  · intro h
    have hname : ∀ l : List Header, l.map Header.name = (l.map Header.signedPart).map Prod.fst := by
      intro l
      rw [List.map_map]
      rfl
    rw [hname] at hx hy
    have hperm := (List.perm_ext_iff_of_nodup (List.Nodup.of_map _ hx)
      (List.Nodup.of_map _ hy)).mpr h
    have hsorted : ∀ l : List Header,
        ((sortHeaders l).map Header.signedPart).Pairwise fun p q ↦ p.1 ≤ q.1 := by
      intro l
      rw [List.pairwise_map]
      exact sortHeaders_pairwise l
    refine (hpx.trans (hperm.trans hpy.symm)).eq_of_pairwise ?_ (hsorted xs) (hsorted ys)
    intro p q hp hq hpq hqp
    have hq' : q ∈ xs.map Header.signedPart := (h q).mpr (hpy.mem_iff.mp hq)
    exact List.inj_on_of_nodup_map hx (hpx.mem_iff.mp hp) hq' (List.le_antisymm hpq hqp)

/-! ## Reading the canonical string back -/

/-- The line a header contributes. -/
private def headerLine (p : Bytes × Bytes) : Bytes := p.1 ++ 58 :: p.2

private theorem canonicalHeaders_eq (hs : List Header) :
    canonicalHeaders hs
      = ((hs.map Header.signedPart).map headerLine).flatMap fun l ↦ l ++ [10] := by
  rw [List.map_map, List.flatMap_map]
  refine List.flatMap_congr fun h _ ↦ ?_
  simp [headerLine, Header.signedPart, utf8, String.utf8EncodeChar]

/-- The lines of the canonical request. The empty line is the one that ends the headers. -/
private def canonicalLines (req : CanonicalRequest) : List Bytes :=
  [req.method, req.uri, req.query] ++
    (((sortHeaders req.headers).map Header.signedPart).map headerLine ++
      [[], signedHeaders (sortHeaders req.headers), req.payloadHash])

private theorem canonicalRequest_eq_intercalate (req : CanonicalRequest) :
    canonicalRequest req = [10].intercalate (canonicalLines req) := by
  rw [canonicalLines, intercalate_append (by simp), intercalate_append (by simp),
    ← canonicalHeaders_eq, canonicalRequest]
  simp [utf8, String.utf8EncodeChar, List.intercalate]

theorem canonicalRequest_eq_lines (req : CanonicalRequest) : canonicalRequest req
    = [10].intercalate ([req.method, req.uri, req.query] ++
        ((sortHeaders req.headers).map (fun h ↦ h.name ++ 58 :: trim h.value) ++
          [[], signedHeaders (sortHeaders req.headers), req.payloadHash])) := by
  rw [canonicalRequest_eq_intercalate, canonicalLines, List.map_map]
  rfl

private theorem newline_notMem_canonicalLines {req : CanonicalRequest} (h : req.WellFormed) :
    ∀ l ∈ canonicalLines req, 10 ∉ l := by
  have hmem : ∀ x ∈ sortHeaders req.headers, x ∈ req.headers :=
    fun x hx ↦ (sortHeaders_perm _).mem_iff.mp hx
  have hsigned : 10 ∉ signedHeaders (sortHeaders req.headers) := by
    refine @notMem_intercalate 59 10 _ ?_ (by decide)
    intro l hl
    obtain ⟨x, hx, rfl⟩ := List.mem_map.mp hl
    exact (h.name x (hmem x hx)).2.2
  intro l hl
  simp only [canonicalLines, List.mem_append, List.mem_cons, List.not_mem_nil, or_false] at hl
  rcases hl with (rfl | rfl | rfl) | hl | rfl | rfl | rfl
  · exact h.method
  · exact h.uri
  · exact h.query
  · rw [List.map_map] at hl
    obtain ⟨x, hx, rfl⟩ := List.mem_map.mp hl
    have hvalue : 10 ∉ trim x.value := fun hm ↦ h.value x (hmem x hx) (mem_of_mem_trimBy hm)
    simp [headerLine, Header.signedPart, (h.name x (hmem x hx)).2.2, hvalue]
  · simp
  · exact hsigned
  · exact h.payloadHash

private theorem eq_of_map_headerLine_eq : ∀ {xs ys : List (Bytes × Bytes)},
    (∀ p ∈ xs, 58 ∉ p.1) → (∀ p ∈ ys, 58 ∉ p.1) →
    xs.map headerLine = ys.map headerLine → xs = ys := by
  intro xs
  induction xs with
  | nil =>
    intro ys _ _ h
    exact (List.map_eq_nil_iff.mp h.symm).symm
  | cons p xs ih =>
    intro ys hx hy h
    cases ys with
    | nil => simp at h
    | cons q ys =>
      rw [List.map_cons, List.map_cons, List.cons.injEq] at h
      have hpq := append_cons_inj (hx p List.mem_cons_self) (hy q List.mem_cons_self) h.1
      rw [ih (fun r hr ↦ hx r (List.mem_cons_of_mem _ hr))
        (fun r hr ↦ hy r (List.mem_cons_of_mem _ hr)) h.2, Prod.ext hpq.1 hpq.2]

private theorem colon_notMem_signedPart {req : CanonicalRequest} (h : req.WellFormed) :
    ∀ p ∈ (sortHeaders req.headers).map Header.signedPart, 58 ∉ p.1 := by
  intro p hp
  obtain ⟨x, hx, rfl⟩ := List.mem_map.mp hp
  exact (h.name x ((sortHeaders_perm _).mem_iff.mp hx)).1

theorem sameRequest_of_canonicalRequest_eq {a b : CanonicalRequest} (ha : a.WellFormed)
    (hb : b.WellFormed) (h : canonicalRequest a = canonicalRequest b) : SameRequest a b := by
  rw [canonicalRequest_eq_intercalate, canonicalRequest_eq_intercalate] at h
  have hlines := eq_of_intercalate_eq (by simp [canonicalLines]) (by simp [canonicalLines])
    (newline_notMem_canonicalLines ha) (newline_notMem_canonicalLines hb) h
  obtain ⟨hhead, hrest⟩ := List.append_inj hlines rfl
  obtain ⟨hheaders, htail⟩ := List.append_inj' hrest rfl
  have hpairs := eq_of_map_headerLine_eq (colon_notMem_signedPart ha) (colon_notMem_signedPart hb)
    hheaders
  simp only [List.cons.injEq, and_true] at hhead htail
  exact ⟨hhead.1, hhead.2.1, hhead.2.2, htail.2.2,
    Set.ext ((map_sortHeaders_eq_iff ha.distinct hb.distinct).mp hpairs)⟩

/-! ## Order independence -/

theorem signedHeaders_eq_of_map_eq {xs ys : List Header}
    (h : xs.map Header.signedPart = ys.map Header.signedPart) :
    signedHeaders xs = signedHeaders ys := by
  have hname : xs.map Header.name = ys.map Header.name := by
    simpa [List.map_map, Function.comp_def, Header.signedPart] using congrArg (List.map Prod.fst) h
  rw [signedHeaders, signedHeaders, hname]

theorem SameRequest.map_sortHeaders_eq {a b : CanonicalRequest} (h : SameRequest a b)
    (ha : a.WellFormed) (hb : b.WellFormed) :
    (sortHeaders a.headers).map Header.signedPart
      = (sortHeaders b.headers).map Header.signedPart :=
  (map_sortHeaders_eq_iff ha.distinct hb.distinct).mpr fun p ↦ Set.ext_iff.mp h.headers p

theorem SameRequest.canonicalRequest_eq {a b : CanonicalRequest} (h : SameRequest a b)
    (ha : a.WellFormed) (hb : b.WellFormed) : canonicalRequest a = canonicalRequest b := by
  have hsort := h.map_sortHeaders_eq ha hb
  rw [canonicalRequest, canonicalRequest, canonicalHeaders_eq, canonicalHeaders_eq, hsort,
    signedHeaders_eq_of_map_eq hsort, h.method, h.uri, h.query, h.payloadHash]

/-- The `Authorization` header sees the request only through its canonical string and its list of
signed names. -/
theorem SameRequest.buildAuthorization_eq {a b : CanonicalRequest} (h : SameRequest a b)
    (ha : a.WellFormed) (hb : b.WellFormed)
    (sha256Raw : Bytes → Bytes) (accessKey secretKey region service amzDate : Bytes) :
    buildAuthorization sha256Raw a accessKey secretKey region service amzDate
      = buildAuthorization sha256Raw b accessKey secretKey region service amzDate := by
  rw [buildAuthorization, buildAuthorization, h.canonicalRequest_eq ha hb,
    signedHeaders_eq_of_map_eq (h.map_sortHeaders_eq ha hb)]

/-- **The signature binds the request.** The canonical string determines the request up to header
order and blanks around values, and that is also all the `Authorization` header depends on. -/
theorem canonicalRequest_eq_iff_sameRequest (a b : CanonicalRequest) (ha : a.WellFormed)
    (hb : b.WellFormed) :
    (canonicalRequest a = canonicalRequest b ↔ SameRequest a b) ∧
      (SameRequest a b → ∀ (sha256Raw : Bytes → Bytes)
        (accessKey secretKey region service amzDate : Bytes),
        buildAuthorization sha256Raw a accessKey secretKey region service amzDate
          = buildAuthorization sha256Raw b accessKey secretKey region service amzDate) :=
  ⟨⟨sameRequest_of_canonicalRequest_eq ha hb, fun h ↦ h.canonicalRequest_eq ha hb⟩,
    fun h ↦ h.buildAuthorization_eq ha hb⟩

/-- The request of the published `get-vanilla` vector. -/
def getVanilla : CanonicalRequest where
  method := utf8 "GET"
  uri := utf8 "/"
  query := []
  headers := [⟨utf8 "host", utf8 "example.amazonaws.com"⟩,
    ⟨utf8 "x-amz-date", utf8 "20150830T123600Z"⟩]
  payloadHash := utf8 "e3b0c44298fc1c149afbf4c8996fb92427ae41e4649b934ca495991b7852b855"

/-- The same request with its headers listed the other way round and blanks around a value. -/
def getVanillaReordered : CanonicalRequest :=
  { getVanilla with
    headers := [⟨utf8 "x-amz-date", utf8 "20150830T123600Z"⟩,
      ⟨utf8 "host", utf8 " example.amazonaws.com\t"⟩] }

theorem canonicalRequest_getVanillaReordered :
    canonicalRequest getVanilla = canonicalRequest getVanillaReordered := by
  refine (canonicalRequest_eq_iff_sameRequest getVanilla getVanillaReordered
    ⟨by decide, by decide, by decide, by decide, by decide, by decide, by decide⟩
    ⟨by decide, by decide, by decide, by decide, by decide, by decide, by decide⟩).1.mpr ?_
  refine ⟨rfl, rfl, rfl, rfl, Set.ext fun p ↦ ?_⟩
  have htrim : trim (utf8 " example.amazonaws.com\t") = trim (utf8 "example.amazonaws.com") := by
    decide
  simp only [CanonicalRequest.signedSet, getVanilla, getVanillaReordered, List.map_cons,
    List.map_nil, Header.signedPart, htrim, List.mem_cons, List.not_mem_nil, or_false,
    Set.mem_ofPred_eq]
  exact or_comm

end S3v4

end Nanos3Reader
