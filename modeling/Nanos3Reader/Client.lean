import Nanos3Reader.Request

/-!
# The object-store client

`S3Client` over `run_request`: listings and puts. Every operation reports success or failure in its
return value, an error text, and output arguments that the caller passes by reference, so a model of
an operation takes the caller's values of these and returns what is in them afterwards.
-/

open ByteText

namespace Nanos3Reader

/-- What a call leaves behind: its return value, the output arguments and the error text. -/
structure Outcome (α : Type*) where
  ok : Bool
  out : α
  error : Bytes
deriving DecidableEq

/-- `split_s3_uri`: bucket and key. -/
def splitS3Uri (uri : Bytes) (needKey : Bool) : Except Bytes (Bytes × Bytes) :=
  if ¬(utf8 "s3://").isPrefixOf uri then .error (uri ++ utf8 ": not an s3:// URI")
  else
    let rest := uri.drop 5
    let (bucket, key) := (cut [47] rest).getD (rest, [])
    if bucket = [] ∨ (needKey ∧ key = []) then
      .error (uri ++ utf8 ": malformed s3:// URI (expected s3://bucket/key)")
    else .ok (bucket, key)

theorem of_splitS3Uri {uri bucket key : Bytes} {needKey : Bool}
    (h : splitS3Uri uri needKey = .ok (bucket, key)) : bucket ≠ [] ∧ 47 ∉ bucket := by
  rw [splitS3Uri] at h
  split at h
  · cases h
  · dsimp only at h
    split at h
    · cases h
    · next hne =>
      cases h
      exact ⟨fun hnil ↦ hne (.inl hnil), notMem_cut_getD 47 _⟩

theorem splitS3Uri_append {bucket key : Bytes} (hne : bucket ≠ []) (hslash : 47 ∉ bucket)
    (hkey : key ≠ []) (needKey : Bool) :
    splitS3Uri (utf8 "s3://" ++ bucket ++ utf8 "/" ++ key) needKey = .ok (bucket, key) := by
  have hrest : (utf8 "s3://" ++ bucket ++ utf8 "/" ++ key).drop 5 = bucket ++ 47 :: key := by
    rw [List.append_assoc, List.append_assoc, show utf8 "/" = [47] from by decide]
    exact List.drop_left' (by decide)
  rw [splitS3Uri, if_neg (by simp)]
  dsimp only
  rw [hrest, cut_singleton_append hslash, Option.getD_some, if_neg (by simp [hne, hkey])]

/-- `S3Client::Impl`. A client with a `refusal` fails every call with it. -/
structure ClientImpl where
  cfg : Config
  fixedCreds : Option Credentials := none
  refusal : Bytes := []

/-- A client of AWS in one region, with explicit keys. -/
def ClientImpl.usEast : ClientImpl where
  cfg := ⟨utf8 "us-east-1", [], false, 4⟩
  fixedCreds := some { accessKey := utf8 "K", secretKey := utf8 "S" }

namespace ClientImpl

/-- What every operation does first: bucket and key of its URI, unless the client refuses. -/
def target (im : ClientImpl) (uri : Bytes) (needKey : Bool) : Except Bytes (Bytes × Bytes) :=
  match splitS3Uri uri needKey with
  | .error e => .error e
  | .ok bk => if im.refusal = [] then .ok bk else .error (uri ++ utf8 ": " ++ im.refusal)

theorem refusal_of_target {im : ClientImpl} {uri : Bytes} {needKey : Bool} {bk : Bytes × Bytes}
    (h : im.target uri needKey = .ok bk) : im.refusal = [] := by
  rw [target] at h
  split at h
  · cases h
  · split at h
    · next hrefusal => exact hrefusal
    · cases h

def run (im : ClientImpl) (env : Outside) (w : World) (call : Call) : Except Bytes Reply × World :=
  runRequest env im.cfg im.fixedCreds w call

end ClientImpl

/-! ## Listings -/

/-- `list_query`: the parameters in byte order. -/
def listQuery (pfx delimiter token : Bytes) : Bytes :=
  (if token = [] then [] else utf8 "continuation-token=" ++ uriEncodeComponent token ++ utf8 "&") ++
  (if delimiter = [] then [] else utf8 "delimiter=" ++ uriEncodeComponent delimiter ++ utf8 "&") ++
  utf8 "list-type=2&prefix=" ++ uriEncodeComponent pfx

/-- The request for the page after `token`. -/
def listCall (bucket pfx delimiter token : Bytes) : Call :=
  { method := utf8 "GET", bucket, query := listQuery pfx delimiter token }

namespace ClientImpl

/-- What `list` makes of the reply to a page request. -/
def readPage (strerror : CurlCode → Bytes) (prefixUri : Bytes) (found : List ObjectInfo)
    (prefixes : List Bytes) (r : Reply) : Except Bytes ListPage :=
  if r.overflow ∨ r.rc ≠ .ok then .error (transferFailure strerror prefixUri r)
  else if r.code ≠ 200 then .error (httpFailure prefixUri r)
  else
    match parseListPage r.text found prefixes with
    | .error e => .error (prefixUri ++ utf8 ": " ++ e)
    | .ok page => .ok page

/-- The loop of `list`, for at most `fuel` pages; `none` when there are more. -/
def listLoop (im : ClientImpl) (env : Outside) (prefixUri bucket pfx delimiter : Bytes) :
    ℕ → World → Bytes → List ObjectInfo → List Bytes →
      Option (Except Bytes (List ObjectInfo × List Bytes) × World)
  | 0, _, _, _, _ => none
  | fuel + 1, w, token, found, prefixes =>
    match im.run env w (listCall bucket pfx delimiter token) with
    | (.error e, w) => some (.error e, w)
    | (.ok r, w) =>
      match readPage env.strerror prefixUri found prefixes r with
      | .error e => some (.error e, w)
      | .ok page =>
        if page.truncated = false then some (.ok (page.objects, page.commonPrefixes), w)
        else if page.nextToken = token then
          some (.error (prefixUri ++
            utf8 ": listing did not advance (repeated continuation token)"), w)
        else
          im.listLoop env prefixUri bucket pfx delimiter fuel w page.nextToken page.objects
            page.commonPrefixes

/-- `list`; `none` when it has not returned after `fuel` pages. -/
def list (im : ClientImpl) (env : Outside) (fuel : ℕ) (w : World) (prefixUri delimiter : Bytes)
    (objects : List ObjectInfo) (commonPrefixes : List Bytes) :
    Option (Outcome (List ObjectInfo × List Bytes) × World) :=
  match im.target prefixUri false with
  | .error e => some (⟨false, (objects, commonPrefixes), e⟩, w)
  | .ok (bucket, pfx) =>
    (im.listLoop env prefixUri bucket pfx delimiter fuel w [] [] []).map fun q ↦
      match q.1 with
      | .error e => (⟨false, (objects, commonPrefixes), e⟩, q.2)
      | .ok found => (⟨true, found, []⟩, q.2)

end ClientImpl

/-! ## Puts -/

structure PutOptions where
  contentType : Bytes := []
  ifNoneMatch : Bool := false
  ifMatch : Bytes := []

/-- S3's limit for one PUT. -/
def kMaxSinglePut : ℕ := 5 <<< 30

/-- Whether a header value has no line break. -/
def clean (v : Bytes) : Bool := v.all fun c ↦ c ≠ 13 && c ≠ 10

def contentTypeLine (contentType : Bytes) : Bytes :=
  utf8 "Content-Type: " ++
    if contentType = [] then utf8 "application/octet-stream" else contentType

/-- The header lines of a put that its options ask for. -/
def PutOptions.headers (options : PutOptions) : List Bytes :=
  [contentTypeLine options.contentType] ++
    (if options.ifNoneMatch then [utf8 "If-None-Match: *"] else []) ++
    if options.ifMatch = [] then [] else [utf8 "If-Match: " ++ options.ifMatch]

namespace ClientImpl

/-- The request of a put, or why there is none. `data` is `none` for a null pointer that should
point to bytes. -/
def putCall (im : ClientImpl) (uri : Bytes) (data : Option Bytes) (options : PutOptions) :
    Except Bytes Call :=
  match im.target uri true with
  | .error e => .error e
  | .ok (bucket, key) =>
    match data with
    | none => .error (uri ++ utf8 ": put called with a null body")
    | some body =>
      if kMaxSinglePut < body.length then
        .error (uri ++ utf8 ": " ++ decimal body.length ++
          utf8 " bytes is more than one PUT may carry (5 GiB)")
      else if !clean options.contentType || !clean options.ifMatch then
        .error (uri ++ utf8 ": put options must not contain line breaks")
      else
        .ok { method := utf8 "PUT", bucket, key, body, extraHeaders := options.headers }

/-- The outputs of a put: the ETag and whether the precondition failed, each if the caller wants
it. -/
abbrev PutOut := Option Bytes × Option Bool

/-- What a put makes of the reply. -/
def putFinish (strerror : CurlCode → Bytes) (uri : Bytes) (options : PutOptions) (r : Reply)
    (out : PutOut) : Outcome PutOut :=
  if r.overflow ∨ r.rc ≠ .ok then ⟨false, out, transferFailure strerror uri r⟩
  else if r.code = 412 then
    ⟨false, (out.1, out.2.map fun _ ↦ true), httpFailure uri r ++ utf8 " (precondition failed: " ++
      (if options.ifNoneMatch then utf8 "the object exists" else utf8 "the ETag differs") ++
      utf8 ")"⟩
  else if r.code ≠ 200 then ⟨false, out, httpFailure uri r⟩
  else ⟨true, (out.1.map fun _ ↦ r.etag, out.2), []⟩

def put (im : ClientImpl) (env : Outside) (w : World) (uri : Bytes) (data : Option Bytes)
    (options : PutOptions) (out : PutOut) : Outcome PutOut × World :=
  let out : PutOut := (out.1, out.2.map fun _ ↦ false)
  match im.putCall uri data options with
  | .error e => (⟨false, out, e⟩, w)
  | .ok call =>
    match im.run env w call with
    | (.error e, w) => (⟨false, out, e⟩, w)
    | (.ok r, w) => (putFinish env.strerror uri options r out, w)

theorem ok_putFinish {strerror : CurlCode → Bytes} {uri : Bytes} {options : PutOptions} {r : Reply}
    {out : PutOut} :
    (putFinish strerror uri options r out).ok = true ↔
      r.overflow = false ∧ r.rc = .ok ∧ r.code = 200 := by
  rw [putFinish]
  split
  · next hrc =>
    simp only [Bool.false_eq_true, false_iff, not_and]
    intro hover hok
    simp [hok, hover] at hrc
  · next hrc =>
    obtain ⟨hover, hok⟩ := not_or.mp hrc
    split
    · next hcode => simp [hcode]
    · split
      · next hcode => simp [hcode]
      · next hcode => simp_all

end ClientImpl

end Nanos3Reader
