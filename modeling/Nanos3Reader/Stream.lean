import Nanos3Reader.Endpoint
import Nanos3Reader.SigV4
import Nanos3Reader.World

/-!
# The stream over range GETs

`S3Streambuf` keeps one window of the object in memory. Reading past the window fetches the next
one, and a seek outside it fetches the window there; both go through `load_window`, which asks the
disk cache first and the server otherwise, with retries and one region redirect.

Offsets are unsigned 64-bit numbers and arithmetic on them is modulo `2 ^ 64`, except in `seekoff`,
which adds signed numbers. Executions C++ gives no result to are faults: they end the run.
-/

open ByteText

namespace Nanos3Reader

/-- What ends an execution: an exception, a read outside the window, an overflow of a signed
number, a call that never returns. -/
inductive Fault where
  | lengthError | outOfWindow | signedOverflow | hangs
deriving DecidableEq

/-- `S3Streambuf`. The get area is always a part of `window`, so `gptr` and `egptr` are offsets into
it; a null get area is one in which both are 0. -/
structure S3Streambuf where
  cfg : Config
  uri : Bytes
  bucket : Bytes
  key : Bytes
  region : Bytes
  host : Bytes
  url : Bytes
  path : Bytes
  readAhead : ℕ
  curl : Bool
  regionHeader : Bytes := []
  window : Bytes := []
  windowStart : ℕ := 0
  windowLen : ℕ := 0
  reachedEof : Bool := false
  lastError : Bytes := []
  gptr : ℕ := 0
  egptr : ℕ := 0

/-- `static_cast<std::int64_t>` of an unsigned 64-bit number. -/
def toInt64 (n : ℕ) : ℤ := if n < 2 ^ 63 then n else n - 2 ^ 64

/-- `static_cast<std::uint64_t>` of a signed number. -/
def toUint64 (z : ℤ) : ℕ := (z % 2 ^ 64).toNat

/-- `std::vector<char>::max_size`, above which `reserve` throws. -/
def maxSize : ℕ := 2 ^ 63 - 1

namespace S3Streambuf

/-- The constructor. -/
def create (cfg : Config) (uri bucket key : Bytes) (readAhead : ℕ) (curl : Bool) : S3Streambuf :=
  let e := buildEndpoint cfg bucket key cfg.region
  { cfg, uri, bucket, key, curl
    region := cfg.region
    readAhead := if readAhead = 0 then 1 else readAhead
    host := e.host, url := e.url, path := e.path }

def curPos (b : S3Streambuf) : ℕ := (b.windowStart + b.gptr) % 2 ^ 64

/-- `install_window`: the get area over `window`, whose first byte is at `origin` in the object
unless the server sent all of it. -/
def installWindow (b : S3Streambuf) (origin logicalPos : ℕ) (isPartial : Bool) : S3Streambuf :=
  let windowStart := if isPartial then origin else 0
  let reachedEof := if isPartial then decide (b.window.length < b.readAhead) else true
  let goff := if windowStart ≤ logicalPos then logicalPos - windowStart else 0
  { b with
    windowStart, reachedEof
    windowLen := b.window.length
    gptr := if b.window.length < goff then b.window.length else goff
    egptr := b.window.length }

def fail (b : S3Streambuf) (w : World) (msg : Bytes) : Bool × S3Streambuf × World :=
  (false, { b with lastError := msg, windowLen := 0, gptr := 0, egptr := 0 },
    { w with lastError := msg })

/-! ### One GET -/

/-- The GET of the window at `start`, signed with `cred`. -/
def rangeRequest (b : S3Streambuf) (env : Outside) (cred : Credentials) (start : ℕ)
    (amzDate : Bytes) : HttpRequest :=
  let last := (start + b.readAhead - 1) % 2 ^ 64
  let range := utf8 "bytes=" ++ decimal start ++ utf8 "-" ++ decimal last
  let signHeaders : List S3v4.Header :=
    [⟨utf8 "host", b.host⟩, ⟨utf8 "range", range⟩,
      ⟨utf8 "x-amz-content-sha256", utf8 "UNSIGNED-PAYLOAD"⟩, ⟨utf8 "x-amz-date", amzDate⟩] ++
    if cred.sessionToken ≠ [] then [⟨utf8 "x-amz-security-token", cred.sessionToken⟩] else []
  let req : S3v4.CanonicalRequest :=
    { method := utf8 "GET", uri := b.path, query := [], headers := signHeaders
      payloadHash := utf8 "UNSIGNED-PAYLOAD" }
  let authz := (S3v4.buildAuthorization env.sha256Raw req cred.accessKey cred.secretKey b.region
    (utf8 "s3") amzDate).1
  let hdrs :=
    [utf8 "x-amz-date: " ++ amzDate, utf8 "x-amz-content-sha256: UNSIGNED-PAYLOAD",
      utf8 "Range: " ++ range] ++
    (if cred.sessionToken ≠ [] then [utf8 "x-amz-security-token: " ++ cred.sessionToken] else []) ++
    [utf8 "Authorization: " ++ authz]
  { method := utf8 "GET", url := cStr b.url, headers := hdrs.map cStr, range := some (start, last) }

/-- What `load_window` does with the outcome of a GET. -/
inductive Verdict where
  | deliver | pastEnd | redirect | retry | giveUp
deriving DecidableEq

/-- The verdict on an outcome, after `attempt` failed attempts. The region the response named is
already in `regionHeader`. -/
def verdict (b : S3Streambuf) (redirected : Bool) (attempt : ℕ) (t : Transfer) : Verdict :=
  if t.rc = .ok ∧ (t.code = 200 ∨ t.code = 206) then .deliver
  else if t.rc = .ok ∧ t.code = 416 then .pastEnd
  else if t.rc = .ok ∧ b.cfg.pathStyle = false ∧ (t.code = 301 ∨ t.code = 307 ∨ t.code = 400) ∧
      b.regionHeader ≠ [] ∧ b.regionHeader ≠ b.region ∧ redirected = false then .redirect
  else if (isRetriableCurl t.rc ∨ (t.rc = .ok ∧ isRetriableStatus t.code)) ∧
      ((attempt + 1 : ℕ) : ℤ) < b.cfg.maxAttempts then .retry
  else .giveUp

theorem eq_false_of_verdict_redirect {b : S3Streambuf} {redirected : Bool} {attempt : ℕ}
    {t : Transfer} (h : b.verdict redirected attempt t = .redirect) : redirected = false := by
  rw [verdict] at h
  split at h
  · cases h
  · split at h
    · cases h
    · split at h
      · next hr => exact hr.2.2.2.2.2
      · split at h <;> cases h

theorem lt_of_verdict_retry {b : S3Streambuf} {redirected : Bool} {attempt : ℕ} {t : Transfer}
    (h : b.verdict redirected attempt t = .retry) : attempt + 1 < b.cfg.maxAttempts.toNat := by
  rw [verdict] at h
  split at h
  · cases h
  · split at h
    · cases h
    · split at h
      · cases h
      · split at h
        · next hr => omega
        · cases h

/-- The target of the requests after a redirect to the region the response named. -/
def retarget (b : S3Streambuf) : S3Streambuf :=
  let e := buildEndpoint b.cfg b.bucket b.key b.regionHeader
  { b with region := b.regionHeader, host := e.host, url := e.url, path := e.path }

/-- The stream with what a transfer's callbacks left in it. -/
def receive (b : S3Streambuf) (t : Transfer) : S3Streambuf :=
  { b with
    window := t.chunks.flatten
    regionHeader := t.headerLines.foldl captureRegionHeader [] }

/-- The message of a failed GET. -/
def failure (b : S3Streambuf) (env : Outside) (t : Transfer) : Bytes :=
  if t.rc ≠ .ok then utf8 "S3 GET transport error: " ++ env.strerror t.rc
  else utf8 "S3 GET HTTP " ++ decimal t.code ++ utf8 ": " ++ b.window.take 512

/-! ### Loading a window -/

/-- A delivered body: cached if it is a block, and installed. -/
def deliver (b : S3Streambuf) (env : Outside) (w : World) (cacheOn : Bool) (start target code : ℕ) :
    Except Fault (Bool × S3Streambuf × World) :=
  let stored :=
    if cacheOn ∧ code = 206 then w.store env ⟨b.uri, .ofNat start⟩ b.window else some w
  match stored with
  | none => .error .hangs
  | some w => .ok (true, b.installWindow start target (code = 206), { w with lastError := [] })

/-- The loop of `load_window`. -/
def fetch (env : Outside) (cred : Credentials) (cacheOn : Bool) (start target : ℕ) (w : World)
    (b : S3Streambuf) (redirected : Bool) (attempt : ℕ) :
    Except Fault (Bool × S3Streambuf × World) :=
  if maxSize < b.readAhead then .error .lengthError
  else
    let (t, w) := w.perform env (b.rangeRequest env cred start (env.amzNow w.moment))
    let b' := b.receive t
    match _h : b'.verdict redirected attempt t with
    | .deliver => b'.deliver env w cacheOn start target t.code
    | .pastEnd =>
      .ok (true,
        { b' with windowStart := start, windowLen := 0, reachedEof := true, gptr := 0, egptr := 0 },
        { w with lastError := [] })
    | .redirect => fetch env cred cacheOn start target w b'.retarget true attempt
    | .retry => fetch env cred cacheOn start target w b' redirected (attempt + 1)
    | .giveUp => .ok (b'.fail w (b'.failure env t))
termination_by 2 * (b.cfg.maxAttempts.toNat - attempt) + (if redirected then 0 else 1)
decreasing_by
  · obtain rfl := eq_false_of_verdict_redirect _h
    simp [retarget, receive]
  · have hlt : attempt + 1 < b.cfg.maxAttempts.toNat := lt_of_verdict_retry (b := b') _h
    simp only [receive]
    omega

/-- `load_window`. A failed read of a cached block may leave anything in `window`, but nothing looks
at it before it is overwritten. -/
def loadWindow (env : Outside) (w : World) (b : S3Streambuf) (target : ℕ) :
    Except Fault (Bool × S3Streambuf × World) :=
  if b.curl = false then .ok (b.fail w (utf8 "curl init failed"))
  else
    let cacheOn := w.cache.enabled
    let start := if cacheOn then target / b.readAhead * b.readAhead else target
    match w.tryLoad env ⟨b.uri, .ofNat start⟩ with
    | (some block, w) =>
      .ok (true, { b with window := block }.installWindow start target true,
        { w with lastError := [] })
    | (none, w) =>
      let (cred, w) := w.getCredentials env
      if cred.valid = false then
        .ok (b.fail w (utf8 "missing AWS credentials — " ++ w.provider.diagnostic))
      else fetch env cred cacheOn start target w b false 0

/-! ### The `std::streambuf` interface -/

/-- `*gptr()`. -/
def current (b : S3Streambuf) (w : World) : Except Fault (Option UInt8 × S3Streambuf × World) :=
  match b.window[b.gptr]? with
  | none => .error .outOfWindow
  | some c => .ok (some c, b, w)

def underflow (env : Outside) (w : World) (b : S3Streambuf) :
    Except Fault (Option UInt8 × S3Streambuf × World) :=
  if b.gptr < b.egptr then b.current w
  else if b.reachedEof then .ok (none, b, w)
  else
    match loadWindow env w b ((b.windowStart + b.windowLen) % 2 ^ 64) with
    | .error f => .error f
    | .ok (false, b, w) => .ok (none, b, w)
    | .ok (true, b, w) =>
      if b.windowLen = 0 then .ok (none, { b with reachedEof := true }, w) else b.current w

/-- `sbumpc`: the byte at the get pointer, which moves behind it. -/
def sbumpc (env : Outside) (w : World) (b : S3Streambuf) :
    Except Fault (Option UInt8 × S3Streambuf × World) :=
  match underflow env w b with
  | .error f => .error f
  | .ok (none, b, w) => .ok (none, b, w)
  | .ok (some c, b, w) => .ok (some c, { b with gptr := b.gptr + 1 }, w)

/-- `sgetn`: up to `k` bytes, and whether the end of the file was met before all of them. -/
def sgetn (env : Outside) (w : World) (b : S3Streambuf) :
    ℕ → Except Fault ((Bytes × Bool) × S3Streambuf × World)
  | 0 => .ok (([], false), b, w)
  | k + 1 =>
    match sbumpc env w b with
    | .error f => .error f
    | .ok (none, b, w) => .ok (([], true), b, w)
    | .ok (some c, b, w) =>
      (sgetn env w b k).map fun r ↦ ((c :: r.1.1, r.1.2), r.2)

/-- `std::ios_base::seekdir`. -/
inductive SeekDir where
  | beg | cur | fromEnd
deriving DecidableEq

def seekpos (env : Outside) (w : World) (b : S3Streambuf) (sp : ℤ) (forInput : Bool) :
    Except Fault (ℤ × S3Streambuf × World) :=
  if forInput = false then .ok (-1, b, w)
  else
    let w := { w with lastError := [] }
    let target := toUint64 sp
    if 0 < b.windowLen ∧ b.windowStart ≤ target ∧
        target ≤ (b.windowStart + b.windowLen) % 2 ^ 64 then
      .ok (sp, { b with gptr := target - b.windowStart, egptr := b.windowLen }, w)
    else
      (loadWindow env w b target).map fun r ↦ (if r.1 then sp else -1, r.2)

def seekoff (env : Outside) (w : World) (b : S3Streambuf) (off : ℤ) (dir : SeekDir)
    (forInput : Bool) : Except Fault (ℤ × S3Streambuf × World) :=
  if forInput = false ∨ dir = .fromEnd then .ok (-1, b, w)
  else
    let base := if dir = .cur then toInt64 b.curPos else 0
    if base + off < -2 ^ 63 ∨ 2 ^ 63 ≤ base + off then .error .signedOverflow
    else if base + off < 0 then .ok (-1, b, w)
    else seekpos env w b (base + off) forInput

end S3Streambuf

/-! ## Opening and using a stream -/

/-- `S3MinStreamFactory::open`. -/
def openStream (env : Outside) (cfg : Config) (w : World) (uri : Bytes) (readAhead : ℕ) :
    Option S3Streambuf × World :=
  if ¬(utf8 "s3://").isPrefixOf uri then
    (none, { w with lastError := utf8 "not an s3:// URI" })
  else
    match cut [47] (uri.drop 5) with
    | none => (none, { w with lastError := utf8 "malformed s3:// URI (expected s3://bucket/key)" })
    | some (bucket, key) =>
      if bucket = [] ∨ key = [] then
        (none, { w with lastError := utf8 "malformed s3:// URI (expected s3://bucket/key)" })
      else
        let (cred, w) := { w with lastError := [] }.getCredentials env
        if cred.valid = false then
          (none, { w with
            lastError := utf8 "missing AWS credentials — " ++ w.provider.diagnostic })
        else
          let b := S3Streambuf.create cfg uri bucket key readAhead (env.curlInit w.moment)
          let w := { w with moment := w.moment + 1 }
          if b.curl = false then
            (none, { w with lastError := utf8 "failed to initialize libcurl handle" })
          else (some b, w)

/-- A call on a stream. -/
inductive StreamOp where
  | seekBeg (p : ℤ)
  | seekCur (d : ℤ)
  | tell
  | read (k : ℕ)

/-- What a call returns: a position, or bytes and whether the end of the file was met. -/
inductive StreamResult where
  | pos (p : ℤ)
  | bytes (data : Bytes) (eof : Bool)
deriving DecidableEq

namespace S3Streambuf

def apply (env : Outside) (w : World) (b : S3Streambuf) :
    StreamOp → Except Fault (StreamResult × S3Streambuf × World)
  | .seekBeg p => (seekoff env w b p .beg true).map fun r ↦ (.pos r.1, r.2)
  | .seekCur d => (seekoff env w b d .cur true).map fun r ↦ (.pos r.1, r.2)
  | .tell => (seekoff env w b 0 .cur true).map fun r ↦ (.pos r.1, r.2)
  | .read k => (sgetn env w b k).map fun r ↦ (.bytes r.1.1 r.1.2, r.2)

/-- The results of a sequence of calls. -/
def run (env : Outside) (w : World) (b : S3Streambuf) :
    List StreamOp → Except Fault (List StreamResult × S3Streambuf × World)
  | [] => .ok ([], b, w)
  | op :: ops =>
    match apply env w b op with
    | .error f => .error f
    | .ok (r, b, w) => (run env w b ops).map fun q ↦ (r :: q.1, q.2)

end S3Streambuf

end Nanos3Reader
