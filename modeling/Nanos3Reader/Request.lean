import Nanos3Reader.Endpoint
import Nanos3Reader.SigV4
import Nanos3Reader.World
import Nanos3Reader.Xml

/-!
# Client requests

`run_request` carries every operation of `S3Client`: it signs a `Call`, sends it, and sends it again
while the outcome is worth a retry. Only the last attempt's outcome reaches the caller.

The pieces around the transfer itself are pure — what a request is made of (`startRequest`), what
its callbacks keep of the response (`Call.receive`), whether it is sent again (`Call.retries`) — so
that operations running side by side are built from the same pieces as one running alone.
-/

open ByteText

namespace Nanos3Reader

/-- Retries after the first attempt. -/
def kClientRetries : ℕ := 3

/-- The largest list page or error body kept in memory. -/
def kClientTextCap : ℕ := 16 <<< 20

/-- A range of an open file as a request body: what the file holds, where the body starts in it, and
how long the body is. -/
structure BodyFile where
  content : Bytes
  offset : ℕ := 0
  len : ℕ

/-- One signed request. `dstCap` is given by a range read, and bounds what it may receive. -/
structure Call where
  method : Bytes
  bucket : Bytes
  key : Bytes := []
  query : Bytes := []
  range : Option (ℕ × ℕ) := none
  dstCap : Option ℕ := none
  body : Bytes := []
  bodyFile : Option BodyFile := none
  payloadHash : Bytes := []
  extraHeaders : List Bytes := []

/-- The outcome of a request. `dst` is what was written to the caller's buffer. -/
structure Reply where
  code : ℕ
  rc : CurlCode
  overflow : Bool
  dst : Bytes
  contentLength : ℤ
  text : Bytes
  etag : Bytes

namespace Call

def isPut (call : Call) : Bool := call.method = utf8 "PUT"

def isPost (call : Call) : Bool := call.method = utf8 "POST"

/-- How an error message names the object. -/
def shown (call : Call) : Bytes :=
  utf8 "s3://" ++ call.bucket ++ if call.key = [] then [] else utf8 "/" ++ call.key

def bodyLen (call : Call) : ℕ :=
  match call.bodyFile with
  | none => call.body.length
  | some f => f.len

def url (cfg : Config) (call : Call) : Bytes :=
  let ep := buildEndpoint cfg call.bucket call.key cfg.region
  if call.query = [] then ep.url else ep.url ++ utf8 "?" ++ call.query

/-- The bytes a complete request carries. -/
def payload (call : Call) : Bytes :=
  match call.bodyFile with
  | none => call.body
  | some f => (f.content.drop f.offset).take f.len

end Call

/-! ## What the callbacks keep -/

/-- State of the write callback. -/
structure Sink where
  dst : Bytes := []
  text : Bytes := []
  overflow : Bool := false

/-- `sink_write`. Once it has refused bytes libcurl calls it no more. -/
def sinkWrite (dstCap : Option ℕ) (code : ℕ) (s : Sink) (chunk : Bytes) : Sink :=
  if s.overflow then s
  else
    match dstCap.filter fun _ ↦ code = 206 with
    | some cap =>
      if cap - s.dst.length < chunk.length then { s with overflow := true }
      else { s with dst := s.dst ++ chunk }
    | none =>
      if kClientTextCap < s.text.length + chunk.length then { s with overflow := true }
      else { s with text := s.text ++ chunk }

/-- `capture_etag`, on one header line. A value of blanks and line ends is not found blank when
blanks come first: `find_last_not_of` finds nothing then, and `substr` keeps the rest. -/
def captureEtag (etag line : Bytes) : Bytes :=
  if isHeader (utf8 "etag:") line ∧ 5 < line.length then
    let value := line.drop 5
    let rest := value.dropWhile S3v4.isBlank
    if rest.all Credentials.isWs then
      if rest.length = value.length then [] else rest
    else rest.rdropWhile Credentials.isWs
  else etag

/-- State of the read callback: a body from memory or from a file, of which `pos` bytes are sent. -/
structure Upload where
  data : Bytes
  file : Option BodyFile
  len : ℕ
  pos : ℕ := 0
  failed : Bool := false
  sent : Bytes := []

/-- `fread` of `want` bytes at `pos`. -/
def fread (r : ReadCall) (content : Bytes) (pos want : ℕ) : Bytes :=
  let available := (content.drop pos).take want
  match r.short with
  | none => available
  | some n => available.take n

/-- `upload_read`. Once it has aborted the transfer libcurl calls it no more. -/
def uploadRead (u : Upload) (r : ReadCall) : Upload :=
  let want := min r.capacity (u.len - u.pos)
  if u.failed ∨ want = 0 then u
  else
    match u.file with
    | none => { u with pos := u.pos + want, sent := u.sent ++ (u.data.drop u.pos).take want }
    | some f =>
      if u.pos = 0 ∧ r.seeks = false then { u with failed := true }
      else
        let got := fread r f.content (f.offset + u.pos) want
        if got.length ≠ want then { u with failed := true }
        else { u with pos := u.pos + got.length, sent := u.sent ++ got }

namespace Call

/-- The body of `call` after an attempt in which libcurl read it by `reads`. A request without a
body reads nothing. -/
def upload (call : Call) (reads : List ReadCall) : Upload :=
  let u : Upload := { data := call.body, file := call.bodyFile, len := call.bodyLen }
  if call.isPut || call.isPost then reads.foldl uploadRead u else u

/-- What a transfer leaves in the reply. -/
def receive (call : Call) (t : Transfer) : Reply :=
  let sink := t.chunks.foldl (sinkWrite call.dstCap t.code) {}
  { code := t.code
    rc := if (call.upload t.reads).failed then .readError else t.rc
    overflow := sink.overflow
    dst := sink.dst
    contentLength := if call.method = utf8 "HEAD" then t.contentLength else -1
    text := sink.text
    etag := if call.isPut then t.headerLines.foldl captureEtag [] else [] }

/-- The outcome is worth another attempt. A body file that cannot be read never is. -/
def retries (call : Call) (t : Transfer) : Bool :=
  !(call.upload t.reads).failed &&
    ((t.rc = .ok && isRetriableStatus t.code) ||
      (t.rc ≠ .ok && !(call.receive t).overflow && isRetriableCurl t.rc))

/-- What `run_request` does with the outcome of an attempt that had `left` retries left: it makes
another one, or returns the reply. -/
def after (call : Call) (left : ℕ) (t : Transfer) : ℕ ⊕ Reply :=
  match left with
  | 0 => .inr (call.receive t)
  | left + 1 => if call.retries t then .inl left else .inr (call.receive t)

theorem lt_of_after {call : Call} {left left' : ℕ} {t : Transfer}
    (h : call.after left t = .inl left') : left' < left := by
  cases left with
  | zero => cases h
  | succ left =>
    rw [after] at h
    split at h
    · cases h
      exact Nat.lt_succ_self _
    · cases h

theorem receive_of_after {call : Call} {left : ℕ} {t : Transfer} {r : Reply}
    (h : call.after left t = .inr r) : r = call.receive t := by
  cases left with
  | zero =>
    cases h
    rfl
  | succ left =>
    rw [after] at h
    split at h
    · cases h
    · cases h
      rfl

theorem after_of_not_retries {call : Call} {t : Transfer} (h : call.retries t = false) (left : ℕ) :
    call.after left t = .inr (call.receive t) := by
  cases left with
  | zero => rfl
  | succ left => exact if_neg (by simp [h])

end Call

/-! ## Making a request -/

/-- A request that can be sent: the call with credentials, target and payload hash. -/
structure Prepared where
  call : Call
  cred : Credentials
  region : Bytes
  host : Bytes
  path : Bytes
  url : Bytes
  payloadHash : Bytes

/-- The first half of `run_request`. `got` is what the provider hands out, or its diagnostic; a
client with fixed credentials does not ask it. -/
def startRequest (sha256Raw : Bytes → Bytes) (cfg : Config) (fixedCreds : Option Credentials)
    (got : Credentials) (diagnostic : Bytes) (curl : Bool) (call : Call) : Except Bytes Prepared :=
  if fixedCreds = none ∧ got.valid = false then
    .error (call.shown ++ utf8 ": missing AWS credentials — " ++ diagnostic)
  else
    let ep := buildEndpoint cfg call.bucket call.key cfg.region
    if curl = false then .error (call.shown ++ utf8 ": failed to initialize libcurl handle")
    else
      .ok
        { call, region := cfg.region, host := ep.host, path := ep.path
          cred := fixedCreds.getD got
          url := call.url cfg
          payloadHash :=
            if call.payloadHash ≠ [] then call.payloadHash
            else if (call.isPut || call.isPost) && call.bodyFile.isNone then
              S3v4.sha256Hex sha256Raw call.body
            else utf8 "UNSIGNED-PAYLOAD" }

namespace Prepared

def rangeText (p : Prepared) : Option Bytes :=
  p.call.range.map fun r ↦ utf8 "bytes=" ++ decimal r.1 ++ utf8 "-" ++ decimal r.2

/-- One attempt, signed at `amzDate`. -/
def httpRequest (p : Prepared) (sha256Raw : Bytes → Bytes) (amzDate : Bytes) : HttpRequest :=
  let token := p.cred.sessionToken
  let signHeaders : List S3v4.Header :=
    [⟨utf8 "host", p.host⟩, ⟨utf8 "x-amz-content-sha256", p.payloadHash⟩,
      ⟨utf8 "x-amz-date", amzDate⟩] ++
    (p.rangeText.map fun range ↦ ⟨utf8 "range", range⟩).toList ++
    if token ≠ [] then [⟨utf8 "x-amz-security-token", token⟩] else []
  let req : S3v4.CanonicalRequest :=
    { method := p.call.method, uri := p.path, query := p.call.query, headers := signHeaders
      payloadHash := p.payloadHash }
  let authz := (S3v4.buildAuthorization sha256Raw req p.cred.accessKey p.cred.secretKey p.region
    (utf8 "s3") amzDate).1
  let hdrs :=
    [utf8 "x-amz-date: " ++ amzDate, utf8 "x-amz-content-sha256: " ++ p.payloadHash] ++
    p.call.extraHeaders ++
    (if p.call.isPut || p.call.isPost then [utf8 "Expect:"] else []) ++
    (p.rangeText.map (utf8 "Range: " ++ ·)).toList ++
    (if token ≠ [] then [utf8 "x-amz-security-token: " ++ token] else []) ++
    [utf8 "Authorization: " ++ authz]
  { method := p.call.method
    url := cStr p.url
    query := p.call.query
    headers := hdrs.map cStr
    range := p.call.range
    bodyLen := if p.call.isPut || p.call.isPost then some p.call.bodyLen else none }

/-- The loop of `run_request`, with `left` retries left. -/
def attempts (p : Prepared) (env : Outside) (w : World) (left : ℕ) : Reply × World :=
  let (t, w) := w.perform env (p.httpRequest env.sha256Raw (env.amzNow w.moment))
  match _h : p.call.after left t with
  | .inl left => p.attempts env w left
  | .inr r => (r, w)
termination_by left
decreasing_by exact Call.lt_of_after _h

theorem attempts_eq (p : Prepared) (env : Outside) (w : World) (left : ℕ) :
    p.attempts env w left
      = let sent := w.perform env (p.httpRequest env.sha256Raw (env.amzNow w.moment))
        match p.call.after left sent.1 with
        | .inl left => p.attempts env sent.2 left
        | .inr r => (r, sent.2) := by
  rw [attempts]
  dsimp only
  split <;> simp_all

theorem attempts_of_not_retries (p : Prepared) (env : Outside) (w : World) (left : ℕ)
    (h : p.call.retries
      (w.perform env (p.httpRequest env.sha256Raw (env.amzNow w.moment))).1 = false) :
    p.attempts env w left
      = (p.call.receive (w.perform env (p.httpRequest env.sha256Raw (env.amzNow w.moment))).1,
        (w.perform env (p.httpRequest env.sha256Raw (env.amzNow w.moment))).2) := by
  rw [attempts_eq]
  dsimp only
  rw [Call.after_of_not_retries h]

end Prepared

/-- `run_request`: an error when no request could be made. -/
def runRequest (env : Outside) (cfg : Config) (fixedCreds : Option Credentials) (w : World)
    (call : Call) : Except Bytes Reply × World :=
  let (got, w) := if fixedCreds.isSome then ({}, w) else w.getCredentials env
  let curl := env.curlInit w.moment
  let w := { w with moment := w.moment + 1 }
  match startRequest env.sha256Raw cfg fixedCreds got w.provider.diagnostic curl call with
  | .error e => (.error e, w)
  | .ok p =>
    let (r, w) := p.attempts env w kClientRetries
    (.ok r, w)

/-! ## Failure messages -/

/-- `http_failure`: the status is not the expected one. -/
def httpFailure (shown : Bytes) (r : Reply) : Bytes :=
  let xc := xmlErrorCode r.text
  shown ++ utf8 ": HTTP " ++ decimal r.code ++ if xc = [] then [] else utf8 " " ++ xc

/-- `transfer_failure`: there was no usable response. -/
def transferFailure (strerror : CurlCode → Bytes) (shown : Bytes) (r : Reply) : Bytes :=
  if r.overflow then shown ++ utf8 ": response body is larger than the request asked for"
  else shown ++ utf8 ": " ++ strerror r.rc

/-- `request_failure`: nothing when the response is the expected one. -/
def requestFailure (strerror : CurlCode → Bytes) (shown path : Bytes) (r : Reply) (expect : ℕ) :
    Bytes :=
  if r.rc = .readError then
    path ++ utf8 ": the file could not be read while uploading (did it change or shrink?)"
  else if r.overflow ∨ r.rc ≠ .ok then transferFailure strerror shown r
  else if r.code ≠ expect then httpFailure shown r
  else []

theorem httpFailure_ne_nil (shown : Bytes) (r : Reply) : httpFailure shown r ≠ [] := by
  simp [httpFailure]

theorem transferFailure_ne_nil (strerror : CurlCode → Bytes) (shown : Bytes) (r : Reply) :
    transferFailure strerror shown r ≠ [] := by
  rw [transferFailure]
  split <;> simp

/-- No message means the transfer worked and the status is the expected one. -/
theorem requestFailure_eq_nil {strerror : CurlCode → Bytes} {shown path : Bytes} {r : Reply}
    {expect : ℕ} :
    requestFailure strerror shown path r expect = [] ↔
      r.rc = .ok ∧ r.overflow = false ∧ r.code = expect := by
  rw [requestFailure]
  split
  · next hread => simp [hread]
  · split
    · next hrc =>
      simp only [transferFailure_ne_nil, false_iff, not_and]
      intro hok hover
      simp [hok, hover] at hrc
    · next hrc =>
      obtain ⟨hover, hok⟩ := not_or.mp hrc
      split
      · next hcode => simp [httpFailure_ne_nil, hcode]
      · next hcode => simp_all

theorem startRequest_error_ne_nil {sha256Raw : Bytes → Bytes} {cfg : Config}
    {fixedCreds : Option Credentials} {got : Credentials} {diagnostic : Bytes} {curl : Bool}
    {call : Call} {e : Bytes}
    (h : startRequest sha256Raw cfg fixedCreds got diagnostic curl call = .error e) : e ≠ [] := by
  rw [startRequest] at h
  split at h
  · cases h
    simp
  · dsimp only at h
    split at h
    · cases h
      simp
    · cases h

theorem runRequest_error_ne_nil {env : Outside} {cfg : Config} {fixedCreds : Option Credentials}
    {w : World} {call : Call} {e : Bytes}
    (h : (runRequest env cfg fixedCreds w call).1 = .error e) :
    e ≠ [] := by
  rw [runRequest] at h
  generalize (if fixedCreds.isSome then (({} : Credentials), w) else w.getCredentials env)
    = asked at h
  obtain ⟨got, w'⟩ := asked
  dsimp only at h
  split at h
  · next herr =>
    cases h
    exact startRequest_error_ne_nil herr
  · cases h

/-- `p` is `call` made ready to be sent by a client with `cfg`. -/
structure Prepared.Carries (p : Prepared) (sha256Raw : Bytes → Bytes) (cfg : Config) (call : Call) :
    Prop where
  call_eq : p.call = call
  region : p.region = cfg.region
  host : p.host = (buildEndpoint cfg call.bucket call.key cfg.region).host
  path : p.path = (buildEndpoint cfg call.bucket call.key cfg.region).path
  url : p.url = call.url cfg
  payloadHash : p.payloadHash =
    if call.payloadHash ≠ [] then call.payloadHash
    else if (call.isPut || call.isPost) && call.bodyFile.isNone then
      S3v4.sha256Hex sha256Raw call.body
    else utf8 "UNSIGNED-PAYLOAD"

theorem carries_of_startRequest {sha256Raw : Bytes → Bytes} {cfg : Config}
    {fixedCreds : Option Credentials} {got : Credentials} {diagnostic : Bytes} {curl : Bool}
    {call : Call} {p : Prepared}
    (h : startRequest sha256Raw cfg fixedCreds got diagnostic curl call = .ok p) :
    p.Carries sha256Raw cfg call := by
  rw [startRequest] at h
  split at h
  · cases h
  · dsimp only at h
    split at h
    · cases h
    · cases h
      exact ⟨rfl, rfl, rfl, rfl, rfl, rfl⟩

theorem exists_startRequest (sha256Raw : Bytes → Bytes) (cfg : Config) (diagnostic : Bytes)
    (call : Call) {fixedCreds : Option Credentials} {got : Credentials}
    (h : fixedCreds ≠ none ∨ got.valid = true) :
    ∃ p, startRequest sha256Raw cfg fixedCreds got diagnostic true call = .ok p := by
  have hcreds : ¬(fixedCreds = none ∧ got.valid = false) := by
    rintro ⟨hnone, hinvalid⟩
    rcases h with h | h
    · exact h hnone
    · rw [hinvalid] at h
      cases h
  rw [startRequest, if_neg hcreds]
  exact ⟨_, rfl⟩

theorem call_of_startRequest {sha256Raw : Bytes → Bytes} {cfg : Config}
    {fixedCreds : Option Credentials} {got : Credentials} {diagnostic : Bytes} {curl : Bool}
    {call : Call} {p : Prepared}
    (h : startRequest sha256Raw cfg fixedCreds got diagnostic curl call = .ok p) :
    p.call = call :=
  (carries_of_startRequest h).call_eq

theorem cred_of_startRequest {sha256Raw : Bytes → Bytes} {cfg : Config}
    {fixedCreds : Option Credentials} {got : Credentials} {diagnostic : Bytes} {curl : Bool}
    {call : Call} {p : Prepared}
    (h : startRequest sha256Raw cfg fixedCreds got diagnostic curl call = .ok p) :
    p.cred = fixedCreds.getD got := by
  rw [startRequest] at h
  split at h
  · cases h
  · dsimp only at h
    split at h
    · cases h
    · cases h
      rfl

/-- **Attempts differ only in their date**: one or more are sent, and all are for the same call. -/
theorem Prepared.attempts_sent (p : Prepared) (env : Outside) (w : World) (left : ℕ) :
    ∃ moments ≠ [], (p.attempts env w left).2.sent
      = w.sent ++ moments.map fun m ↦ p.httpRequest env.sha256Raw (env.amzNow m) := by
  induction left using Nat.strongRecOn generalizing w with
  | ind left ih =>
    rw [Prepared.attempts_eq]
    dsimp only
    split
    · next left' hafter =>
      obtain ⟨moments, -, hmoments⟩ := ih left' (Call.lt_of_after hafter)
        (w.perform env (p.httpRequest env.sha256Raw (env.amzNow w.moment))).2
      refine ⟨w.moment :: moments, List.cons_ne_nil _ _, ?_⟩
      rw [hmoments, World.perform]
      simp
    · exact ⟨[w.moment], List.cons_ne_nil _ _, rfl⟩

/-- `req` asks for what `call` does. -/
structure Call.SentAs (cfg : Config) (call : Call) (req : HttpRequest) : Prop where
  method : req.method = call.method
  url : req.url = cStr (call.url cfg)
  query : req.query = call.query
  range : req.range = call.range

theorem sentAs_httpRequest {sha256Raw : Bytes → Bytes} {cfg : Config}
    {fixedCreds : Option Credentials} {got : Credentials} {diagnostic : Bytes} {curl : Bool}
    {call : Call} {p : Prepared}
    (h : startRequest sha256Raw cfg fixedCreds got diagnostic curl call = .ok p) (date : Bytes) :
    call.SentAs cfg (p.httpRequest sha256Raw date) := by
  have hp := carries_of_startRequest h
  obtain rfl := hp.call_eq
  exact ⟨rfl, congrArg cStr hp.url, rfl, rfl⟩

/-- What `run_request` sends are attempts of its call, and it sends nothing only when it cannot. -/
theorem runRequest_prepared (env : Outside) (cfg : Config) (fixedCreds : Option Credentials)
    (w : World) (call : Call) :
    ∃ reqs, (runRequest env cfg fixedCreds w call).2.sent = w.sent ++ reqs ∧
      (∀ req ∈ reqs, ∃ got diagnostic curl p m,
        startRequest env.sha256Raw cfg fixedCreds got diagnostic curl call = .ok p ∧
        req = p.httpRequest env.sha256Raw (env.amzNow m)) ∧
      ∀ r, (runRequest env cfg fixedCreds w call).1 = .ok r → reqs ≠ [] := by
  rw [runRequest]
  have hasked : (if fixedCreds.isSome then (({} : Credentials), w)
      else w.getCredentials env).2.sent = w.sent := by
    split <;> rfl
  generalize (if fixedCreds.isSome then (({} : Credentials), w) else w.getCredentials env) = asked
    at hasked
  obtain ⟨got, w'⟩ := asked
  dsimp only at hasked ⊢
  split
  · exact ⟨[], by simpa using hasked, by simp, fun r hr ↦ by cases hr⟩
  · next p hstart =>
    obtain ⟨moments, hne, hmoments⟩ :=
      p.attempts_sent env { w' with moment := w'.moment + 1 } kClientRetries
    refine ⟨moments.map fun m ↦ p.httpRequest env.sha256Raw (env.amzNow m), ?_,
      fun req hreq ↦ ?_, fun _ _ ↦ by simpa using hne⟩
    · dsimp only at hmoments ⊢
      rw [hmoments, hasked]
    · obtain ⟨m, -, rfl⟩ := List.mem_map.mp hreq
      exact ⟨got, _, _, p, m, hstart, rfl⟩

/-- What `run_request` sends is for its call, and it sends nothing only when it cannot. -/
theorem runRequest_sent (env : Outside) (cfg : Config) (fixedCreds : Option Credentials) (w : World)
    (call : Call) :
    ∃ reqs, (runRequest env cfg fixedCreds w call).2.sent = w.sent ++ reqs ∧
      (∀ req ∈ reqs, call.SentAs cfg req) ∧
      ∀ r, (runRequest env cfg fixedCreds w call).1 = .ok r → reqs ≠ [] := by
  obtain ⟨reqs, hsent, hreqs, hne⟩ := runRequest_prepared env cfg fixedCreds w call
  refine ⟨reqs, hsent, fun req hreq ↦ ?_, hne⟩
  obtain ⟨got, diagnostic, curl, p, m, hstart, rfl⟩ := hreqs req hreq
  exact sentAs_httpRequest hstart _

/-! ## What is received and sent -/

theorem text_receive {call : Call} {t : Transfer} (hcap : call.dstCap = none)
    (hover : (call.receive t).overflow = false) : (call.receive t).text = t.chunks.flatten := by
  have hfold : ∀ (chunks : List Bytes) (s : Sink),
      (chunks.foldl (sinkWrite none t.code) s).overflow = false →
        s.overflow = false ∧
          (chunks.foldl (sinkWrite none t.code) s).text = s.text ++ chunks.flatten := by
    intro chunks
    induction chunks with
    | nil => exact fun s h ↦ ⟨h, by simp⟩
    | cons chunk chunks ih =>
      intro s h
      obtain ⟨hwritten, htext⟩ := ih _ h
      -- a write that does not overflow was not refused before, and appends
      have hwrite :
          s.overflow = false ∧ (sinkWrite none t.code s chunk).text = s.text ++ chunk := by
        rw [sinkWrite] at hwritten ⊢
        by_cases hs : s.overflow = true
        · rw [if_pos hs] at hwritten
          rw [hs] at hwritten
          cases hwritten
        · rw [if_neg hs] at hwritten ⊢
          simp only [Option.filter_none] at hwritten ⊢
          split at hwritten
          · cases hwritten
          · next hcap =>
            rw [if_neg hcap]
            exact ⟨by simpa using hs, rfl⟩
      refine ⟨hwrite.1, ?_⟩
      rw [List.foldl_cons, htext, hwrite.2]
      simp
  rw [Call.receive, hcap] at hover ⊢
  simpa using (hfold t.chunks {} hover).2

/-- An outcome reported as a working transfer is one: the body was read, and the result code is
libcurl's. -/
theorem rc_receive_eq_ok {call : Call} {t : Transfer} :
    (call.receive t).rc = .ok ↔ (call.upload t.reads).failed = false ∧ t.rc = .ok := by
  rw [Call.receive]
  dsimp only
  split
  · next hfailed => simp [hfailed]
  · next hfailed => simp [hfailed]

theorem fread_of_length {r : ReadCall} {content : Bytes} {pos want : ℕ}
    (h : (fread r content pos want).length = want) :
    fread r content pos want = (content.drop pos).take want := by
  rw [fread] at h ⊢
  split
  · rfl
  · next n hn =>
    rw [hn] at h
    dsimp only at h
    exact List.take_of_length_le (by rw [List.length_take] at h ⊢; omega)

namespace Upload

/-- The bytes from which the body is read. -/
def source (u : Upload) : Bytes :=
  match u.file with
  | none => u.data
  | some f => f.content.drop f.offset

/-- `u` reads the first `len` bytes of `source`, and what it has handed out is their start. -/
structure Streams (source : Bytes) (len : ℕ) (u : Upload) : Prop where
  source_eq : u.source = source
  len_eq : u.len = len
  pos_le : u.pos ≤ len
  sent : u.sent = source.take u.pos

theorem Streams.read {source : Bytes} {len : ℕ} {u : Upload} (h : u.Streams source len)
    (r : ReadCall) : (uploadRead u r).Streams source len := by
  obtain ⟨hsource, rfl, hpos, hsent⟩ := h
  have hwant : min r.capacity (u.len - u.pos) ≤ u.len - u.pos := min_le_right _ _
  rw [uploadRead]
  dsimp only
  split
  · exact ⟨hsource, rfl, hpos, hsent⟩
  · split
    · next hfile =>
      have hdata : u.data = source := by rw [← hsource, Upload.source, hfile]
      refine ⟨hsource, rfl, by dsimp only; omega, ?_⟩
      dsimp only
      rw [hsent, hdata, ← List.take_add]
    · next f hfile =>
      have hdata : f.content.drop f.offset = source := by rw [← hsource, Upload.source, hfile]
      split
      · exact ⟨hsource, rfl, hpos, hsent⟩
      · split
        · exact ⟨hsource, rfl, hpos, hsent⟩
        · next hgot =>
          -- all that was asked for was read, so it is what the file holds at this place
          rw [not_not] at hgot
          refine ⟨hsource, rfl, by dsimp only; omega, ?_⟩
          dsimp only
          rw [hgot, fread_of_length hgot, hsent, ← List.drop_drop, hdata, ← List.take_add]

end Upload

namespace Call

theorem streams_upload (call : Call) (reads : List ReadCall) :
    (call.upload reads).Streams
      (Upload.source { data := call.body, file := call.bodyFile, len := call.bodyLen })
      call.bodyLen := by
  have hfold : ∀ (source : Bytes) (len : ℕ) (u : Upload), u.Streams source len →
      (reads.foldl uploadRead u).Streams source len := by
    intro source len
    induction reads with
    | nil => exact fun u hu ↦ hu
    | cons r reads ih => exact fun u hu ↦ ih _ (hu.read r)
  rw [upload]
  split
  · exact hfold _ _ _ ⟨rfl, rfl, Nat.zero_le _, rfl⟩
  · exact ⟨rfl, rfl, Nat.zero_le _, rfl⟩

theorem payload_eq (call : Call) :
    call.payload
      = (Upload.source { data := call.body, file := call.bodyFile, len := call.bodyLen }).take
          call.bodyLen := by
  rw [payload, Upload.source, bodyLen]
  cases call.bodyFile with
  | none => exact List.take_length.symm
  | some f => rfl

theorem sent_prefix_payload (call : Call) (reads : List ReadCall) :
    (call.upload reads).sent <+: call.payload := by
  obtain ⟨-, -, hpos, hsent⟩ := call.streams_upload reads
  rw [hsent, payload_eq]
  exact List.take_prefix_take_left hpos

/-- **A request that arrives complete carries the body**: whatever capacities the transport reads
with, and whichever reads fail on the way, what has been sent once it is as long as announced is the
payload. -/
theorem sent_eq_payload {call : Call} {reads : List ReadCall}
    (h : (call.upload reads).sent.length = call.bodyLen) :
    (call.upload reads).sent = call.payload := by
  obtain ⟨-, -, hpos, hsent⟩ := call.streams_upload reads
  have hall : (call.upload reads).pos = call.bodyLen := by
    rw [hsent, List.length_take] at h
    omega
  rw [hsent, hall, payload_eq]

theorem upload_payload {call : Call} (hmethod : (call.isPut || call.isPost) = true)
    (hlen : call.payload.length = call.bodyLen) :
    (call.upload [{ capacity := call.bodyLen }]).failed = false ∧
      (call.upload [{ capacity := call.bodyLen }]).sent = call.payload := by
  rw [upload, if_pos hmethod, List.foldl_cons, List.foldl_nil, uploadRead]
  dsimp only
  rw [Nat.sub_zero, min_self]
  by_cases hempty : call.bodyLen = 0
  · rw [if_pos (.inr hempty)]
    exact ⟨rfl, (List.eq_nil_of_length_eq_zero (hlen.trans hempty)).symm⟩
  · rw [if_neg (by simp [hempty])]
    rw [payload, bodyLen] at hlen ⊢
    cases hfile : call.bodyFile with
    | none => simp
    | some f =>
      rw [hfile] at hlen
      dsimp only at hlen
      simp [fread, hlen]

end Call

end Nanos3Reader
