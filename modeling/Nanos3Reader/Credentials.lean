import Nanos3Reader.Lib.ByteText

/-!
# Credential resolution

`CredentialProvider::resolve` walks a chain: the environment, the profile's sections of the two
shared files, the profile's `credential_process` helper, the ECS container endpoint, the EC2
instance metadata. Each source has a loader that writes into a record of credentials, and every
loader but one writes all of its fields at once. The exception is `load_profile`, which fills the
record field by field from two files.

`Host` is what a resolution can see: environment variables, files, the output of a command, and the
metadata endpoints. A metadata endpoint may answer differently every time it is asked, so its reply
depends on the requests sent before.
-/

open ByteText

namespace Nanos3Reader

/-- An instant of `system_clock`, in its ticks. -/
abbrev Instant := ℤ

/-- `Credentials`; without an expiry they are static. -/
structure Credentials where
  accessKey : Bytes := []
  secretKey : Bytes := []
  sessionToken : Bytes := []
  expiry : Option Instant := none
deriving DecidableEq

def Credentials.valid (c : Credentials) : Bool := c.accessKey ≠ [] && c.secretKey ≠ []

/-- A request to a metadata endpoint. -/
structure MetaRequest where
  url : Bytes
  headers : List Bytes
  put : Bool
deriving DecidableEq

/-- How such a request ends: whether there was a handle for it, whether the transfer went through,
the status and the body. -/
structure MetaReply where
  handle : Bool := true
  ok : Bool := true
  code : ℤ := 200
  body : Bytes := []

/-- What a resolution can see of the machine it runs on. -/
structure Host where
  getenv : Bytes → Option Bytes
  /-- The contents of the file at a path; `none` when it cannot be opened. -/
  file : Bytes → Option Bytes
  /-- What a command writes to its standard output; `none` when it cannot be started. -/
  popen : Bytes → Option Bytes
  /-- `strptime` with the format of `parse_iso8601`, followed by `timegm` and `from_time_t`. -/
  strptime : Bytes → Option Instant
  metadata : List MetaRequest → MetaRequest → MetaReply

namespace Credentials

/-! ## Reading text -/

def envOr (h : Host) (name fallback : Bytes) : Bytes :=
  match h.getenv name with
  | none => fallback
  | some v => if v = [] then fallback else v

/-- The bytes `trim_ws` strips: space, tab, carriage return, newline. -/
def isWs (c : UInt8) : Bool := c = 32 || c = 9 || c = 13 || c = 10

def trimWs (s : Bytes) : Bytes := trimBy isWs s

/-- The `std::map` of a section: keys are distinct, and the last assignment to a key counts. -/
abbrev Section := List (Bytes × Bytes)

def Section.find (kv : Section) (key : Bytes) : Option Bytes := kv.lookup key

def Section.assign (kv : Section) (key value : Bytes) : Section :=
  (key, value) :: kv.filter fun p ↦ p.1 ≠ key

/-- One line of an INI file: the section it leaves open, and the pairs read so far. -/
def iniLine (sectionName : Bytes) (st : Bytes × Section) (line : Bytes) : Bytes × Section :=
  let s := trimWs line
  if s = [] ∨ s.head? = some 35 ∨ s.head? = some 59 then st
  else if s.head? = some 91 ∧ s.getLast? = some 93 then
    (trimWs ((s.drop 1).take (s.length - 2)), st.2)
  else if st.1 ≠ sectionName then st
  else
    match cut [61] s with
    | none => st
    | some (key, value) => (st.1, st.2.assign (trimWs key) (trimWs value))

/-- `parse_ini_section`. Blank lines are skipped, so it does not matter that splitting at newlines
finds one after a final newline. -/
def parseIniSection (h : Host) (path sectionName : Bytes) : Section :=
  match h.file path with
  | none => []
  | some text => ((text.splitOn 10).foldl (iniLine sectionName) ([], [])).2

/-- `json_field`: the string value of a key of a flat JSON object, or nothing. -/
def jsonField (body key : Bytes) : Bytes :=
  match cut ([34] ++ key ++ [34]) body with
  | none => []
  | some (_, rest) =>
    match cut [58] rest with
    | none => []
    | some (_, rest) =>
      match rest.dropWhile fun c ↦ c = 32 || c = 9 with
      | [] => []
      | c :: rest =>
        if c ≠ 34 then []
        else
          match cut [34] rest with
          | none => []
          | some (value, _) => value

def parseIso8601 (h : Host) (s : Bytes) : Option Instant :=
  if s = [] then none else h.strptime (cStr s)

/-! ## The shared files -/

def credPath (h : Host) : Bytes :=
  let home := envOr h (utf8 "HOME") []
  envOr h (utf8 "AWS_SHARED_CREDENTIALS_FILE")
    (if home = [] then [] else home ++ utf8 "/.aws/credentials")

def confPath (h : Host) : Bytes :=
  let home := envOr h (utf8 "HOME") []
  envOr h (utf8 "AWS_CONFIG_FILE") (if home = [] then [] else home ++ utf8 "/.aws/config")

/-- The config file names the sections of all profiles but one `profile <name>`. -/
def confSection (profile : Bytes) : Bytes :=
  if profile = utf8 "default" then utf8 "default" else utf8 "profile " ++ profile

/-- The profile's section of the credentials file. -/
def credKv (h : Host) (profile : Bytes) : Section :=
  if credPath h = [] then [] else parseIniSection h (credPath h) profile

/-- The profile's section of the config file. -/
def confKv (h : Host) (profile : Bytes) : Section :=
  if confPath h = [] then [] else parseIniSection h (confPath h) (confSection profile)

/-- `load_profile`: the record and the region, filled from the credentials file and then, where a
field is still empty, from the config file. -/
def loadProfile (h : Host) (profile : Bytes) (cred : Credentials) (region : Bytes) :
    Credentials × Bytes :=
  let kv := credKv h profile
  let cred := { cred with
    accessKey := (kv.find (utf8 "aws_access_key_id")).getD cred.accessKey
    secretKey := (kv.find (utf8 "aws_secret_access_key")).getD cred.secretKey
    sessionToken := (kv.find (utf8 "aws_session_token")).getD cred.sessionToken }
  let region := (kv.find (utf8 "region")).getD region
  let kv := confKv h profile
  ({ cred with
      accessKey := if cred.accessKey = [] then
        (kv.find (utf8 "aws_access_key_id")).getD cred.accessKey else cred.accessKey
      secretKey := if cred.secretKey = [] then
        (kv.find (utf8 "aws_secret_access_key")).getD cred.secretKey else cred.secretKey
      sessionToken := if cred.sessionToken = [] then
        (kv.find (utf8 "aws_session_token")).getD cred.sessionToken else cred.sessionToken },
    if region = [] then (kv.find (utf8 "region")).getD region else region)

/-! ## `credential_process` -/

/-- A non-empty value of `key`. -/
def Section.findNonempty (kv : Section) (key : Bytes) : Option Bytes :=
  (kv.find key).filter fun v ↦ v ≠ []

def profileCredentialProcess (h : Host) (profile : Bytes) : Bytes :=
  match (credKv h profile).findNonempty (utf8 "credential_process") with
  | some cmd => cmd
  | none => ((confKv h profile).findNonempty (utf8 "credential_process")).getD []

/-- The reading loop of `load_credential_process`: 4096 bytes at a time, until more than 1 MiB has
come in or nothing is left. -/
def drain (out rest : Bytes) : Bytes :=
  if hrest : rest = [] then out
  else if 2 ^ 20 < (out ++ rest.take 4096).length then out ++ rest.take 4096
  else drain (out ++ rest.take 4096) (rest.drop 4096)
termination_by rest.length
decreasing_by
  have hpos : 0 < rest.length := List.length_pos_of_ne_nil hrest
  rw [List.length_drop]
  omega

def loadCredentialProcess (h : Host) (profile : Bytes) (cred : Credentials) : Bool × Credentials :=
  let cmd := profileCredentialProcess h profile
  if cmd = [] then (false, cred)
  else
    match h.popen (cStr cmd) with
    | none => (false, cred)
    | some stdout =>
      let out := drain [] stdout
      let cred : Credentials :=
        { accessKey := jsonField out (utf8 "AccessKeyId")
          secretKey := jsonField out (utf8 "SecretAccessKey")
          sessionToken := jsonField out (utf8 "SessionToken")
          expiry := parseIso8601 h (jsonField out (utf8 "Expiration")) }
      (cred.valid, cred)

/-! ## Metadata endpoints -/

/-- `fill_creds_from_json`: every field is assigned, found or not. -/
def fillCredsFromJson (h : Host) (body : Bytes) : Credentials where
  accessKey := jsonField body (utf8 "AccessKeyId")
  secretKey := jsonField body (utf8 "SecretAccessKey")
  sessionToken := jsonField body (utf8 "Token")
  expiry := parseIso8601 h (jsonField body (utf8 "Expiration"))

/-- `http_metadata`: whether it succeeded, the body, and the requests sent by then. `out` is what
the caller passed, which an endpoint never asked leaves as it is. -/
def httpMetadata (h : Host) (log : List MetaRequest) (url : Bytes) (headers : List Bytes)
    (put : Bool)
    (out : Bytes) : Bool × Bytes × List MetaRequest :=
  let req : MetaRequest := ⟨cStr url, headers.map cStr, put⟩
  let reply := h.metadata log req
  if !reply.handle then (false, out, log)
  else (reply.ok && 200 ≤ reply.code && reply.code < 300, reply.body, log ++ [req])

def loadEcs (h : Host) (log : List MetaRequest) (cred : Credentials) :
    Bool × Credentials × List MetaRequest :=
  let rel := envOr h (utf8 "AWS_CONTAINER_CREDENTIALS_RELATIVE_URI") []
  let full := envOr h (utf8 "AWS_CONTAINER_CREDENTIALS_FULL_URI") []
  if rel = [] ∧ full = [] then (false, cred, log)
  else
    let url := if rel ≠ [] then utf8 "http://169.254.170.2" ++ rel else full
    let token := envOr h (utf8 "AWS_CONTAINER_AUTHORIZATION_TOKEN") []
    let headers := if token ≠ [] then [utf8 "Authorization: " ++ token] else []
    let (ok, body, log) := httpMetadata h log url headers false []
    if !ok then (false, cred, log)
    else
      let cred := fillCredsFromJson h body
      (cred.valid, cred, log)

/-- The name of the first role of a listing. -/
def firstRole (listing : Bytes) : Bytes :=
  match cut [10] (trimWs listing) with
  | none => trimWs listing
  | some (role, _) => trimWs role

def loadImds (h : Host) (log : List MetaRequest) (cred : Credentials) :
    Bool × Credentials × List MetaRequest :=
  let base := utf8 "http://169.254.169.254"
  -- Whether the PUT succeeded is not looked at: a body is taken for a token either way.
  let (_, token, log) := httpMetadata h log (base ++ utf8 "/latest/api/token")
    [utf8 "X-aws-ec2-metadata-token-ttl-seconds: 21600"] true []
  let headers := if token ≠ [] then [utf8 "X-aws-ec2-metadata-token: " ++ token] else []
  let roles := base ++ utf8 "/latest/meta-data/iam/security-credentials/"
  let (ok, listing, log) := httpMetadata h log roles headers false []
  if !ok then (false, cred, log)
  else
    let role := firstRole listing
    if role = [] then (false, cred, log)
    else
      let (ok, body, log) := httpMetadata h log (roles ++ role) headers false []
      if !ok then (false, cred, log)
      else
        let cred := fillCredsFromJson h body
        (cred.valid, cred, log)

/-! ## The chain -/

/-- `describe_profile_gap`: why the profile yielded no static keys. -/
def describeProfileGap (h : Host) (profile : Bytes) : Bytes :=
  let credOk := credPath h ≠ [] && (h.file (credPath h)).isSome
  let confOk := confPath h ≠ [] && (h.file (confPath h)).isSome
  if !credOk && !confOk then
    utf8 "no profile files (looked for '" ++ credPath h ++ utf8 "' and '" ++ confPath h ++ utf8 "')"
  else
    let credKv := if credOk then parseIniSection h (credPath h) profile else []
    let confKv := if confOk then parseIniSection h (confPath h) (confSection profile) else []
    let named := utf8 "profile '" ++ profile
    let has (kv : Section) (key : String) : Bool := (kv.find (utf8 key)).isSome
    if credKv = [] ∧ confKv = [] then named ++ utf8 "' not found in the profile files"
    else if has confKv "credential_process" || has credKv "credential_process" then
      named ++ utf8 "' credential_process helper failed or returned no usable credentials"
    else if has confKv "sso_session" || has confKv "sso_account_id" ||
        has confKv "sso_start_url" then
      named ++ utf8
        ("' uses AWS SSO, which the built-in reader does not resolve — run 'aws sso login', "
        ++ "then export AWS_ACCESS_KEY_ID/AWS_SECRET_ACCESS_KEY/AWS_SESSION_TOKEN to env")
    else if has confKv "role_arn" || has confKv "source_profile" then
      named ++ utf8
        ("' uses assume-role, which the built-in reader does not perform — export creds "
        ++ "to env")
    else named ++ utf8 "' has no aws_access_key_id/aws_secret_access_key"

/-- What `resolve` gives, and the requests to metadata services that it has sent. -/
def resolveSending (h : Host) (profile : Bytes) (out : Credentials) (diag : Bytes) :
    (Bool × Credentials × Bytes) × List MetaRequest :=
  let ak := envOr h (utf8 "AWS_ACCESS_KEY_ID") []
  let sk := envOr h (utf8 "AWS_SECRET_ACCESS_KEY") []
  if ak ≠ [] ∧ sk ≠ [] then
    ((true,
      { out with
        accessKey := ak
        secretKey := sk
        sessionToken := envOr h (utf8 "AWS_SESSION_TOKEN") []
        expiry := none },
      diag), [])
  else
    let notes := utf8 "env: AWS_ACCESS_KEY_ID/AWS_SECRET_ACCESS_KEY not set"
    let prof := (loadProfile h profile {} []).1
    if prof.valid then ((true, { prof with expiry := none }, diag), [])
    else
      let (ok, out) := loadCredentialProcess h profile out
      if ok then ((true, out, diag), [])
      else
        let notes := notes ++ utf8 "; profile: " ++ describeProfileGap h profile
        let inContainer := envOr h (utf8 "AWS_CONTAINER_CREDENTIALS_RELATIVE_URI") [] ≠ []
          ∨ envOr h (utf8 "AWS_CONTAINER_CREDENTIALS_FULL_URI") [] ≠ []
        let (ok, out, log) := if inContainer then loadEcs h [] out else (false, out, [])
        if ok then ((true, out, diag), log)
        else
          let notes := if inContainer then
            notes ++ utf8 "; ECS: container endpoint returned no usable creds" else notes
          let (ok, out, log) := loadImds h log out
          if ok then ((true, out, diag), log)
          else
            ((false, out, notes ++
              utf8 "; IMDS: no EC2 instance role (metadata endpoint unreachable or empty)"), log)

/-- `resolve`: whether credentials were found, the record `out` after it, and the diagnostic. -/
def resolve (h : Host) (profile : Bytes) (out : Credentials) (diag : Bytes) :
    Bool × Credentials × Bytes :=
  (resolveSending h profile out diag).1

end Credentials

end Nanos3Reader
