import Nanos3Reader.Client.Requests

/-!
# Making a client

`S3Client`'s constructor decides once, from its options and from the environment, where requests go
and with which credentials, and whether the client refuses to make any. It refuses when it is given
half a pair of keys, and when the endpoint is plain HTTP without permission.
-/

open ByteText

namespace Nanos3Reader

structure ClientOptions where
  accessKeyId : Bytes := []
  secretAccessKey : Bytes := []
  sessionToken : Bytes := []
  region : Bytes := []
  endpoint : Bytes := []
  allowHttp : Bool := false

def awsProfile (h : Host) : Bytes :=
  Credentials.envOr h (utf8 "AWS_PROFILE")
    (Credentials.envOr h (utf8 "AWS_DEFAULT_PROFILE") (utf8 "default"))

namespace ClientOptions

variable (options : ClientOptions) (h : Host)

def haveAk : Bool := options.accessKeyId ≠ []

def haveSk : Bool := options.secretAccessKey ≠ []

/-- The region asked for, or that of the environment, or that of the profile. -/
def regionOr : Bytes :=
  let region :=
    if options.region = [] then
      Credentials.envOr h (utf8 "AWS_REGION") (Credentials.envOr h (utf8 "AWS_DEFAULT_REGION") [])
    else options.region
  let region :=
    if region = [] then (Credentials.loadProfile h (awsProfile h) {} region).2 else region
  if region = [] then utf8 "us-east-1" else region

def endpointOr : Bytes :=
  if options.endpoint = [] then Credentials.envOr h (utf8 "AWS_ENDPOINT_URL") []
  else options.endpoint

/-- Plain HTTP is allowed by the options or by the environment. -/
def mayUseHttp : Bool :=
  options.allowHttp || (Credentials.envOr h (utf8 "AWS_ALLOW_HTTP") []).map toLower = utf8 "true"

/-- Why the client refuses all calls, if it does. -/
def refusal : Bytes :=
  let refusal :=
    if options.haveAk ≠ options.haveSk then
      utf8 "ClientOptions: access_key_id and secret_access_key must be given together"
    else []
  if refusal = [] ∧ (utf8 "http://").isPrefixOf (options.endpointOr h) ∧
      options.mayUseHttp h = false
  then
    utf8 "endpoint " ++ options.endpointOr h ++
      utf8 " is plain HTTP; set ClientOptions::allow_http (or AWS_ALLOW_HTTP=true) to allow it"
  else refusal

end ClientOptions

/-- The constructor, in the environment of `h`. -/
def ClientImpl.create (h : Host) (options : ClientOptions) : ClientImpl where
  cfg :=
    { region := options.regionOr h
      endpoint := options.endpointOr h
      pathStyle := options.endpointOr h ≠ []
      maxAttempts := kClientRetries + 1 }
  fixedCreds :=
    if options.haveAk && options.haveSk then
      some
        { accessKey := options.accessKeyId
          secretKey := options.secretAccessKey
          sessionToken := options.sessionToken }
    else none
  refusal := options.refusal h

end Nanos3Reader
