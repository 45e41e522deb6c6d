import Nanos3Reader.Lib.ByteText

/-!
# Request targets

Where a request for an object goes: the `Host` header, the URL and the signed path.
-/

open ByteText

namespace Nanos3Reader

/-- `s3detail::Config` without its credential provider. -/
structure Config where
  region : Bytes
  /-- Empty for virtual-hosted addressing of AWS itself. -/
  endpoint : Bytes
  pathStyle : Bool
  maxAttempts : ℤ

structure Endpoint where
  host : Bytes
  url : Bytes
  path : Bytes

/-- `"0123456789ABCDEF"[d]`. -/
def upperHexDigit (d : UInt8) : UInt8 := if d < 10 then 48 + d else 55 + d

def isAlnum (c : UInt8) : Bool :=
  (65 ≤ c && c ≤ 90) || (97 ≤ c && c ≤ 122) || (48 ≤ c && c ≤ 57)

/-- The bytes percent-encoding leaves alone: letters, digits, `-`, `_`, `.` and `~`. -/
def isUnreserved (c : UInt8) : Bool := isAlnum c || c = 45 || c = 95 || c = 46 || c = 126

/-- Percent-encoding of every byte that `keep` does not admit. -/
def percentEncode (keep : UInt8 → Bool) (s : Bytes) : Bytes :=
  s.flatMap fun c ↦
    if keep c then [c] else [37, upperHexDigit (c >>> (4 : UInt8)), upperHexDigit (c &&& 0x0F)]

/-- `uri_encode_path`: a path keeps its slashes. -/
def uriEncodePath (path : Bytes) : Bytes := percentEncode (fun c ↦ isUnreserved c || c = 47) path

/-- `uri_encode_component`: a query name or value does not. -/
def uriEncodeComponent (s : Bytes) : Bytes := percentEncode isUnreserved s

/-- The scheme of an endpoint, `https://` when it has none, and the rest without final slashes. -/
def splitScheme (endpoint : Bytes) : Bytes × Bytes :=
  let (scheme, rest) :=
    if (utf8 "http://").isPrefixOf endpoint then (utf8 "http://", endpoint.drop 7)
    else if (utf8 "https://").isPrefixOf endpoint then (utf8 "https://", endpoint.drop 8)
    else (utf8 "https://", endpoint)
  (scheme, rest.rdropWhile (· = 47))

def buildEndpoint (cfg : Config) (bucket key region : Bytes) : Endpoint :=
  if cfg.pathStyle then
    let (scheme, host) := splitScheme cfg.endpoint
    let path := uriEncodePath (utf8 "/" ++ bucket ++ utf8 "/" ++ key)
    { host := host, path := path, url := scheme ++ host ++ path }
  else
    let host := bucket ++ utf8 ".s3." ++ region ++ utf8 ".amazonaws.com"
    let path := uriEncodePath (utf8 "/" ++ key)
    { host := host, path := path, url := utf8 "https://" ++ host ++ path }

end Nanos3Reader
