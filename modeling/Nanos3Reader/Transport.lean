import Nanos3Reader.Lib.ByteText
import Nanos3Reader.Credentials

/-!
# The transport

What the reader sees of libcurl: a request goes in, and a result code, a status, header lines and a
body come back, the last two in pieces through callbacks.
-/

open ByteText

namespace Nanos3Reader

/-- `CURLcode`, with the codes the reader tells apart. -/
inductive CurlCode where
  | ok
  | operationTimedout | couldntConnect | couldntResolveHost | couldntResolveProxy
  | sendError | recvError | gotNothing | partialFile | sslConnectError
  | readError
  | other (n : ℕ)
deriving DecidableEq

def isRetriableCurl : CurlCode → Bool
  | .operationTimedout | .couldntConnect | .couldntResolveHost | .couldntResolveProxy
  | .sendError | .recvError | .gotNothing | .partialFile | .sslConnectError => true
  | .ok | .readError | .other _ => false

/-- The statuses worth another attempt. -/
def isRetriableStatus (code : ℕ) : Bool :=
  code = 500 || code = 502 || code = 503 || code = 504 || code = 429

/-- A request as it is handed to libcurl. `query` is what follows the question mark of its URL,
`range` what its `Range` header line asks for, and `bodyLen` how long its body is said to be. -/
structure HttpRequest where
  method : Bytes
  url : Bytes
  query : Bytes := []
  headers : List Bytes
  range : Option (ℕ × ℕ) := none
  bodyLen : Option ℕ := none
deriving DecidableEq

/-- One call of the read callback: how many bytes it may return, and, when the body is a file,
whether the seek succeeds and after how many bytes the read ends early. -/
structure ReadCall where
  capacity : ℕ
  seeks : Bool := true
  short : Option ℕ := none

/-- How a transfer went: `curl_easy_perform`'s result, the status, the announced length of the body,
and the calls of the callbacks. -/
structure Transfer where
  rc : CurlCode := .ok
  code : ℕ
  contentLength : ℤ := -1
  headerLines : List Bytes := []
  chunks : List Bytes := []
  reads : List ReadCall := []

/-- The prefix of a header line, lowercased, is the header's name and colon. -/
def isHeader (key line : Bytes) : Bool := (line.take key.length).map toLower = key

/-- `capture_region_header`, on one header line. -/
def captureRegionHeader (region line : Bytes) : Bytes :=
  let key := utf8 "x-amz-bucket-region:"
  if isHeader key line then Credentials.trimWs (line.drop key.length) else region

/-! ## Header fields as the server gets them -/

/-- White space, as libcurl and HTTP skip it around the value of a header. -/
def isSpace (c : UInt8) : Bool := c = 32 || (9 ≤ c && c ≤ 13)

/-- The value a line gives to the field `key`, a lowercase name with its colon. A line with nothing
but white space behind the colon is not sent. -/
def fieldValue (key line : Bytes) : Option Bytes :=
  let value := trimBy isSpace (line.drop key.length)
  if isHeader key line ∧ value ≠ [] then some value else none

def HttpRequest.field (req : HttpRequest) (key : Bytes) : Option Bytes :=
  req.headers.findSome? (fieldValue key)

/-- The lines that a server gets of a header line. One with nothing but white space behind the colon
is not sent, and a line break within one ends it. -/
def arrivedLines (line : Bytes) : List Bytes :=
  if ((line.dropWhile (· ≠ 58)).drop 1).any fun c ↦ !isSpace c then
    line.splitOnP fun c ↦ c = 13 || c = 10
  else []

/-- A line whose name differs within the first `n` bytes gives no value. -/
theorem fieldValue_cStr_append {key name : Bytes} (n : ℕ) (hkey : n ≤ key.length)
    (hname : n ≤ name.length) (h : (name.take n).map toLower ≠ key.take n) (h0 : 0 ∉ name)
    (rest : Bytes) : fieldValue key (cStr (name ++ rest)) = none := by
  have hother : isHeader key (name ++ cStr rest) = false := by
    rw [isHeader, decide_eq_false_iff_not]
    intro heq
    have htake := congrArg (List.take n) heq
    rw [← List.map_take, List.take_take, min_eq_left hkey, List.take_append_of_le_length hname]
      at htake
    exact h htake
  rw [fieldValue, cStr_append h0, if_neg (by simp [hother])]

end Nanos3Reader
