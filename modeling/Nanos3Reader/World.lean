import Nanos3Reader.Credentials.Provider
import Nanos3Reader.DiskCache
import Nanos3Reader.Transport

/-!
# The world around the reader

`Outside` is everything the reader does not decide: the clock, the machine credentials are resolved
on, how a transfer goes, which file operations fail. Each of these is asked at a *moment*, and the
moment advances with every question, so that the same question may be answered differently every
time. `World` is what the reader's calls on one thread share, and changes from call to call.
-/

open ByteText

namespace Nanos3Reader

/-- What the reader depends on and does not decide. -/
structure Outside where
  host : ℕ → Host
  clock : ℕ → Instant
  amzNow : ℕ → Bytes
  /-- Whether `curl_easy_init` succeeds. -/
  curlInit : ℕ → Bool
  perform : ℕ → HttpRequest → Transfer
  strerror : CurlCode → Bytes
  io : ℕ → FileIo
  sha256Raw : Bytes → Bytes

/-- Surroundings in which nothing fails: a machine without files or variables, and a server given by
its answers. -/
def Outside.answering (perform : ℕ → HttpRequest → Transfer) : Outside where
  host _ :=
    { getenv _ := none, file _ := none, popen _ := none, strptime _ := none
      metadata _ _ := { ok := false } }
  clock m := m
  amzNow _ := utf8 "20260101T000000Z"
  curlInit _ := true
  perform := perform
  strerror _ := utf8 "error"
  io m := { now := m }
  sha256Raw := id

/-- What the calls on one thread share: the credential provider, the disk cache, the thread's last
error, and the requests sent so far. -/
structure World where
  moment : ℕ := 0
  provider : CredentialProvider
  cache : DiskCache := {}
  lastError : Bytes := []
  sent : List HttpRequest := []

namespace World

/-- Asks the provider for credentials. -/
def getCredentials (w : World) (env : Outside) : Credentials × World :=
  let (cred, provider) := w.provider.get (env.host w.moment) (env.clock w.moment)
  (cred, { w with provider := provider, moment := w.moment + 1 })

/-- Looks a block up in the cache, if that is on. -/
def tryLoad (w : World) (env : Outside) (k : BlockKey) : Option Bytes × World :=
  if w.cache.enabled then
    let (block, cache) := w.cache.tryLoad (env.io w.moment) k
    (block, { w with cache := cache, moment := w.moment + 1 })
  else (none, w)

theorem tryLoad_of_disabled {w : World} (hoff : w.cache.enabled = false) (env : Outside)
    (k : BlockKey) : w.tryLoad env k = (none, w) :=
  if_neg (by simp [hoff])

/-- Sends a request. -/
def perform (w : World) (env : Outside) (req : HttpRequest) : Transfer × World :=
  (env.perform w.moment req, { w with moment := w.moment + 1, sent := w.sent ++ [req] })

/-- Stores a block in the cache; `none` when that never returns. -/
def store (w : World) (env : Outside) (k : BlockKey) (data : Bytes) : Option World :=
  (w.cache.store (env.io w.moment) k data).map fun cache ↦
    { w with cache := cache, moment := w.moment + 1 }

end World

end Nanos3Reader
