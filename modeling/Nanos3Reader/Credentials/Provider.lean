import Nanos3Reader.Credentials.SingleSource

/-!
# The credential provider

`CredentialProvider` caches what the chain resolved and asks it again shortly before temporary
credentials expire. A failed resolution leaves the cached credentials in place, so once the provider
has handed out usable credentials it never hands out unusable ones.
-/

open ByteText

namespace Nanos3Reader

/-- Ticks of `system_clock` in a second. -/
def ticksPerSecond : ℤ := 10 ^ 9

structure CredentialProvider where
  profile : Bytes
  cached : Credentials := {}
  /-- `diagnostic_`, empty unless the last resolution failed. -/
  lastDiagnostic : Bytes := []
  attempted : Bool := false
  lastAttempt : Instant := 0

namespace CredentialProvider

/-- The constructor. -/
def create (profile : Bytes) : CredentialProvider := { profile := profile }

/-- The credentials are good for another five minutes. -/
def lastsFiveMinutes (c : Credentials) (now : Instant) : Bool :=
  match c.expiry with
  | none => true
  | some expiry => now < expiry - 300 * ticksPerSecond

/-- `get`, on a machine that looks like `h` at the instant `now`. -/
def get (h : Host) (now : Instant) (p : CredentialProvider) : Credentials × CredentialProvider :=
  if p.cached.valid && lastsFiveMinutes p.cached now then (p.cached, p)
  else if !p.cached.valid && p.attempted && now < p.lastAttempt + 2 * ticksPerSecond then
    (p.cached, p)
  else
    let (ok, fresh, diag) := Credentials.resolve h p.profile {} []
    let p := { p with attempted := true, lastAttempt := now }
    let p := if ok then { p with cached := fresh, lastDiagnostic := [] }
      else { p with lastDiagnostic := diag }
    (p.cached, p)

/-- The requests that `get` sends. -/
def sends (h : Host) (now : Instant) (p : CredentialProvider) : List MetaRequest :=
  if p.cached.valid && lastsFiveMinutes p.cached now then []
  else if !p.cached.valid && p.attempted && now < p.lastAttempt + 2 * ticksPerSecond then []
  else (Credentials.resolveSending h p.profile {} []).2

def diagnostic (p : CredentialProvider) : Bytes :=
  if p.lastDiagnostic = [] then utf8 "no AWS credentials found" else p.lastDiagnostic

theorem valid_of_resolve {h : Host} {profile : Bytes}
    (hok : (Credentials.resolve h profile {} []).1 = true) :
    (Credentials.resolve h profile {} []).2.1.valid = true := by
  have hresolved : Credentials.resolved h profile
      = some (Credentials.resolve h profile {} []).2.1 :=
    if_pos hok
  have hkeys : (Credentials.resolved h profile).map Credentials.keys = _ :=
    Credentials.keys_resolved
  rw [hresolved, Option.map_some] at hkeys
  have hvalid := List.find?_some (p := Keys.valid) hkeys.symm
  exact hvalid

theorem get_fst (h : Host) (now : Instant) (p : CredentialProvider) :
    (p.get h now).1 = (p.get h now).2.cached := by
  rw [get]
  split
  · rfl
  · split <;> rfl

/-- **Usable credentials stay usable.** -/
theorem valid_get (h : Host) (now : Instant) {p : CredentialProvider} (hp : p.cached.valid = true) :
    (p.get h now).2.cached.valid = true := by
  rw [get]
  split
  · exact hp
  · split
    · exact hp
    · dsimp only
      split
      · next hok => exact valid_of_resolve hok
      · exact hp

theorem valid_get_of_resolve {h : Host} (now : Instant) {p : CredentialProvider}
    (hp : p.attempted = false) (hok : (Credentials.resolve h p.profile {} []).1 = true) :
    (p.get h now).2.cached.valid = true := by
  by_cases hc : p.cached.valid = true
  · exact valid_get h now hc
  · have hfalse : p.cached.valid = false := by simpa using hc
    rw [get, if_neg (by simp [hfalse]), if_neg (by simp [hp])]
    dsimp only
    rw [if_pos hok]
    exact valid_of_resolve hok

end CredentialProvider

end Nanos3Reader
