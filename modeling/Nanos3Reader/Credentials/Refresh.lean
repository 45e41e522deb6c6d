import Nanos3Reader.Credentials.Expiry
import Nanos3Reader.Lib.Events

/-!
# Refreshing credentials

What a run of `CredentialProvider::get` hands out over time, and how often it asks the chain. Static
credentials are asked for once. The interesting runs have temporary ones, and a chain that fails
about the time they expire.
-/

open ByteText

namespace Nanos3Reader

/-- The expiry is at `now` or before. -/
def Credentials.expired (c : Credentials) (now : Instant) : Bool := c.expiry.any (· ≤ now)

/-- A call of `get`: the machine it finds, and its time. -/
structure GetCall where
  host : Host
  now : Instant

namespace CredentialProvider

/-- Whether `get` asks the chain. -/
def resolves (p : CredentialProvider) (now : Instant) : Bool :=
  !(p.cached.valid && lastsFiveMinutes p.cached now) &&
    !(!p.cached.valid && p.attempted && now < p.lastAttempt + 2 * ticksPerSecond)

/-- What the chain answers. -/
def resolution (p : CredentialProvider) (h : Host) : Bool × Credentials × Bytes :=
  Credentials.resolve h p.profile {} []

section

variable {p : CredentialProvider} {h : Host} {now : Instant}

theorem get_of_not_resolves (hp : p.resolves now = false) : p.get h now = (p.cached, p) := by
  rw [get]
  split
  · rfl
  · next hlasts =>
    rw [if_pos (by simpa [resolves, hlasts] using hp)]

theorem get_of_resolves (hp : p.resolves now = true) :
    p.get h now =
      if (p.resolution h).1 then
        ((p.resolution h).2.1,
          { p with
            attempted := true, lastAttempt := now, cached := (p.resolution h).2.1
            lastDiagnostic := [] })
      else
        (p.cached,
          { p with
            attempted := true, lastAttempt := now, lastDiagnostic := (p.resolution h).2.2 }) := by
  rw [resolves, Bool.and_eq_true, Bool.not_eq_true', Bool.not_eq_true'] at hp
  rw [get, if_neg (by simp [hp.1]), if_neg (by simp [hp.2]), resolution]
  rcases Credentials.resolve h p.profile {} [] with ⟨ok, fresh, diag⟩
  cases ok <;> rfl

end

/-! ## What is handed out -/

/-- What a call is to hand out: nothing that has expired, what the chain has just given, and while
that is good what was given before. -/
structure HandsOutGood (p : CredentialProvider) (c : GetCall) : Prop where
  unexpired : (p.get c.host c.now).1.valid = true → (p.get c.host c.now).1.expired c.now = false
  fresh : p.resolves c.now = true → (p.resolution c.host).1 = true →
    (p.get c.host c.now).1 = (p.resolution c.host).2.1
  kept : p.resolves c.now = true → (p.resolution c.host).1 = false →
    p.cached.expired c.now = false → (p.get c.host c.now).1 = p.cached

/-- A chain that is asked does not answer with expired credentials, and does not fail once those it
gave before have expired. -/
def AnsweredInTime (p : CredentialProvider) (c : GetCall) : Prop :=
  p.resolves c.now = true →
    if (p.resolution c.host).1 then (p.resolution c.host).2.1.expired c.now = false
    else p.cached.valid = true → p.cached.expired c.now = false

theorem not_expired_of_lastsFiveMinutes {c : Credentials} {now : Instant}
    (h : lastsFiveMinutes c now = true) : c.expired now = false := by
  cases he : c.expiry with
  | none => simp [Credentials.expired, he]
  | some e =>
    have hlt : now < e - 300 * ticksPerSecond := by simpa [lastsFiveMinutes, he] using h
    have hmargin : e - 300 * ticksPerSecond ≤ e := sub_le_self e (by decide)
    simp only [Credentials.expired, he, Option.any_some, decide_eq_false_iff_not]
    exact not_le.mpr (hlt.trans_le hmargin)

theorem handsOutGood_iff (p : CredentialProvider) (c : GetCall) :
    p.HandsOutGood c ↔ p.AnsweredInTime c := by
  cases hres : p.resolves c.now with
  | false =>
    refine iff_of_true ⟨fun hvalid ↦ ?_, ?_, ?_⟩ ?_
    · -- without asking, valid credentials are handed out only for another five minutes
      rw [get_of_not_resolves hres] at hvalid ⊢
      have hlasts : lastsFiveMinutes p.cached c.now = true := by
        simpa [resolves, show p.cached.valid = true from hvalid] using hres
      exact not_expired_of_lastsFiveMinutes hlasts
    · exact fun h ↦ absurd (hres ▸ h) (by decide)
    · exact fun h ↦ absurd (hres ▸ h) (by decide)
    · exact fun h ↦ absurd (hres ▸ h) (by decide)
  | true =>
    rw [AnsweredInTime, hres]
    cases hok : (p.resolution c.host).1 with
    | true =>
      have hvalid : (p.resolution c.host).2.1.valid = true := valid_of_resolve hok
      have hget : (p.get c.host c.now).1 = (p.resolution c.host).2.1 := by
        rw [get_of_resolves hres, if_pos hok]
      constructor
      · intro h _
        exact hget ▸ h.unexpired (hget ▸ hvalid)
      · intro h
        exact ⟨fun _ ↦ hget ▸ h rfl, fun _ _ ↦ hget, fun _ h' ↦ absurd (hok ▸ h') (by decide)⟩
    | false =>
      have hget : (p.get c.host c.now).1 = p.cached := by
        rw [get_of_resolves hres, if_neg (by simp [hok])]
      constructor
      · intro h _ hvalid
        exact hget ▸ h.unexpired (hget ▸ hvalid)
      · intro h
        exact ⟨fun hvalid ↦ hget ▸ h rfl (hget ▸ hvalid),
          fun _ h' ↦ absurd (hok ▸ h') (by decide), fun _ _ _ ↦ hget⟩

/-- The provider after a call. -/
def after (p : CredentialProvider) (c : GetCall) : CredentialProvider := (p.get c.host c.now).2

/-- Every call of a run hands out what it is to hand out if and only if the chain answers every one
of them in time. -/
theorem handsOutGood_throughout_iff (profile : Bytes) (calls : List GetCall) :
    Events.Throughout after HandsOutGood (create profile) calls ↔
      Events.Throughout after AnsweredInTime (create profile) calls :=
  Events.throughout_congr handsOutGood_iff _ _

/-! ## How often the chain is asked -/

/-- A resolution: when it starts and what is cached then, and whether it succeeds. -/
structure Resolution where
  now : Instant
  held : Credentials
  ok : Bool
deriving DecidableEq

/-- A call, with the resolution it makes. -/
def callStep (p : CredentialProvider) (c : GetCall) : CredentialProvider × Option Resolution :=
  (p.after c,
    if p.resolves c.now then some ⟨c.now, p.cached, (p.resolution c.host).1⟩ else none)

/-- The resolutions of a run. -/
def resolutions (profile : Bytes) (calls : List GetCall) : List Resolution :=
  Events.events callStep (create profile) calls

/-- The next resolution waits for two seconds after a failed one. -/
def Spaced (a b : Resolution) : Prop := a.ok = false → a.now + 2 * ticksPerSecond ≤ b.now

/-- The provider knows the time of the last resolution. -/
def Remembers (p : CredentialProvider) (last : Option Resolution) : Prop :=
  ∀ a ∈ last, p.attempted = true ∧ p.lastAttempt = a.now

/-- As long as nothing usable is cached, resolutions are spaced out. -/
theorem isChain_resolutions (profile : Bytes) (calls : List GetCall) :
    (resolutions profile calls).IsChain fun a b ↦ b.held.valid = false → Spaced a b := by
  have hquiet : ∀ p c last, Remembers p last → (callStep p c).2 = none →
      Remembers (callStep p c).1 last := by
    intro p c last hp hnone
    have hres : p.resolves c.now = false := by simpa [callStep] using hnone
    rw [callStep, after, get_of_not_resolves hres]
    exact hp
  have hevent : ∀ p c last b, Remembers p last → (callStep p c).2 = some b →
      (∀ a ∈ last, b.held.valid = false → Spaced a b) ∧ Remembers (callStep p c).1 (some b) := by
    intro p c last b hp hsome
    obtain ⟨hres, rfl⟩ : p.resolves c.now = true ∧
        ⟨c.now, p.cached, (p.resolution c.host).1⟩ = b := by simpa [callStep] using hsome
    refine ⟨fun a ha hvalid _ ↦ ?_, fun a ha ↦ ?_⟩
    · obtain ⟨hattempted, hlast⟩ := hp a ha
      have hwaited : ¬c.now < p.lastAttempt + 2 * ticksPerSecond := by
        simpa [resolves, show p.cached.valid = false from hvalid, hattempted] using hres
      rw [← hlast]
      exact not_lt.mp hwaited
    · obtain rfl := Option.some.inj ha
      rw [callStep, after, get_of_resolves hres]
      split <;> exact ⟨rfl, rfl⟩
  have hstart : Remembers (create profile) none := fun a ha ↦ absurd ha (by simp)
  exact Events.isChain_events hquiet hevent hstart calls

/-! ## A container that loses its endpoint -/

/-- A machine in a container, whose endpoint gives out credentials that last for the first minute of
2025, or does not answer. -/
def inContainer (up : Bool) : Host where
  getenv name :=
    if name = utf8 "AWS_CONTAINER_CREDENTIALS_RELATIVE_URI" then some (utf8 "/role") else none
  file _ := none
  popen _ := none
  strptime := Credentials.posixInstant
  metadata _ _ :=
    { ok := up
      body := utf8 ("\"AccessKeyId\": \"A\", \"SecretAccessKey\": \"S\", " ++
        "\"Expiration\": \"2025-01-01T00:01:00Z\"") }

/-- Midnight, and some seconds. -/
def newYear (seconds : ℤ) : Instant := (1735689600 + seconds) * ticksPerSecond

/-- Credentials for a minute, and a refresh that fails after an hour. -/
def outage : List GetCall := [⟨inContainer true, newYear 0⟩, ⟨inContainer false, newYear 3600⟩]

/-- The second call hands out the credentials of the first. -/
theorem not_handsOutGood_outage :
    (outage.map GetCall.now).Pairwise (· ≤ ·) ∧
      ¬Events.Throughout after HandsOutGood (create (utf8 "default")) outage := by
  refine ⟨by decide, ?_⟩
  rintro ⟨-, h, -⟩
  have hexpired := h.unexpired (by decide +kernel)
  revert hexpired
  decide +kernel

/-- Credentials for a minute, and two refreshes that fail in the same second. -/
def hammering : List GetCall :=
  [⟨inContainer true, newYear 0⟩, ⟨inContainer false, newYear 1⟩, ⟨inContainer false, newYear 1⟩]

/-- With credentials cached that last for less than five minutes, the second failed resolution
follows the first at once. -/
theorem not_spaced_hammering :
    (hammering.map GetCall.now).Pairwise (· ≤ ·) ∧
      ¬(resolutions (utf8 "default") hammering).IsChain Spaced := by
  refine ⟨by decide, ?_⟩
  have hmade : resolutions (utf8 "default") hammering =
      [⟨newYear 0, {}, true⟩,
        ⟨newYear 1, ⟨utf8 "A", utf8 "S", [], some (newYear 60)⟩, false⟩,
        ⟨newYear 1, ⟨utf8 "A", utf8 "S", [], some (newYear 60)⟩, false⟩] := by
    decide +kernel
  rw [hmade, List.isChain_cons_cons, List.isChain_pair]
  rintro ⟨-, h⟩
  exact absurd (h rfl) (by decide)

end CredentialProvider

end Nanos3Reader
