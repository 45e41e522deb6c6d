import Nanos3Reader.Credentials.Provider
import Nanos3Reader.Lib.Rfc3339

/-!
# When credentials expire

`parse_iso8601` reads a date-time up to its seconds and takes it for UTC. What a document means by
its `Expiration` is that instant if the offset is zero, and the letter between date and time is the
upper-case one, and `system_clock` can count so far.
-/

open ByteText Calendar

namespace Nanos3Reader

/-- `system_clock::from_time_t`. The clock counts nanoseconds in 64 bits, and the product wraps. -/
def fromTimeT (seconds : ℤ) : Instant := Int.bmod (seconds * ticksPerSecond) (2 ^ 64)

/-- The instant of a whole number of seconds since the Epoch. -/
def instantOf (seconds : ℤ) : Instant := seconds * ticksPerSecond

namespace Credentials

/-- What `parse_iso8601` makes of a text with the functions of the C library. -/
def posixInstant (s : Bytes) : Option Instant :=
  (strptime (utf8 "%Y-%m-%dT%H:%M:%S") s {}).map fun read ↦ fromTimeT (timegm read.1)

/-- A local time is the instant that is meant, in a clock of 64 bits. -/
def IsUtc (t : DateTime) : Prop :=
  t.separator = 84 ∧ t.offset.seconds = 0 ∧ -2 ^ 63 ≤ instantOf t.seconds ∧
    instantOf t.seconds < 2 ^ 63

instance : DecidablePred IsUtc := fun _ ↦ inferInstanceAs (Decidable (_ ∧ _))

theorem bmod_add_eq_iff {x d : ℤ} {m : ℕ} (hd : |d| < m) :
    Int.bmod (x + d) m = x ↔ d = 0 ∧ Int.bmod x m = x := by
  constructor
  · intro h
    have hdvd : (m : ℤ) ∣ d := by simpa using Int.dvd_self_sub_of_bmod_eq h
    obtain rfl := Int.eq_zero_of_abs_lt_dvd hdvd hd
    exact ⟨rfl, by simpa using h⟩
  · rintro ⟨rfl, h⟩
    simpa using h

theorem bmod_eq_self_iff {x : ℤ} : Int.bmod x (2 ^ 64) = x ↔ -2 ^ 63 ≤ x ∧ x < 2 ^ 63 := by
  rw [Int.bmod_def]
  push_cast
  split <;> omega

theorem fromTimeT_eq_iff {s o : ℤ} (ho : |o| < 86400) : fromTimeT (s + o) = instantOf s
    ↔ o = 0 ∧ -2 ^ 63 ≤ instantOf s ∧ instantOf s < 2 ^ 63 := by
  have hsplit : (s + o) * ticksPerSecond = s * ticksPerSecond + o * ticksPerSecond :=
    Int.add_mul s o _
  have hday : |o * ticksPerSecond| < (2 ^ 64 : ℕ) := by
    rw [ticksPerSecond, abs_lt]
    rw [abs_lt] at ho
    constructor <;> push_cast <;> omega
  have hzero : o * ticksPerSecond = 0 ↔ o = 0 := by
    rw [ticksPerSecond]
    omega
  rw [fromTimeT, instantOf, hsplit, bmod_add_eq_iff hday, hzero, bmod_eq_self_iff]

/-- **A date-time is stored as the instant it names** just when it is written in UTC. -/
theorem parseIso8601_eq_iff {h : Host} (hposix : h.strptime = posixInstant) (t : DateTime) :
    parseIso8601 h t.text = some (instantOf t.seconds) ↔ IsUtc t := by
  rw [parseIso8601, if_neg t.text_ne_nil, cStr_eq_self t.zero_notMem_text, hposix, posixInstant,
    t.strptime_text, IsUtc]
  by_cases hletter : t.separator = 84
  · rw [if_pos hletter, Option.map_some, t.timegm_tm, Option.some.injEq,
      fromTimeT_eq_iff (UtcOffset.abs_seconds_lt t.offset_ok), and_iff_right hletter]
  · rw [if_neg hletter]
    exact iff_of_false (by simp) fun hutc ↦ hletter hutc.1

/-- Five minutes before they expire cached credentials are not handed out any more without asking
for others. -/
theorem lastAttempt_get {h : Host} {p : CredentialProvider} {now expiry : Instant}
    (hvalid : p.cached.valid = true) (hexpiry : p.cached.expiry = some expiry)
    (hnow : expiry - 300 * ticksPerSecond ≤ now) : (p.get h now).2.lastAttempt = now := by
  have hlasts : CredentialProvider.lastsFiveMinutes p.cached now = false := by
    rw [CredentialProvider.lastsFiveMinutes, hexpiry]
    exact decide_eq_false (not_lt.mpr hnow)
  rw [CredentialProvider.get, if_neg (by simp [hlasts]), if_neg (by simp [hvalid])]
  dsimp only
  split <;> rfl

/-- **The expiry is the instant written** just for date-times in UTC, with an upper-case letter,
that the clock can count to. The provider then refreshes in time. -/
theorem expiry_eq_iff {h : Host} (hposix : h.strptime = posixInstant) (t : DateTime) {body : Bytes}
    (hbody : jsonField body (utf8 "Expiration") = t.text) :
    ((fillCredsFromJson h body).expiry = some (instantOf t.seconds) ↔ IsUtc t) ∧
    (∀ profile stdout cred, profileCredentialProcess h profile ≠ [] →
      h.popen (cStr (profileCredentialProcess h profile)) = some stdout → drain [] stdout = body →
      ((loadCredentialProcess h profile cred).2.expiry = some (instantOf t.seconds) ↔ IsUtc t)) ∧
    (IsUtc t → ∀ (p : CredentialProvider) (now : Instant), p.cached.valid = true →
      p.cached.expiry = (fillCredsFromJson h body).expiry →
      instantOf t.seconds - 300 * ticksPerSecond ≤ now → (p.get h now).2.lastAttempt = now) := by
  have hfill : (fillCredsFromJson h body).expiry = some (instantOf t.seconds) ↔ IsUtc t := by
    rw [← parseIso8601_eq_iff hposix, fillCredsFromJson, hbody]
  refine ⟨hfill, ?_, fun hutc p now hvalid hcached ↦
    lastAttempt_get hvalid (hcached.trans (hfill.mpr hutc))⟩
  rintro profile stdout cred hcmd hpopen rfl
  rw [← parseIso8601_eq_iff hposix, ← hbody, loadCredentialProcess]
  dsimp only
  rw [if_neg hcmd, hpopen]

/-- A machine with the C library's functions. -/
def posixHost : Host where
  getenv _ := none
  file _ := none
  popen _ := none
  strptime := posixInstant
  metadata _ _ := {}

/-- Noon on a day in May, and a quarter of a second. -/
def noonUtc : DateTime where
  date := ⟨2024, 5, 1⟩
  hour := 12
  minute := 0
  second := 0
  fraction := utf8 ".25"
  offset := .utc 90
  fraction_ok := by decide +kernel

def keysUntil (t : DateTime) : Bytes :=
  utf8 "\x7b\"AccessKeyId\":\"A\",\"SecretAccessKey\":\"S\"," ++ utf8 "\"Expiration\":\""
    ++ t.text ++ utf8 "\"\x7d"

theorem noonUtc_expiry :
    (fillCredsFromJson posixHost (keysUntil noonUtc)).expiry = some (instantOf noonUtc.seconds) ∧
      (CredentialProvider.get posixHost (instantOf noonUtc.seconds - 300 * ticksPerSecond)
        ⟨[], fillCredsFromJson posixHost (keysUntil noonUtc), [], true, 0⟩).2.lastAttempt
        = instantOf noonUtc.seconds - 300 * ticksPerSecond := by
  have hposix : posixHost.strptime = posixInstant := by rw [posixHost]
  have hbody : jsonField (keysUntil noonUtc) (utf8 "Expiration") = noonUtc.text := by
    decide +kernel
  have hutc : IsUtc noonUtc := by decide +kernel
  obtain ⟨hexpiry, -, hrefresh⟩ := expiry_eq_iff hposix noonUtc hbody
  exact ⟨hexpiry.mpr hutc, hrefresh hutc _ _ (by decide +kernel) rfl le_rfl⟩

/-- Noon on that day, two hours ahead of UTC. -/
def noonAhead : DateTime where
  date := ⟨2024, 5, 1⟩
  hour := 12
  minute := 0
  second := 0
  offset := .numeric true 2 0

/-- The same time of day in lower case. -/
def noonLower : DateTime where
  date := ⟨2024, 5, 1⟩
  hour := 12
  minute := 0
  second := 0
  separator := 116
  offset := .utc 122

/-- The first day that a clock of nanoseconds does not reach the end of. -/
def dayAfterLast : DateTime where
  date := ⟨2262, 4, 12⟩
  hour := 0
  minute := 0
  second := 0
  offset := .utc 90

def expiring (t : DateTime) : Bytes := utf8 "\x7b\"Expiration\":\"" ++ t.text ++ utf8 "\"\x7d"

/-- The first expires two hours late, the second one never, and the third one has expired in the
seventeenth century. -/
theorem not_expiry_as_written :
    (expiring noonAhead = utf8 "\x7b\"Expiration\":\"2024-05-01T12:00:00+02:00\"\x7d" ∧
      noonAhead.seconds = 1714557600 ∧ (fillCredsFromJson posixHost (expiring noonAhead)).expiry
        = some (instantOf (1714557600 + 7200))) ∧
    (expiring noonLower = utf8 "\x7b\"Expiration\":\"2024-05-01t12:00:00z\"\x7d" ∧
      (fillCredsFromJson posixHost (expiring noonLower)).expiry = none) ∧
    expiring dayAfterLast = utf8 "\x7b\"Expiration\":\"2262-04-12T00:00:00Z\"\x7d" ∧
      dayAfterLast.seconds = 9223372800 ∧
      (fillCredsFromJson posixHost (expiring dayAfterLast)).expiry
        = some (instantOf 9223372800 - 2 ^ 64) := by
  decide +kernel

end Credentials

end Nanos3Reader
