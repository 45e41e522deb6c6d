import Nanos3Reader.Credentials

/-!
# Where resolved credentials come from

An access key, a secret key and a session token belong together: a token issued for one pair of keys
is refused with another. The chain is therefore meant to take all three from one source, the first
that has both keys. This file says what each source supplies on its own, and compares what `resolve`
returns with the first source that supplies both keys.

All loaders but one assign every field, so nothing a source left behind survives the next one. The
exception is `load_profile`: it merges the credentials file and the config file field by field, and
the two sections need not hold keys that belong together. `Unmixed` is the exact condition under
which that merge is harmless.
-/

open ByteText

namespace Nanos3Reader

/-- Two keys and the token that goes with them. -/
@[ext]
structure Keys where
  access : Bytes
  secret : Bytes
  token : Bytes
deriving DecidableEq

def Credentials.keys (c : Credentials) : Keys := ⟨c.accessKey, c.secretKey, c.sessionToken⟩

namespace Keys

/-- Both keys are there. -/
def valid (k : Keys) : Bool := k.access ≠ [] && k.secret ≠ []

/-- `a`, with its empty fields filled from `b`. -/
def orElse (a b : Keys) : Keys where
  access := if a.access = [] then b.access else a.access
  secret := if a.secret = [] then b.secret else a.secret
  token := if a.token = [] then b.token else a.token

/-- What a section of a shared file has under the three credential keys. -/
def ofSection (kv : Credentials.Section) : Keys where
  access := (kv.find (utf8 "aws_access_key_id")).getD []
  secret := (kv.find (utf8 "aws_secret_access_key")).getD []
  token := (kv.find (utf8 "aws_session_token")).getD []

theorem valid_iff {k : Keys} : k.valid = true ↔ k.access ≠ [] ∧ k.secret ≠ [] := by
  simp [valid]

/-- The one field a valid first operand can take from the second is the token. -/
theorem orElse_eq_left_iff {a b : Keys} (ha : a.valid) :
    a.orElse b = a ↔ a.token ≠ [] ∨ b.token = [] := by
  obtain ⟨hak, hsk⟩ := valid_iff.mp ha
  rw [Keys.ext_iff]
  by_cases ht : a.token = []
  · simp [orElse, hak, hsk, ht]
  · simp [orElse, hak, hsk, ht]

theorem orElse_eq_right_iff {a b : Keys} : a.orElse b = b ↔
    (a.access = [] ∨ a.access = b.access) ∧ (a.secret = [] ∨ a.secret = b.secret) ∧
      (a.token = [] ∨ a.token = b.token) := by
  have field : ∀ x y : Bytes, (if x = [] then y else x) = y ↔ x = [] ∨ x = y := by
    intro x y
    by_cases hx : x = []
    · simp [hx]
    · simp [hx]
  rw [Keys.ext_iff]
  simp only [orElse, field]

theorem valid_orElse_of_left {a b : Keys} (ha : a.valid) : (a.orElse b).valid := by
  obtain ⟨hak, hsk⟩ := valid_iff.mp ha
  simp [valid_iff, orElse, hak, hsk]

theorem valid_orElse_of_right {a b : Keys} (hb : b.valid) : (a.orElse b).valid := by
  obtain ⟨hak, hsk⟩ := valid_iff.mp hb
  rw [valid_iff, orElse]
  constructor
  · by_cases h : a.access = []
    · simpa [h] using hak
    · simp [h]
  · by_cases h : a.secret = []
    · simpa [h] using hsk
    · simp [h]

end Keys

namespace Credentials

/-! ## The sources, each on its own -/

/-- The sources of credentials. -/
inductive Source where
  | environment | credentialsFile | configFile | credentialProcess | ecs | imds

/-- The order in which they are consulted. -/
def Source.order : List Source :=
  [.environment, .credentialsFile, .configFile, .credentialProcess, .ecs, .imds]

/-- What a source supplies: its variables or its section, and for the rest what its loader leaves in
an empty record. -/
def Source.keys (h : Host) (profile : Bytes) : Source → Keys
  | .environment =>
    ⟨envOr h (utf8 "AWS_ACCESS_KEY_ID") [], envOr h (utf8 "AWS_SECRET_ACCESS_KEY") [],
      envOr h (utf8 "AWS_SESSION_TOKEN") []⟩
  | .credentialsFile => .ofSection (credKv h profile)
  | .configFile => .ofSection (confKv h profile)
  | .credentialProcess => (loadCredentialProcess h profile {}).2.keys
  | .ecs => (loadEcs h [] {}).2.1.keys
  | .imds => (loadImds h (loadEcs h [] {}).2.2 {}).2.1.keys

/-- The first source that supplies both keys. -/
def firstSource (h : Host) (profile : Bytes) : Option Source :=
  Source.order.find? fun s ↦ (s.keys h profile).valid

/-- The credentials a resolution returns. -/
def resolved (h : Host) (profile : Bytes) : Option Credentials :=
  if (resolve h profile {} []).1 then some (resolve h profile {} []).2.1 else none

/-- What a successful resolution returns is what the first source that supplies both keys has. -/
def SingleSource (h : Host) (profile : Bytes) : Prop :=
  ∀ c, resolved h profile = some c →
    ∃ s, firstSource h profile = some s ∧ c.keys = s.keys h profile

/-- Merging the two files of the profile puts no keys together that belong apart. -/
def Unmixed (h : Host) (profile : Bytes) : Prop :=
  let cred := Source.credentialsFile.keys h profile
  let conf := Source.configFile.keys h profile
  (Source.environment.keys h profile).valid ∨
    if cred.valid then cred.token ≠ [] ∨ conf.token = []
    else if conf.valid then
      (cred.access = [] ∨ cred.access = conf.access) ∧
        (cred.secret = [] ∨ cred.secret = conf.secret) ∧ (cred.token = [] ∨ cred.token = conf.token)
    else
      (cred.orElse conf).valid = false ∨
        ((Source.order.drop 3).map fun s ↦ s.keys h profile).find? Keys.valid
          = some (cred.orElse conf)

/-- The two machines differ in their config files only. -/
structure SameButConfig (h h' : Host) (profile : Bytes) : Prop where
  getenv : h'.getenv = h.getenv
  popen : h'.popen = h.popen
  metadata : h'.metadata = h.metadata
  strptime : h'.strptime = h.strptime
  credKv : credKv h' profile = credKv h profile

/-- When the credentials file gives both keys, another config file leads to the same credentials. -/
def IgnoresConfig (h : Host) (profile : Bytes) : Prop :=
  (Source.credentialsFile.keys h profile).valid →
    ∀ h', SameButConfig h h' profile → Unmixed h' profile → resolved h' profile = resolved h profile

/-! ## The loaders -/

section

variable {h : Host} {profile : Bytes}

/-- `load_profile` on an empty record is the merge of the two sections. -/
theorem keys_loadProfile : (loadProfile h profile {} []).1.keys
    = (Source.credentialsFile.keys h profile).orElse (Source.configFile.keys h profile) := by
  have fill : ∀ (o : Option Bytes) (x : Bytes), (if x = [] then o.getD x else x)
      = if x = [] then o.getD [] else x := by
    intro o x
    by_cases hx : x = []
    · simp [hx]
    · simp [hx]
  simp only [loadProfile, keys, Source.keys, Keys.ofSection, Keys.orElse, fill]
  congr

/-- A loader that writes all of a record or none of it: it fails and leaves the record alone, or
overwrites it and reports whether the keys are there. What else it returns depends on neither. -/
def LoadsAtOnce {α : Type*} (load : Credentials → Bool × Credentials × α) : Prop :=
  ∃ a, (∀ c, load c = (false, c, a)) ∨ ∃ c', ∀ c, load c = (c'.valid, c', a)

theorem LoadsAtOnce.eq {α : Type*} {load : Credentials → Bool × Credentials × α}
    (hl : LoadsAtOnce load) (c : Credentials) : (load c).2.2 = (load {}).2.2 ∧
      (load c).1 = (load {}).2.1.keys.valid ∧
      ((load c).1 = true → (load c).2.1 = (load {}).2.1) := by
  obtain ⟨a, ha | ⟨c', ha⟩⟩ := hl
  · rw [ha, ha]
    exact ⟨rfl, rfl, fun h ↦ absurd h Bool.false_ne_true⟩
  · rw [ha, ha]
    exact ⟨rfl, rfl, fun _ ↦ rfl⟩

theorem loadsAtOnce_credentialProcess : LoadsAtOnce fun c ↦
    ((loadCredentialProcess h profile c).1, (loadCredentialProcess h profile c).2, ()) := by
  refine ⟨(), ?_⟩
  by_cases hcmd : profileCredentialProcess h profile = []
  · exact .inl fun c ↦ by simp [loadCredentialProcess, hcmd]
  · cases hout : h.popen (cStr (profileCredentialProcess h profile)) with
    | none => exact .inl fun c ↦ by simp [loadCredentialProcess, hcmd, hout]
    | some out =>
      refine .inr ⟨(loadCredentialProcess h profile {}).2, fun c ↦ ?_⟩
      simp only [loadCredentialProcess, hcmd, hout, if_false]

theorem loadsAtOnce_ecs (log : List MetaRequest) : LoadsAtOnce (loadEcs h log) := by
  by_cases hurl : envOr h (utf8 "AWS_CONTAINER_CREDENTIALS_RELATIVE_URI") [] = [] ∧
      envOr h (utf8 "AWS_CONTAINER_CREDENTIALS_FULL_URI") [] = []
  · exact ⟨log, .inl fun c ↦ by simp only [loadEcs, hurl, and_self, if_true]⟩
  · simp only [LoadsAtOnce, loadEcs, if_neg hurl]
    generalize httpMetadata h log _ _ _ _ = reply
    obtain ⟨_ | _, body, log'⟩ := reply
    · exact ⟨log', .inl fun c ↦ rfl⟩
    · exact ⟨log', .inr ⟨fillCredsFromJson h body, fun c ↦ rfl⟩⟩

theorem loadsAtOnce_imds (log : List MetaRequest) : LoadsAtOnce (loadImds h log) := by
  simp only [LoadsAtOnce, loadImds]
  generalize httpMetadata h log _ _ _ _ = tokenReply
  obtain ⟨-, token, log₁⟩ := tokenReply
  generalize httpMetadata h log₁ _ _ _ _ = roleReply
  obtain ⟨_ | _, listing, log₂⟩ := roleReply
  · exact ⟨log₂, .inl fun c ↦ rfl⟩
  · by_cases hrole : firstRole listing = []
    · exact ⟨log₂, .inl fun c ↦ by simp only [hrole, if_true]; rfl⟩
    · simp only [if_neg hrole]
      generalize httpMetadata h log₂ _ _ _ _ = reply
      obtain ⟨_ | _, body, log₃⟩ := reply
      · exact ⟨log₃, .inl fun c ↦ rfl⟩
      · exact ⟨log₃, .inr ⟨fillCredsFromJson h body, fun c ↦ rfl⟩⟩

/-! ## The chain -/

/-- The provider's check that a container is configured repeats one of the loader's own. -/
theorem loadEcs_eq_ite (c : Credentials) :
    (if envOr h (utf8 "AWS_CONTAINER_CREDENTIALS_RELATIVE_URI") [] ≠ [] ∨
        envOr h (utf8 "AWS_CONTAINER_CREDENTIALS_FULL_URI") [] ≠ [] then loadEcs h [] c
      else (false, c, [])) = loadEcs h [] c := by
  split
  · rfl
  · next hurl =>
    rw [not_or, not_not, not_not] at hurl
    rw [loadEcs]
    exact (if_pos hurl).symm

theorem environment_valid_iff : (Source.environment.keys h profile).valid = true ↔
    envOr h (utf8 "AWS_ACCESS_KEY_ID") [] ≠ [] ∧ envOr h (utf8 "AWS_SECRET_ACCESS_KEY") [] ≠ [] :=
  Keys.valid_iff

/-- **What `resolve` returns.** The credentials are those of the first source that supplies both
keys, in a chain in which the profile's two sections count as one source, merged. -/
theorem keys_resolved : (resolved h profile).map keys
    = ([Source.environment.keys h profile,
        (Source.credentialsFile.keys h profile).orElse (Source.configFile.keys h profile)]
      ++ (Source.order.drop 3).map fun s ↦ s.keys h profile).find? Keys.valid := by
  have hprocess : (loadCredentialProcess h profile {}).1
      = (Source.credentialProcess.keys h profile).valid := (loadsAtOnce_credentialProcess.eq {}).2.1
  obtain ⟨hlog, hecs, hecs'⟩ := (loadsAtOnce_ecs []).eq (loadCredentialProcess h profile {}).2
  replace hecs : _ = (Source.ecs.keys h profile).valid := hecs
  obtain ⟨-, himds, himds'⟩ := (loadsAtOnce_imds (loadEcs h [] {}).2.2).eq
    (loadEcs h [] (loadCredentialProcess h profile {}).2).2.1
  replace himds : _ = (Source.imds.keys h profile).valid := himds
  have hvalid : ∀ c : Credentials, c.valid = c.keys.valid := fun c ↦ rfl
  simp only [resolved, resolve, resolveSending, loadEcs_eq_ite, hvalid, Source.order, List.drop,
    List.map, List.cons_append, List.nil_append]
  by_cases henv : (Source.environment.keys h profile).valid
  · rw [if_pos (environment_valid_iff.mp henv), List.find?_cons_of_pos henv]
    rfl
  rw [if_neg (mt environment_valid_iff.mpr henv), List.find?_cons_of_neg henv, ← keys_loadProfile]
  by_cases hprof : (loadProfile h profile {} []).1.keys.valid
  · rw [if_pos hprof, List.find?_cons_of_pos hprof]
    rfl
  rw [if_neg hprof, List.find?_cons_of_neg hprof]
  by_cases hp : (loadCredentialProcess h profile {}).1
  · rw [if_pos hp, List.find?_cons_of_pos (hprocess ▸ hp)]
    rfl
  rw [if_neg hp, List.find?_cons_of_neg (hprocess ▸ hp)]
  by_cases he : (loadEcs h [] (loadCredentialProcess h profile {}).2).1
  · rw [if_pos he, List.find?_cons_of_pos (hecs ▸ he), hecs' he]
    rfl
  rw [if_neg he, List.find?_cons_of_neg (hecs ▸ he), hlog]
  by_cases hi : (loadImds h (loadEcs h [] {}).2.2
      (loadEcs h [] (loadCredentialProcess h profile {}).2).2.1).1
  · rw [if_pos hi, List.find?_cons_of_pos (himds ▸ hi), himds' hi]
    rfl
  · rw [if_neg hi, List.find?_cons_of_neg (himds ▸ hi)]
    rfl

theorem keys_firstSource : (firstSource h profile).map (fun s ↦ s.keys h profile)
    = (Source.order.map fun s ↦ s.keys h profile).find? Keys.valid := by
  rw [firstSource, List.find?_map]
  rfl

/-- Merging two of the candidates of a search is harmless exactly when what the merge puts together
is what the search would have found. -/
theorem find?_merged_iff (env cred conf : Keys) (rest : List Keys) :
    (∀ k, (env :: cred.orElse conf :: rest).find? Keys.valid = some k →
        (env :: cred :: conf :: rest).find? Keys.valid = some k) ↔
      (env.valid ∨
        if cred.valid then cred.token ≠ [] ∨ conf.token = []
        else if conf.valid then
          (cred.access = [] ∨ cred.access = conf.access) ∧
            (cred.secret = [] ∨ cred.secret = conf.secret) ∧
            (cred.token = [] ∨ cred.token = conf.token)
        else (cred.orElse conf).valid = false ∨
          rest.find? Keys.valid = some (cred.orElse conf)) := by
  by_cases henv : env.valid
  · simp [henv]
  rw [List.find?_cons_of_neg henv, List.find?_cons_of_neg henv, or_iff_right henv]
  by_cases hcred : cred.valid
  · rw [if_pos hcred, List.find?_cons_of_pos hcred,
      List.find?_cons_of_pos (Keys.valid_orElse_of_left hcred), ← Keys.orElse_eq_left_iff hcred]
    simp [eq_comm]
  rw [if_neg hcred, List.find?_cons_of_neg hcred]
  by_cases hconf : conf.valid
  · rw [if_pos hconf, List.find?_cons_of_pos hconf,
      List.find?_cons_of_pos (Keys.valid_orElse_of_right hconf), ← Keys.orElse_eq_right_iff]
    simp [eq_comm]
  rw [if_neg hconf, List.find?_cons_of_neg hconf]
  by_cases hmerged : (cred.orElse conf).valid
  · rw [List.find?_cons_of_pos hmerged]
    simp [hmerged]
  · rw [List.find?_cons_of_neg hmerged]
    simp [hmerged]

theorem singleSource_iff : SingleSource h profile ↔ ∀ k, (resolved h profile).map keys = some k →
    (firstSource h profile).map (fun s ↦ s.keys h profile) = some k := by
  simp only [SingleSource, Option.map_eq_some_iff]
  constructor
  · rintro hs k ⟨c, hc, rfl⟩
    obtain ⟨s, hfirst, heq⟩ := hs c hc
    exact ⟨s, hfirst, heq.symm⟩
  · intro hs c hc
    obtain ⟨s, hfirst, heq⟩ := hs c.keys ⟨c, hc, rfl⟩
    exact ⟨s, hfirst, heq.symm⟩

/-! ## Independence of the config file -/

/-- Credentials that never expire. -/
def static (k : Keys) : Credentials where
  accessKey := k.access
  secretKey := k.secret
  sessionToken := k.token

theorem resolved_of_environment (henv : (Source.environment.keys h profile).valid) :
    resolved h profile = some (static (Source.environment.keys h profile)) := by
  simp only [resolved, resolve, resolveSending]
  rw [if_pos (environment_valid_iff.mp henv)]
  rfl

theorem resolved_of_credentialsFile (henv : ¬(Source.environment.keys h profile).valid)
    (hcred : (Source.credentialsFile.keys h profile).valid) :
    resolved h profile = some (static
      ((Source.credentialsFile.keys h profile).orElse (Source.configFile.keys h profile))) := by
  have hprof : (loadProfile h profile {} []).1.valid := by
    have hmerged := Keys.valid_orElse_of_left (b := Source.configFile.keys h profile) hcred
    rwa [← keys_loadProfile] at hmerged
  simp only [resolved, resolve, resolveSending]
  rw [if_neg (mt environment_valid_iff.mpr henv), if_pos hprof, ← keys_loadProfile]
  rfl

theorem ignoresConfig_of_unmixed (hu : Unmixed h profile) : IgnoresConfig h profile := by
  intro hcred h' hsame hu'
  have henv' : Source.environment.keys h' profile = Source.environment.keys h profile := by
    simp [Source.keys, envOr, hsame.getenv]
  have hcred' : Source.credentialsFile.keys h' profile = Source.credentialsFile.keys h profile :=
    congrArg Keys.ofSection hsame.credKv
  by_cases henv : (Source.environment.keys h profile).valid
  · rw [resolved_of_environment henv, resolved_of_environment (henv' ▸ henv), henv']
  · rw [Unmixed, or_iff_right henv, if_pos hcred, ← Keys.orElse_eq_left_iff hcred] at hu
    rw [Unmixed, henv', hcred', or_iff_right henv, if_pos hcred,
      ← Keys.orElse_eq_left_iff hcred] at hu'
    rw [resolved_of_credentialsFile henv hcred, hu,
      resolved_of_credentialsFile (henv' ▸ henv) (hcred' ▸ hcred), hcred', hu']

end

/-! ## The two together -/

/-- **Single-source credentials.** What a successful resolution returns comes from the first source
that supplies both keys exactly when the profile's sections are unmixed, and among unmixed machines
a credentials file with both keys makes the config file irrelevant. -/
theorem singleSource_iff_unmixed (h : Host) (profile : Bytes) :
    (SingleSource h profile ↔ Unmixed h profile) ∧
      (Unmixed h profile → IgnoresConfig h profile) := by
  refine ⟨?_, ignoresConfig_of_unmixed⟩
  rw [singleSource_iff, keys_resolved, keys_firstSource]
  exact find?_merged_iff _ _ _ _

/-- A machine on which only the two shared files exist: the credentials file has a pair of long-term
keys, and the config file a token left over from a session. -/
def staleToken : Host where
  getenv name := if name = utf8 "HOME" then some (utf8 "/home/u") else none
  file path :=
    if path = utf8 "/home/u/.aws/credentials" then
      some (utf8 "[default]\naws_access_key_id = AK\naws_secret_access_key = SK\n")
    else if path = utf8 "/home/u/.aws/config" then
      some (utf8 "[default]\naws_session_token = OLD\n")
    else none
  popen _ := none
  strptime _ := none
  metadata _ _ := { ok := false }

/-- The long-term keys come back with the left-over token. -/
theorem staleToken_mixed : ¬ SingleSource staleToken (utf8 "default") := by
  intro h
  have hfound :
      resolved staleToken (utf8 "default") = some ⟨utf8 "AK", utf8 "SK", utf8 "OLD", none⟩ := by
    decide
  obtain ⟨s, hfirst, hkeys⟩ := h _ hfound
  have hcred : firstSource staleToken (utf8 "default") = some .credentialsFile := by rfl
  obtain rfl : Source.credentialsFile = s := Option.some.inj (hcred.symm.trans hfirst)
  revert hkeys
  decide

end Credentials

end Nanos3Reader
