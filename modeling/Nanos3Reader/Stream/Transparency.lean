import Nanos3Reader.Stream.Refinement

/-!
# What the disk cache changes

Streams on one URI, opened at any time with any window sizes and used in any order, next to the same
streams without the cache. The cache is meant not to be noticed. It is noticed in three ways.

* A block is keyed by its start alone, and a stream takes a block shorter than its own window for
  the end of the object. A block written by a stream with a smaller window is such a block.
* A block longer than the window takes a stream to an end of the object that is no multiple of its
  window size, and there `underflow` loads a window before the end and reads behind it.
* With the cache on, a stream that seeks past the end forgets how far, and a later seek from the
  current position starts from somewhere else.

`Undisturbed` says of each step of a session that none of this happens in it, and that no eviction
runs forever. In such a session the cache is not noticed.
-/

open ByteText

namespace Nanos3Reader

/-! ## Sessions -/

/-- A step of a session: another stream is opened, or a call is made on the stream numbered `i`. -/
inductive SessionStep where
  | openStream (readAhead : ℕ)
  | call (i : ℕ) (op : StreamOp)

/-- The streams opened so far, all on one URI, and what they share. -/
structure Session where
  streams : List S3Streambuf := []
  world : World

namespace Session

def apply (env : Outside) (cfg : Config) (uri : Bytes) (s : Session) :
    SessionStep → Except Fault (Option StreamResult × Session)
  | .openStream readAhead =>
    let (b, w) := openStream env cfg s.world uri readAhead
    .ok (none, { streams := s.streams ++ b.toList, world := w })
  | .call i op =>
    match s.streams[i]? with
    | none => .ok (none, s)
    | some b => (b.apply env s.world op).map fun r ↦
        (some r.1, { streams := s.streams.set i r.2.1, world := r.2.2 })

/-- The results of a sequence of steps. -/
def run (env : Outside) (cfg : Config) (uri : Bytes) (s : Session) :
    List SessionStep → Except Fault (List (Option StreamResult) × Session)
  | [] => .ok ([], s)
  | step :: steps =>
    match s.apply env cfg uri step with
    | .error f => .error f
    | .ok (r, s) => (run env cfg uri s steps).map fun q ↦ (r :: q.1, q.2)

end Session

/-- A session of plain streams over `O`: their positions. -/
def plainStep (O : Bytes) (ps : List ℕ) : SessionStep → Option StreamResult × List ℕ
  | .openStream _ => (none, ps ++ [0])
  | .call i op =>
    match ps[i]? with
    | none => (none, ps)
    | some p => (some (plainApply O p op).1, ps.set i (plainApply O p op).2)

/-- The bytes each step delivered, and where the end of the file was met. -/
def delivered (rs : List (Option StreamResult)) : List (Option (Bytes × Bool)) :=
  rs.map fun r ↦ r.bind StreamResult.data

/-- Two surroundings, one with the cache off and one with it on, make a session deliver the same. -/
def Transparent (off on : Outside) (cfg : Config) (uri : Bytes) (w : World) (cache : DiskCache)
    (steps : List SessionStep) : Prop :=
  ∃ rs s rs' s', Session.run off cfg uri { world := w } steps = .ok (rs, s) ∧
    Session.run on cfg uri { world := { w with cache := cache } } steps = .ok (rs', s') ∧
    delivered rs' = delivered rs

/-! ## Undisturbed sessions -/

/-- The step asks for no window size that no vector can have, and for no position that a signed
64-bit number cannot hold. -/
def SessionStep.InRange (O : Bytes) (ps : List ℕ) : SessionStep → Prop
  | .openStream readAhead => readAhead < 2 ^ 63
  | .call i op => ∀ p ∈ ps[i]?, op.InRange O p

/-- The step is a call that a cached stream can be trusted with. -/
def SessionStep.Sound (env : Outside) (O : Bytes) (s : Session) (ps : List ℕ) : SessionStep → Prop
  | .openStream _ => True
  | .call i op => ∀ b ∈ s.streams[i]?, ∀ p ∈ ps[i]?, op.Sound env O s.world b p

/-- No step of the session shows the cache. -/
def Undisturbed (env : Outside) (cfg : Config) (uri O : Bytes) :
    Session → List ℕ → List SessionStep → Prop
  | _, _, [] => True
  | s, ps, step :: steps => (step.InRange O ps ∧ step.Sound env O s ps) ∧
    ∀ r ∈ (s.apply env cfg uri step).toOption,
      Undisturbed env cfg uri O r.2 (plainStep O ps step).2 steps

instance (O : Bytes) (ps : List ℕ) : (step : SessionStep) → Decidable (step.InRange O ps)
  | .openStream _ => inferInstanceAs (Decidable (_ < _))
  | .call i _ => inferInstanceAs (Decidable (∀ p ∈ ps[i]?, _))

instance (env : Outside) (O : Bytes) (s : Session) (ps : List ℕ) :
    (step : SessionStep) → Decidable (step.Sound env O s ps)
  | .openStream _ => inferInstanceAs (Decidable True)
  | .call i _ => inferInstanceAs (Decidable (∀ b ∈ s.streams[i]?, ∀ p ∈ ps[i]?, _))

instance decidableUndisturbed (env : Outside) (cfg : Config) (uri O : Bytes) : ∀ s ps steps,
    Decidable (Undisturbed env cfg uri O s ps steps)
  | _, _, [] => inferInstanceAs (Decidable True)
  | s, _, step :: steps =>
    have := fun s ps ↦ decidableUndisturbed env cfg uri O s ps steps
    inferInstanceAs (Decidable ((_ ∧ _) ∧ ∀ r ∈ (s.apply env cfg uri step).toOption, _))

/-! ## The simulation -/

/-- Surroundings in which handles can be had, credentials resolve, and the server has `O`. -/
structure Available (env : Outside) (profile O : Bytes) : Prop where
  curlInit : ∀ m, env.curlInit m = true
  resolves : ∀ m, (Credentials.resolve (env.host m) profile {} []).1 = true
  serves : ServesRanges env O

/-- A URI that names an object. -/
def NamesObject (uri : Bytes) : Prop :=
  ∃ bucket key, uri = utf8 "s3://" ++ bucket ++ 47 :: key ∧ 47 ∉ bucket ∧ bucket ≠ [] ∧ key ≠ []

/-- The streams of a session stand at the positions `ps`. -/
structure Tracks (cached : Bool) (profile uri O : Bytes) (s : Session) (ps : List ℕ) : Prop where
  length_eq : s.streams.length = ps.length
  reads : ∀ (i : ℕ) (b : S3Streambuf) (p : ℕ), s.streams[i]? = some b → ps[i]? = some p →
    Reads cached O b p ∧ b.uri = uri ∧ p < 2 ^ 63
  creds : s.world.provider.cached.valid = true ∨
    s.world.provider.attempted = false ∧ s.world.provider.profile = profile ∧ s.streams = []
  enabled : s.world.cache.enabled = cached
  blocks : cached = true → CacheOf O uri s.world.cache

section

variable {env : Outside} (cfg : Config) {profile uri O : Bytes} {cached : Bool} {s : Session}
  {ps : List ℕ}

/-- A handle and usable credentials are all that `open` needs. -/
theorem openStream_of_valid (huri : NamesObject uri) {w : World}
    (hcurl : ∀ m, env.curlInit m = true)
    (hget : (w.provider.get (env.host w.moment) (env.clock w.moment)).2.cached.valid = true)
    (readAhead : ℕ) : ∃ b w', openStream env cfg w uri readAhead = (some b, w') := by
  obtain ⟨bucket, key, rfl, hslash, hbucket, hkey⟩ := huri
  have hscheme : (utf8 "s3://").isPrefixOf (utf8 "s3://" ++ bucket ++ 47 :: key) = true := by
    rw [List.isPrefixOf_iff_prefix, List.append_assoc]
    exact List.prefix_append _ _
  have hdrop : (utf8 "s3://" ++ bucket ++ 47 :: key).drop 5 = bucket ++ 47 :: key := by
    rw [List.append_assoc]
    exact List.drop_left' (by decide)
  have hvalid : ({ w with lastError := [] }.getCredentials env).1.valid = true := by
    simp only [World.getCredentials, CredentialProvider.get_fst]
    exact hget
  rw [openStream, if_neg (not_not.mpr hscheme), hdrop, cut_singleton_append hslash]
  dsimp only
  rw [if_neg (by simp [hbucket, hkey]), if_neg (by simp [hvalid]),
    if_neg (by simp [S3Streambuf.create, hcurl])]
  exact ⟨_, _, rfl⟩

theorem openStream_of_available (henv : Available env profile O) (huri : NamesObject uri)
    {w : World}
    (hcreds : w.provider.cached.valid = true ∨
      w.provider.attempted = false ∧ w.provider.profile = profile) (readAhead : ℕ) :
    ∃ b w', openStream env cfg w uri readAhead = (some b, w') := by
  refine openStream_of_valid cfg huri henv.curlInit ?_ readAhead
  rcases hcreds with hvalid | ⟨hattempted, rfl⟩
  · exact CredentialProvider.valid_get _ _ hvalid
  · exact CredentialProvider.valid_get_of_resolve _ hattempted (henv.resolves w.moment)

theorem Tracks.openStream (henv : Available env profile O) (huri : NamesObject uri)
    (h : Tracks cached profile uri O s ps) {readAhead : ℕ} (hra : readAhead < 2 ^ 63) :
    ∃ s', s.apply env cfg uri (.openStream readAhead) = .ok (none, s') ∧
      Tracks cached profile uri O s' (ps ++ [0]) := by
  obtain ⟨b, w', hopen⟩ := openStream_of_available cfg henv huri
    (h.creds.imp_right fun hc ↦ ⟨hc.1, hc.2.1⟩) readAhead
  obtain ⟨hvalid, hcache, hname, -⟩ := openStream_eq_some hopen
  refine ⟨{ streams := s.streams ++ [b], world := w' }, ?_, ?_⟩
  · rw [Session.apply, hopen]
    rfl
  · constructor
    case length_eq => simp [h.length_eq]
    case reads =>
      intro i b' p hb hp
      rw [List.getElem?_append] at hb hp
      rw [h.length_eq] at hb
      split at hb
      · next hlt =>
        rw [if_pos hlt] at hp
        exact h.reads i b' p hb hp
      · next hlt =>
        rw [if_neg hlt] at hp
        simp only [List.getElem?_singleton, Option.ite_none_right_eq_some, Option.some.injEq]
          at hb hp
        obtain ⟨-, rfl⟩ := hb
        obtain ⟨-, rfl⟩ := hp
        exact ⟨Reads.of_openStream hopen hra, hname, by omega⟩
    case creds => exact .inl hvalid
    case enabled => rw [hcache, h.enabled]
    case blocks => exact fun hc ↦ hcache ▸ h.blocks hc

theorem Tracks.apply (henv : Available env profile O) (huri : NamesObject uri)
    (h : Tracks cached profile uri O s ps) {step : SessionStep} (hrange : step.InRange O ps)
    (hsound : cached = true → step.Sound env O s ps) :
    ∃ r s', s.apply env cfg uri step = .ok (r, s') ∧
      r.bind StreamResult.data = (plainStep O ps step).1.bind StreamResult.data ∧
      Tracks cached profile uri O s' (plainStep O ps step).2 := by
  cases step with
  | openStream readAhead =>
    obtain ⟨s', happly, htracks⟩ := h.openStream cfg henv huri hrange
    exact ⟨none, s', happly, rfl, htracks⟩
  | call i op =>
    by_cases hi : i < ps.length
    · have hi' : i < s.streams.length := h.length_eq ▸ hi
      have hb : s.streams[i]? = some s.streams[i] := List.getElem?_eq_getElem hi'
      have hp : ps[i]? = some ps[i] := List.getElem?_eq_getElem hi
      obtain ⟨hreads, hname, hlt⟩ := h.reads i _ _ hb hp
      have hvalid : s.world.provider.cached.valid = true := by
        refine h.creds.resolve_right ?_
        rintro ⟨-, -, hnil⟩
        simp [hnil] at hi'
      obtain ⟨r, b', w', happly, hdata, -, hw', huri', hb'⟩ := agrees_plain henv.serves
        ⟨hvalid, h.enabled, hname ▸ h.blocks⟩ hreads hlt (hrange _ hp)
        fun hc ↦ hsound hc _ hb _ hp
      refine ⟨some r, { streams := s.streams.set i b', world := w' }, ?_, ?_, ?_⟩
      · rw [Session.apply, hb]
        dsimp only
        rw [happly]
        rfl
      · rw [plainStep, hp]
        exact hdata
      · rw [plainStep, hp]
        constructor
        case length_eq => simp [h.length_eq]
        case reads =>
          intro j b'' p hb'' hp''
          rw [List.getElem?_set] at hb'' hp''
          split at hb''
          · next hij =>
            subst hij
            rw [if_pos rfl, if_pos hi] at hp''
            cases hb''
            cases hp''
            exact ⟨hb', huri'.trans hname, plainApply_lt hlt (hrange _ hp)⟩
          · next hij =>
            rw [if_neg hij] at hp''
            exact h.reads j b'' p hb'' hp''
        case creds => exact .inl hw'.creds
        case enabled => exact hw'.enabled
        case blocks => exact hname ▸ hw'.blocks
    · have hb : s.streams[i]? = none := List.getElem?_eq_none (h.length_eq ▸ not_lt.mp hi)
      have hp : ps[i]? = none := List.getElem?_eq_none (not_lt.mp hi)
      refine ⟨none, s, ?_, ?_, ?_⟩
      · rw [Session.apply, hb]
      · rw [plainStep, hp]
      · rw [plainStep, hp]
        exact h

/-- The steps of a session are in range. -/
def AllStepsInRange (O : Bytes) : List ℕ → List SessionStep → Prop
  | _, [] => True
  | ps, step :: steps => step.InRange O ps ∧ AllStepsInRange O (plainStep O ps step).2 steps

/-- What a session of plain streams returns. -/
def plainSession (O : Bytes) : List ℕ → List SessionStep → List (Option StreamResult)
  | _, [] => []
  | ps, step :: steps => (plainStep O ps step).1 :: plainSession O (plainStep O ps step).2 steps

/-- One step that delivers what the plain streams do, and then others that do. -/
theorem run_cons {step : SessionStep} {steps : List SessionStep} {s₁ : Session}
    {r : Option StreamResult} (happly : s.apply env cfg uri step = .ok (r, s₁))
    (hdata : r.bind StreamResult.data = (plainStep O ps step).1.bind StreamResult.data)
    (hrest : ∃ rs s', s₁.run env cfg uri steps = .ok (rs, s') ∧
      delivered rs = delivered (plainSession O (plainStep O ps step).2 steps)) :
    ∃ rs s', s.run env cfg uri (step :: steps) = .ok (rs, s') ∧
      delivered rs = delivered (plainSession O ps (step :: steps)) := by
  obtain ⟨rs, s', hrun, hsame⟩ := hrest
  refine ⟨r :: rs, s', ?_, ?_⟩
  · rw [Session.run, happly]
    dsimp only
    rw [hrun]
    rfl
  · simp only [delivered, plainSession, List.map_cons, hdata] at hsame ⊢
    rw [hsame]

theorem Tracks.run_uncached (henv : Available env profile O) (huri : NamesObject uri)
    {steps : List SessionStep} (h : Tracks false profile uri O s ps)
    (hrange : AllStepsInRange O ps steps) :
    ∃ rs s', s.run env cfg uri steps = .ok (rs, s') ∧
      delivered rs = delivered (plainSession O ps steps) := by
  induction steps generalizing s ps with
  | nil => exact ⟨[], s, rfl, rfl⟩
  | cons step steps ih =>
    obtain ⟨hstep, hrest⟩ := hrange
    obtain ⟨r, s₁, happly, hdata, h₁⟩ := h.apply cfg henv huri hstep
      fun hc ↦ absurd hc Bool.false_ne_true
    exact run_cons cfg happly hdata (ih h₁ hrest)

theorem Tracks.run_cached (henv : Available env profile O) (huri : NamesObject uri)
    {steps : List SessionStep} (h : Tracks true profile uri O s ps)
    (hsound : Undisturbed env cfg uri O s ps steps) :
    ∃ rs s', s.run env cfg uri steps = .ok (rs, s') ∧
      delivered rs = delivered (plainSession O ps steps) := by
  induction steps generalizing s ps with
  | nil => exact ⟨[], s, rfl, rfl⟩
  | cons step steps ih =>
    obtain ⟨⟨hstep, hcalm⟩, hrest⟩ := hsound
    obtain ⟨r, s₁, happly, hdata, h₁⟩ := h.apply cfg henv huri hstep fun _ ↦ hcalm
    rw [happly] at hrest
    exact run_cons cfg happly hdata (ih h₁ (hrest _ rfl))

/-- An undisturbed session is in range, whatever the streams do in it. -/
theorem Tracks.allStepsInRange (henv : Available env profile O) (huri : NamesObject uri)
    {steps : List SessionStep} (h : Tracks true profile uri O s ps)
    (hsound : Undisturbed env cfg uri O s ps steps) : AllStepsInRange O ps steps := by
  induction steps generalizing s ps with
  | nil => trivial
  | cons step steps ih =>
    obtain ⟨⟨hstep, hcalm⟩, hrest⟩ := hsound
    obtain ⟨r, s₁, happly, -, h₁⟩ := h.apply cfg henv huri hstep fun _ ↦ hcalm
    rw [happly] at hrest
    exact ⟨hstep, ih h₁ (hrest _ rfl)⟩

/-! ## The two runs -/

theorem cacheOf_fresh (dir : Bytes) (maxBlocks : ℤ) : CacheOf O uri (.fresh dir maxBlocks) := by
  intro s block _ hblock
  have hempty : (DiskCache.fresh dir maxBlocks).files = .empty := by
    rw [DiskCache.fresh, DiskCache.configure]
    split
    · rfl
    · rfl
  simp [DiskCache.block, hempty, Directory.read?, Directory.find?, Directory.empty] at hblock

/-- **Cache transparency.** In a session in which every load is sound and no lost position is used,
the cache changes neither the bytes delivered nor where the end of the file is met. -/
theorem transparent_of_undisturbed {off on : Outside} (hoff : Available off profile O)
    (hon : Available on profile O) (huri : NamesObject uri) (dir : Bytes)
    {maxBlocks : ℤ} (hpos : 0 < maxBlocks) (steps : List SessionStep)
    (hsound : Undisturbed on cfg uri O
      { world := { provider := .create profile, cache := .fresh dir maxBlocks } } [] steps) :
    Transparent off on cfg uri { provider := .create profile } (.fresh dir maxBlocks) steps := by
  have henabled : (DiskCache.fresh dir maxBlocks).enabled = true := by
    rw [DiskCache.fresh, DiskCache.configure, if_neg (by omega)]
    rfl
  have hcached : Tracks true profile uri O
      { world := { provider := .create profile, cache := .fresh dir maxBlocks } } [] :=
    ⟨rfl, by simp, .inr ⟨rfl, rfl, rfl⟩, henabled, fun _ ↦ cacheOf_fresh dir maxBlocks⟩
  have hplain : Tracks false profile uri O { world := { provider := .create profile } } [] :=
    ⟨rfl, by simp, .inr ⟨rfl, rfl, rfl⟩, rfl, fun hc ↦ absurd hc Bool.false_ne_true⟩
  obtain ⟨rs', s', hrun', hsame'⟩ := hcached.run_cached cfg hon huri hsound
  obtain ⟨rs, s, hrun, hsame⟩ := hplain.run_uncached cfg hoff huri
    (hcached.allStepsInRange cfg hon huri hsound)
  exact ⟨rs, s, rs', s', hrun, hrun', hsame'.trans hsame.symm⟩

end

/-- One window size for all streams, a multiple of which the object is not. -/
def sameReadAhead : List SessionStep :=
  [.openStream 4, .call 0 (.read 10), .openStream 4, .call 1 (.seekBeg 5), .call 1 (.read 3),
    .call 0 (.seekCur (-4)), .call 0 (.read 2)]

theorem transparent_sameReadAhead : Transparent (calm [1, 2, 3, 4, 5, 6]) (calm [1, 2, 3, 4, 5, 6])
    usEast (utf8 "s3://b/k") { provider := .create (utf8 "default") }
    (.fresh (utf8 "/var/tmp/n3r-cache") 8) sameReadAhead := by
  have havailable : Available (calm [1, 2, 3, 4, 5, 6]) (utf8 "default") [1, 2, 3, 4, 5, 6] :=
    ⟨fun _ ↦ rfl, fun _ ↦ rfl, servesRanges_calm _⟩
  have huri : NamesObject (utf8 "s3://b/k") :=
    ⟨utf8 "b", utf8 "k", by decide, by decide, by decide, by decide⟩
  exact transparent_of_undisturbed usEast havailable havailable huri _ (by decide) _
    (by decide +kernel)

/-- Two window sizes: the first stream caches four bytes, and the second, which reads eight at a
time, takes them for the whole object. -/
def twoReadAheads : List SessionStep :=
  [.openStream 4, .call 0 (.read 1), .openStream 8, .call 1 (.read 8)]

theorem not_transparent_twoReadAheads : ¬ Transparent (calm [1, 2, 3, 4, 5, 6, 7, 8])
    (calm [1, 2, 3, 4, 5, 6, 7, 8]) usEast (utf8 "s3://b/k")
    { provider := .create (utf8 "default") } (.fresh (utf8 "/var/tmp/n3r-cache") 8)
    twoReadAheads := by
  rintro ⟨rs, s, rs', s', hoff, hon, hsame⟩
  have hwhole : (Session.run (calm [1, 2, 3, 4, 5, 6, 7, 8]) usEast (utf8 "s3://b/k")
      { world := { provider := .create (utf8 "default") } } twoReadAheads).map
        (fun r ↦ delivered r.1)
      = .ok [none, some ([1], false), none, some ([1, 2, 3, 4, 5, 6, 7, 8], false)] := by
    decide +kernel
  have hhalf : (Session.run (calm [1, 2, 3, 4, 5, 6, 7, 8]) usEast (utf8 "s3://b/k")
      { world := { provider := .create (utf8 "default"),
                   cache := .fresh (utf8 "/var/tmp/n3r-cache") 8 } } twoReadAheads).map
        (fun r ↦ delivered r.1)
      = .ok [none, some ([1], false), none, some ([1, 2, 3, 4], true)] := by
    decide +kernel
  rw [hoff] at hwhole
  rw [hon] at hhalf
  simp only [Except.map, Except.ok.injEq] at hwhole hhalf
  rw [hwhole, hhalf] at hsame
  exact absurd hsame (by decide)

end Nanos3Reader
