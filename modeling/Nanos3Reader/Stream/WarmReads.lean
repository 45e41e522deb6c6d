import Nanos3Reader.Stream.FirstPass
import Nanos3Reader.Stream.Position
import Nanos3Reader.Stream.Transparency

/-!
# Reading again from the disk

A stream that has read an object to its end leaves the blocks it went through in the cache, and a
later stream on the same URI goes through the same blocks. What the later stream needs is that none
of them has been evicted in between, and that the end of the object shows in them: a block that is
shorter than the window ends the object, and nothing else that is cached does.
-/

open ByteText

namespace Nanos3Reader

namespace S3Streambuf

section

variable {env : Outside} {O : Bytes} {w : World} {b b' : S3Streambuf}

/-! ## A stream on cached blocks -/

/-- A world in which later streams read: the cache has the blocks of `c`, and `sent` is all that has
been sent. -/
structure Warm (c : DiskCache) (sent : List HttpRequest) (w : World) : Prop where
  blocks : ∀ k, w.cache.block k = c.block k
  enabled : w.cache.enabled = true
  creds : w.provider.cached.valid = true
  sent : w.sent = sent

variable {c : DiskCache} {sent : List HttpRequest} {unknown : Prop} {rest : Bytes}

theorem Warm.loadWindow (hw : Warm c sent w) (hio : ∀ m, (env.io m).Succeeds)
    (hcurl : b.curl = true) {block : Bytes} (hblock : c.block b.nextKey = some block) :
    ∃ w', loadWindow env w b b.next = .ok (true, b.filled block, w') ∧ Warm c sent w' := by
  have hpresent : w.cache.block b.nextKey = some block := (hw.blocks _).trans hblock
  rw [S3Streambuf.loadWindow, if_neg (by simp [hcurl])]
  dsimp only
  rw [hw.enabled, if_pos rfl, ← nextStart, ← nextKey, World.tryLoad, if_pos hw.enabled,
    hio w.moment]
  refine ⟨{ w with
    cache := (w.cache.tryLoad { now := (env.io w.moment).now } b.nextKey).2
    moment := w.moment + 1, lastError := [] }, ?_, ?_⟩
  · rw [DiskCache.tryLoad_of_some hpresent]
    rfl
  · constructor
    case blocks => exact fun k ↦ (DiskCache.block_tryLoad _ _ _ _).trans (hw.blocks k)
    case enabled => exact (enabled_tryLoad _ _ _).trans hw.enabled
    case creds => exact hw.creds
    case sent => exact hw.sent

theorem ReadsFrom.sbumpc_cons {x : UInt8} (h : ReadsFrom c unknown b (x :: rest))
    (hw : Warm c sent w) (hio : ∀ m, (env.io m).Succeeds) (hcurl : b.curl = true) :
    ∃ b' w', sbumpc env w b = .ok (some x, b', w') ∧ ReadsFrom c unknown b' rest ∧
      Warm c sent w' ∧ b'.curl = true := by
  rw [sbumpc, underflow]
  cases h with
  | inside hlt hget hrest =>
    rw [if_pos hlt, current, hget]
    exact ⟨_, w, rfl, hrest, hw, hcurl⟩
  | @loads _ block _ _ hle heof hblock hget hrest =>
    obtain ⟨w', hload, hw'⟩ := hw.loadWindow hio hcurl hblock
    have hlen : (b.filled block).windowLen ≠ 0 := by
      intro hzero
      have hnil : block = [] := List.length_eq_zero_iff.mp hzero
      rw [show (b.filled block).window = block from rfl, hnil] at hget
      cases hget
    rw [if_neg (not_lt.mpr hle), if_neg (by simp [heof]), ← next, hload]
    dsimp only
    rw [if_neg hlen, current, hget]
    exact ⟨_, w', rfl, hrest, hw', hcurl⟩

theorem ReadsFrom.sbumpc_nil (h : ReadsFrom c unknown b []) (hknown : ¬unknown)
    (hw : Warm c sent w) (hio : ∀ m, (env.io m).Succeeds) (hcurl : b.curl = true) :
    ∃ b' w', sbumpc env w b = .ok (none, b', w') ∧ ReadsFrom c unknown b' [] ∧
      Warm c sent w' ∧ b'.curl = true := by
  rw [sbumpc, underflow]
  cases h with
  | ended hle heof =>
    rw [if_neg (not_lt.mpr hle), if_pos heof]
    exact ⟨b, w, rfl, .ended hle heof, hw, hcurl⟩
  | finds hle heof hblock =>
    obtain ⟨w', hload, hw'⟩ := hw.loadWindow hio hcurl hblock
    rw [if_neg (not_lt.mpr hle), if_neg (by simp [heof]), ← next, hload]
    dsimp only
    rw [if_pos (show (b.filled []).windowLen = 0 from rfl)]
    exact ⟨_, w', rfl, .ended (Nat.zero_le _) rfl, hw', hcurl⟩
  | asks hle heof hunknown => exact absurd hunknown hknown

/-- **A later stream** reads what there is to read, and meets the end of the file where it shows,
without a request. -/
theorem ReadsFrom.sgetn (hio : ∀ m, (env.io m).Succeeds) {k : ℕ} (h : ReadsFrom c unknown b rest)
    (hk : unknown → k ≤ rest.length) (hw : Warm c sent w) (hcurl : b.curl = true) :
    ∃ b' w', sgetn env w b k = .ok ((rest.take k, decide ((rest.take k).length < k)), b', w') ∧
      ReadsFrom c unknown b' (rest.drop k) ∧ Warm c sent w' ∧ b'.curl = true := by
  induction k generalizing w b rest with
  | zero => exact ⟨b, w, by simp [S3Streambuf.sgetn], h, hw, hcurl⟩
  | succ k ih =>
    rw [S3Streambuf.sgetn]
    cases rest with
    | nil =>
      obtain ⟨b', w', hbump, hrest, hw', hcurl'⟩ := h.sbumpc_nil
        (fun hunknown ↦ absurd (hk hunknown) (by simp)) hw hio hcurl
      rw [hbump]
      exact ⟨b', w', by simp, hrest, hw', hcurl'⟩
    | cons x rest =>
      obtain ⟨b₁, w₁, hbump, hrest, hw₁, hcurl₁⟩ := h.sbumpc_cons hw hio hcurl
      obtain ⟨b', w', hread, hdone, hw', hcurl'⟩ := ih hrest
        (fun hunknown ↦ Nat.le_of_succ_le_succ (hk hunknown)) hw₁ hcurl₁
      rw [hbump]
      dsimp only
      rw [hread]
      exact ⟨b', w', by simp [Except.map], hdone, hw', hcurl'⟩

end

end S3Streambuf

open S3Streambuf

/-! ## Sessions of later streams -/

/-- A later stream is opened with the same window size, or read from; where the last block of the
object is a whole one, not past the end. -/
def SessionStep.Rereads (O : Bytes) (readAhead : ℕ) (ps : List ℕ) : SessionStep → Prop
  | .openStream r => r = readAhead
  | .call i op => ∃ k, op = .read k ∧ (readAhead ∣ O.length → ∀ p ∈ ps[i]?, p + k ≤ O.length)

def AllReread (O : Bytes) (readAhead : ℕ) : List ℕ → List SessionStep → Prop
  | _, [] => True
  | ps, step :: steps =>
    step.Rereads O readAhead ps ∧ AllReread O readAhead (plainStep O ps step).2 steps

theorem rel_getElem? {α β : Type*} {R : α → β → Prop} {l : List α} {m : List β}
    (h : List.Forall₂ R l m) (i : ℕ) : Option.Rel R l[i]? m[i]? := by
  induction h generalizing i with
  | nil => exact .none
  | cons hab hrest ih =>
    cases i with
    | zero => exact .some hab
    | succ i => simpa using ih i

theorem forall₂_set {α β : Type*} {R : α → β → Prop} {l : List α} {m : List β}
    (h : List.Forall₂ R l m) (i : ℕ) {a : α} {b : β} (hab : R a b) :
    List.Forall₂ R (l.set i a) (m.set i b) := by
  induction h generalizing i with
  | nil => exact .nil
  | cons hhead hrest ih =>
    cases i with
    | zero => exact .cons hab hrest
    | succ i => exact .cons hhead (ih i)

/-- The streams of a session stand at the positions `ps`, and can go on from there without a
request. -/
structure Rereading (c : DiskCache) (sent : List HttpRequest) (O : Bytes) (readAhead : ℕ)
    (s : Session) (ps : List ℕ) : Prop where
  reads : List.Forall₂ (fun b p ↦ ReadsFrom c (readAhead ∣ O.length) b (O.drop p) ∧ b.curl = true)
    s.streams ps
  warm : Warm c sent s.world

section

variable {env : Outside} (cfg : Config) {cfg₀ : Config} {uri O : Bytes} {readAhead : ℕ}
  {c : DiskCache} {sent : List HttpRequest} {s : Session} {ps : List ℕ}

theorem sameWindow_create (cfg cfg' : Config) (uri bucket key bucket' key' : Bytes)
    (readAhead : ℕ) : SameWindow (.create cfg uri bucket key readAhead true)
      (.create cfg' uri bucket' key' readAhead true) :=
  ⟨rfl, rfl, rfl, rfl, rfl, rfl, rfl, rfl, rfl⟩

theorem drop_add_length_slice (O : Bytes) (p k : ℕ) :
    O.drop (p + (slice O p k).length) = (O.drop p).drop k := by
  rw [List.drop_drop, length_slice]
  rcases Nat.le_total k (O.length - p) with hle | hle
  · rw [Nat.min_eq_left hle]
  · rw [Nat.min_eq_right hle, List.drop_eq_nil_of_le (by omega), List.drop_eq_nil_of_le (by omega)]

theorem Rereading.apply (hio : ∀ m, (env.io m).Succeeds) (hcurl : ∀ m, env.curlInit m = true)
    (huri : NamesObject uri) {bucket key : Bytes}
    (hfresh : ReadsFrom c (readAhead ∣ O.length) (.create cfg₀ uri bucket key readAhead true) O)
    (h : Rereading c sent O readAhead s ps) {step : SessionStep}
    (hstep : step.Rereads O readAhead ps) :
    ∃ s', s.apply env cfg uri step = .ok ((plainStep O ps step).1, s') ∧
      Rereading c sent O readAhead s' (plainStep O ps step).2 := by
  cases step with
  | openStream r =>
    obtain rfl : r = readAhead := hstep
    obtain ⟨b, w', hopen⟩ := openStream_of_valid cfg huri hcurl
      (CredentialProvider.valid_get _ _ h.warm.creds) r
    have hopens := opens_of_openStream hopen
    have hreads : ReadsFrom c (r ∣ O.length) b O := by
      rw [hopens.stream]
      exact hfresh.congr (sameWindow_create _ _ _ _ _ _ _ _)
    refine ⟨{ streams := s.streams ++ [b], world := w' }, ?_, ?_, ?_⟩
    · rw [Session.apply, hopen]
      rfl
    · exact List.rel_append h.reads (.cons ⟨hreads, hopens.stream ▸ rfl⟩ .nil)
    · exact ⟨hopens.cache ▸ h.warm.blocks, hopens.cache ▸ h.warm.enabled, hopens.creds,
        hopens.sent.trans h.warm.sent⟩
  | call i op =>
    obtain ⟨k, rfl, hwithin⟩ := hstep
    have hrel := rel_getElem? h.reads i
    rw [Session.apply, plainStep]
    generalize s.streams[i]? = atStream, ps[i]? = atPosition at hrel hwithin ⊢
    rcases hrel with @⟨b, p, hreads, hhandle⟩ | _
    · have hk : readAhead ∣ O.length → k ≤ (O.drop p).length := by
        intro hdvd
        have hle := hwithin hdvd p rfl
        rw [List.length_drop]
        omega
      obtain ⟨b', w', hread, hrest, hw', hhandle'⟩ := hreads.sgetn hio hk h.warm hhandle
      refine ⟨{ streams := s.streams.set i b', world := w' }, ?_, ?_, hw'⟩
      · dsimp only
        rw [S3Streambuf.apply, hread]
        rfl
      · refine forall₂_set h.reads i ⟨?_, hhandle'⟩
        rw [plainApply, drop_add_length_slice]
        exact hrest
    · exact ⟨s, rfl, h⟩

theorem Rereading.run (hio : ∀ m, (env.io m).Succeeds) (hcurl : ∀ m, env.curlInit m = true)
    (huri : NamesObject uri) {bucket key : Bytes}
    (hfresh : ReadsFrom c (readAhead ∣ O.length) (.create cfg₀ uri bucket key readAhead true) O)
    {steps : List SessionStep} (h : Rereading c sent O readAhead s ps)
    (hsteps : AllReread O readAhead ps steps) :
    ∃ s', s.run env cfg uri steps = .ok (plainSession O ps steps, s') ∧ s'.world.sent = sent := by
  induction steps generalizing s ps with
  | nil => exact ⟨s, rfl, h.warm.sent⟩
  | cons step steps ih =>
    obtain ⟨hstep, hrest⟩ := hsteps
    obtain ⟨s₁, happly, h₁⟩ := h.apply cfg hio hcurl huri hfresh hstep
    obtain ⟨s', hrun, hsent⟩ := ih h₁ hrest
    refine ⟨s', ?_, hsent⟩
    rw [Session.run, happly]
    dsimp only
    rw [hrun]
    rfl

/-- **A warm re-read needs no network.** Once a stream has read `O` to its end, through a cache with
room for the blocks of `O` and whatever else is in it, any number of later streams read `O` from
that cache without a request, in pieces of any size and in any order; and meet its end, unless that
falls on a chunk boundary and has to be asked for. -/
theorem warmReread (hserver : HonoursRanges env O) (hio : ∀ m, (env.io m).Succeeds)
    (hcurl : ∀ m, env.curlInit m = true) (hO : O.length < 2 ^ 63) (hpos : 1 ≤ readAhead)
    {w w₀ w₁ : World} (henabled : w.cache.enabled = true)
    (hfits : (O.length + readAhead - 1) / readAhead ≤ w.cache.maxBlocks) {since : ℕ}
    (hold : ∀ f ∈ w.cache.files.files, f.mtime < since)
    (hclock : ∀ m, w.moment ≤ m → since ≤ (env.io m).now) {b₀ b₁ : S3Streambuf} {ks : List ℕ}
    (hopen : openStream env cfg₀ w uri readAhead = (some b₀, w₀))
    (hread : b₀.readPieces env w₀ ks = .ok ((O, true), b₁, w₁)) (herror : w₁.lastError = [])
    {steps : List SessionStep} (hsteps : AllReread O readAhead [] steps) :
    ∃ s, Session.run env cfg uri { world := w₁ } steps = .ok (plainSession O [] steps, s) ∧
      s.world.sent = w₁.sent := by
  rw [readPieces_eq_sgetn] at hread
  have hopens := opens_of_openStream hopen
  have huri : NamesObject uri :=
    ⟨b₀.bucket, b₀.key, hopens.uri_eq, hopens.slash, hopens.bucket_ne, hopens.key_ne⟩
  have hpass : FirstPass O uri readAhead since w.moment b₀ w₀ 0 := by
    have hrecent : w.cache.RecentIn since (blockNames uri readAhead O) := by
      intro f hf hrecent
      have hlt := hold f hf
      simp only [DiskCache.isRecent, Bool.and_eq_true, decide_eq_true_eq] at hrecent
      omega
    rw [hopens.stream]
    constructor
    case uri_eq => rfl
    case readAhead_eq => exact if_neg (by omega)
    case pos => rfl
    case egptr_eq => rfl
    case gptr_le => exact le_rfl
    case le_length => exact Nat.zero_le _
    case later => exact hopens.later
    case enabled => exact hopens.cache ▸ henabled
    case recent => exact hopens.cache ▸ hrecent
    case fits => exact hopens.cache ▸ hfits
  obtain ⟨hreads, hkeeps⟩ := ReadsFrom.of_sgetn hserver hio hclock hO hpos hpass hread herror
  rw [hopens.stream, List.drop_zero] at hreads
  have hwarm : Warm w₁.cache w₁.sent w₁ :=
    ⟨fun _ ↦ rfl, hkeeps.enabled (hopens.cache ▸ henabled), hkeeps.creds hopens.creds, rfl⟩
  exact Rereading.run cfg hio hcurl huri hreads ⟨.nil, hwarm⟩ hsteps

end

/-! ## Examples -/

/-- Two blocks, the second of them a short one, and two later streams. -/
def laterStreams : List SessionStep :=
  [.openStream 4, .call 0 (.read 5), .openStream 4, .call 1 (.read 7), .call 0 (.read 7)]

theorem warmReread_twoStreams : ∃ b₀ w₀ b₁ w₁ s,
    openStream (calm [1, 2, 3, 4, 5, 6]) usEast
      { provider := .create (utf8 "default"), cache := .fresh (utf8 "/var/tmp/n3r-cache") 8 }
      (utf8 "s3://b/k") 4 = (some b₀, w₀) ∧
    b₀.readPieces (calm [1, 2, 3, 4, 5, 6]) w₀ [2, 5] = .ok (([1, 2, 3, 4, 5, 6], true), b₁, w₁) ∧
    Session.run (calm [1, 2, 3, 4, 5, 6]) usEast (utf8 "s3://b/k") { world := w₁ } laterStreams
      = .ok (plainSession [1, 2, 3, 4, 5, 6] [] laterStreams, s) ∧ s.world.sent = w₁.sent := by
  obtain ⟨b₀, w₀, hopen, hreads⟩ : ∃ b₀ w₀, openStream (calm [1, 2, 3, 4, 5, 6]) usEast
      { provider := .create (utf8 "default"), cache := .fresh (utf8 "/var/tmp/n3r-cache") 8 }
      (utf8 "s3://b/k") 4 = (some b₀, w₀) ∧
      (b₀.readPieces (calm [1, 2, 3, 4, 5, 6]) w₀ [2, 5]).map (fun r ↦ (r.1, r.2.2.lastError))
        = .ok (([1, 2, 3, 4, 5, 6], true), []) :=
    ⟨_, _, rfl, by decide +kernel⟩
  obtain ⟨⟨r, b₁, w₁⟩, hread, heq⟩ := exists_of_map_eq_ok hreads
  obtain ⟨rfl, herror⟩ := Prod.mk.inj heq
  have hold : ∀ f ∈ (DiskCache.fresh (utf8 "/var/tmp/n3r-cache") 8).files.files, f.mtime < 0 := by
    decide
  have hsteps : AllReread [1, 2, 3, 4, 5, 6] 4 [] laterStreams := by
    refine ⟨rfl, ⟨5, rfl, ?_⟩, rfl, ⟨7, rfl, ?_⟩, ⟨7, rfl, ?_⟩, trivial⟩ <;>
      exact fun hdvd ↦ absurd hdvd (by decide)
  obtain ⟨s, hrun, hsent⟩ := warmReread usEast (servesRanges_calm _).honours (fun _ ↦ rfl)
    (fun _ ↦ rfl) (by decide) (by decide) rfl (by decide) hold (fun _ _ ↦ Nat.zero_le _) hopen
    hread herror hsteps
  exact ⟨b₀, w₀, b₁, w₁, s, hopen, hread, hrun, hsent⟩

/-- A cache with room for two blocks and, in one of the places, a file dated in the future. -/
def aheadOfClock : DiskCache :=
  { DiskCache.fresh (utf8 "/var/tmp/n3r-cache") 2 with
    files := Directory.empty.put ⟨pathFor ⟨utf8 "s3://b/other", 0⟩, 1000, [7]⟩ }

/-- A disk on which nothing can be created. -/
def readOnly (O : Bytes) : Outside := { careful O with io := fun m ↦ { now := m, create := false } }

/-- A stream is opened, and reads a byte more than the object has. -/
def readThrough (O : Bytes) (readAhead : ℕ) : List SessionStep :=
  [.openStream readAhead, .call 0 (.read (O.length + 1))]

/-- Of two streams that read `O` to its end, through a cache that is enabled and has room for all of
it, the second sends requests too. -/
structure AsksAgain (env : Outside) (O : Bytes) (readAhead : ℕ) (cache : DiskCache) : Prop where
  server : AnswersTruly env O
  enabled : cache.enabled = true
  pos : 1 ≤ readAhead
  fits : (O.length + readAhead - 1) / readAhead ≤ cache.maxBlocks
  again : ∃ r ∈ (Session.run env usEast (utf8 "s3://b/k")
      { world := { provider := .create (utf8 "default"), cache := cache } }
      (readThrough O readAhead)).toOption,
    delivered r.1 = [none, some (O, true)] ∧
    ∃ r' ∈ (Session.run env usEast (utf8 "s3://b/k") { world := r.2.world }
        (readThrough O readAhead)).toOption,
      delivered r'.1 = [none, some (O, true)] ∧
        r.2.world.sent.length < r'.2.world.sent.length

/-- What a second stream asks for again: an end that falls on a chunk boundary, what came in a whole
answer, what the disk did not take, and what was evicted for a file that looks newer. -/
theorem asksAgain_boundary :
    AsksAgain (careful [1, 2, 3, 4]) [1, 2, 3, 4] 4 (.fresh (utf8 "/var/tmp/n3r-cache") 8) ∧
    AsksAgain (careful []) [] 4 (.fresh (utf8 "/var/tmp/n3r-cache") 8) ∧
    AsksAgain (unranged [1, 2, 3]) [1, 2, 3] 4 (.fresh (utf8 "/var/tmp/n3r-cache") 8) ∧
    AsksAgain (readOnly [1, 2, 3]) [1, 2, 3] 2 (.fresh (utf8 "/var/tmp/n3r-cache") 8) ∧
    AsksAgain (careful [1, 2, 3]) [1, 2, 3] 2 aheadOfClock := by
  refine ⟨?_, ?_, ?_, ?_, ?_⟩
  · exact ⟨answersTruly_careful _, rfl, by decide, by decide, by decide +kernel⟩
  · exact ⟨answersTruly_careful _, rfl, by decide, by decide, by decide +kernel⟩
  · exact ⟨answersTruly_unranged _, rfl, by decide, by decide, by decide +kernel⟩
  · exact ⟨answersTruly_careful _, rfl, by decide, by decide, by decide +kernel⟩
  · exact ⟨answersTruly_careful _, rfl, by decide, by decide, by decide +kernel⟩

end Nanos3Reader
