import Nanos3Reader.Stream.Window

/-!
# What a load leaves behind

`load_window` tries again, follows a redirect, asks the cache and writes to it, but of the window it
leaves there are only few kinds: bytes installed from the cache or from a response, no bytes behind
the end of the object, or no window after a failure. Which of these it is depends on the *answer*
the load gets, and this file says so once, for any server. The second half says what the calls of
the `std::streambuf` interface do to a stream in terms of their loads.
-/

open ByteText

namespace Nanos3Reader

/-! ## Answers -/

/-- What a load gets: a block of the cache, the body of a 206 or of a 200, a 416, no response it can
use; or it throws, or never ends. -/
inductive Answer where
  | block (data : Bytes)
  | part (data : Bytes)
  | whole (data : Bytes)
  | pastEnd
  | failed
  | never
deriving DecidableEq

/-- Where the bytes of an answer to a load from `start` begin in the object, and the bytes. -/
def Answer.bytes (start : ℕ) : Answer → Option (ℕ × Bytes)
  | .block data | .part data => some (start, data)
  | .whole data => some (0, data)
  | .pastEnd | .failed | .never => none

/-- What a load makes of the transfer it ends on. -/
def Transfer.answer (t : Transfer) : Answer :=
  if t.rc = .ok ∧ t.code = 206 then .part t.chunks.flatten
  else if t.rc = .ok ∧ t.code = 200 then .whole t.chunks.flatten
  else if t.rc = .ok ∧ t.code = 416 then .pastEnd
  else .failed

namespace S3Streambuf

/-- The transfer on which the loop of `load_window` ends, with the stream that received it and the
world after it. -/
def lastTransfer (env : Outside) (cred : Credentials) (start : ℕ) (w : World) (b : S3Streambuf)
    (redirected : Bool) (attempt : ℕ) : Transfer × S3Streambuf × World :=
  let (t, w) := w.perform env (b.rangeRequest env cred start (env.amzNow w.moment))
  let b' := b.receive t
  match _h : b'.verdict redirected attempt t with
  | .redirect => lastTransfer env cred start w b'.retarget true attempt
  | .retry => lastTransfer env cred start w b' redirected (attempt + 1)
  | _ => (t, b', w)
termination_by 2 * (b.cfg.maxAttempts.toNat - attempt) + (if redirected then 0 else 1)
decreasing_by
  · obtain rfl := eq_false_of_verdict_redirect _h
    simp [retarget, receive]
  · have hlt : attempt + 1 < b.cfg.maxAttempts.toNat := lt_of_verdict_retry (b := b') _h
    simp only [receive]
    omega

/-- Where the window for `target` starts. -/
def loadStart (b : S3Streambuf) (w : World) (target : ℕ) : ℕ :=
  if w.cache.enabled then target / b.readAhead * b.readAhead else target

/-- The answer that the loop gets with its last transfer. Only a block of the cache is written to
it, and that may never end. -/
def fetchAnswer (env : Outside) (cacheOn : Bool) (start : ℕ)
    (last : Transfer × S3Streambuf × World) : Answer :=
  let (t, b, w) := last
  match t.answer with
  | .part data =>
    if cacheOn ∧ w.store env ⟨b.uri, .ofNat start⟩ data = none then .never else .part data
  | a => a

/-- The answer that `load_window` for `target` gets. -/
def answer (env : Outside) (w : World) (b : S3Streambuf) (target : ℕ) : Answer :=
  if b.curl = false then .failed
  else
    let start := b.loadStart w target
    match w.tryLoad env ⟨b.uri, .ofNat start⟩ with
    | (some block, _) => .block block
    | (none, w') =>
      let (cred, w') := w'.getCredentials env
      if cred.valid = false then .failed
      else if maxSize < b.readAhead then .never
      else fetchAnswer env w.cache.enabled start (lastTransfer env cred start w' b false 0)

/-- Requests go to where the region says. -/
structure Targeted (b : S3Streambuf) : Prop where
  host : b.host = (buildEndpoint b.cfg b.bucket b.key b.region).host
  url : b.url = (buildEndpoint b.cfg b.bucket b.key b.region).url
  path : b.path = (buildEndpoint b.cfg b.bucket b.key b.region).path

/-- `b'` is `b` but for the region its requests go to and what it received last. -/
structure Kept (b b' : S3Streambuf) : Prop where
  cfg : b'.cfg = b.cfg
  uri : b'.uri = b.uri
  bucket : b'.bucket = b.bucket
  key : b'.key = b.key
  targeted : b.Targeted → b'.Targeted
  readAhead : b'.readAhead = b.readAhead
  curl : b'.curl = b.curl
  windowStart : b'.windowStart = b.windowStart
  reachedEof : b'.reachedEof = b.reachedEof

theorem Kept.refl (b : S3Streambuf) : Kept b b := ⟨rfl, rfl, rfl, rfl, id, rfl, rfl, rfl, rfl⟩

theorem Kept.trans {b b' b'' : S3Streambuf} (h : Kept b b') (h' : Kept b' b'') : Kept b b'' :=
  ⟨h'.cfg.trans h.cfg, h'.uri.trans h.uri, h'.bucket.trans h.bucket, h'.key.trans h.key,
    h'.targeted ∘ h.targeted, h'.readAhead.trans h.readAhead, h'.curl.trans h.curl,
    h'.windowStart.trans h.windowStart, h'.reachedEof.trans h.reachedEof⟩

theorem Kept.receive (b : S3Streambuf) (t : Transfer) : Kept b (b.receive t) :=
  ⟨rfl, rfl, rfl, rfl, fun h ↦ ⟨h.host, h.url, h.path⟩, rfl, rfl, rfl, rfl⟩

theorem Kept.retarget (b : S3Streambuf) : Kept b b.retarget :=
  ⟨rfl, rfl, rfl, rfl, fun _ ↦ ⟨rfl, rfl, rfl⟩, rfl, rfl, rfl, rfl⟩

section

variable {env : Outside} {w w' : World} {b b' : S3Streambuf}

theorem lastTransfer_eq (env : Outside) (cred : Credentials) (start : ℕ) (w : World)
    (b : S3Streambuf) (redirected : Bool) (attempt : ℕ) :
    lastTransfer env cred start w b redirected attempt
      = let sent := w.perform env (b.rangeRequest env cred start (env.amzNow w.moment))
        match (b.receive sent.1).verdict redirected attempt sent.1 with
        | .redirect => lastTransfer env cred start sent.2 (b.receive sent.1).retarget true attempt
        | .retry => lastTransfer env cred start sent.2 (b.receive sent.1) redirected (attempt + 1)
        | _ => (sent.1, b.receive sent.1, sent.2) := by
  rw [lastTransfer]
  dsimp only
  split <;> simp_all

/-- The loop leaves the stream's window alone, and its last transfer in the buffer. -/
theorem lastTransfer_kept (env : Outside) (cred : Credentials) (start : ℕ) (w : World)
    (b : S3Streambuf) (redirected : Bool) (attempt : ℕ) :
    Kept b (lastTransfer env cred start w b redirected attempt).2.1 ∧
      (lastTransfer env cred start w b redirected attempt).2.2.cache = w.cache ∧
      (lastTransfer env cred start w b redirected attempt).2.1.window
        = (lastTransfer env cred start w b redirected attempt).1.chunks.flatten := by
  induction w, b, redirected, attempt using lastTransfer.induct env cred start with
  | case1 w b redirected attempt t w' hperform b' hverdict ih =>
    have hcache : w'.cache = w.cache := by cases hperform; rfl
    rw [lastTransfer_eq, hperform]
    dsimp only
    rw [hverdict]
    have hstep : Kept b b'.retarget := (Kept.receive b t).trans (.retarget b')
    obtain ⟨hkept, hsame, hwindow⟩ := ih
    exact ⟨hstep.trans hkept, hsame.trans hcache, hwindow⟩
  | case2 w b redirected attempt t w' hperform b' hverdict ih =>
    have hcache : w'.cache = w.cache := by cases hperform; rfl
    rw [lastTransfer_eq, hperform]
    dsimp only
    rw [hverdict]
    obtain ⟨hkept, hsame, hwindow⟩ := ih
    exact ⟨(Kept.receive b t).trans hkept, hsame.trans hcache, hwindow⟩
  | case3 w b redirected attempt t w' hperform b' hredirect hretry =>
    have hcache : w'.cache = w.cache := by cases hperform; rfl
    rw [lastTransfer_eq, hperform]
    dsimp only
    split
    · next h => exact absurd h hredirect
    · next h => exact absurd h hretry
    · exact ⟨.receive b t, hcache, rfl⟩

theorem lastTransfer_performed (env : Outside) (cred : Credentials) (start : ℕ) (w : World)
    (b : S3Streambuf) (redirected : Bool) (attempt : ℕ) :
    ∃ m req, w.moment ≤ m ∧ req.range = some (start, (start + b.readAhead - 1) % 2 ^ 64) ∧
      (lastTransfer env cred start w b redirected attempt).1 = env.perform m req ∧
      (lastTransfer env cred start w b redirected attempt).2.2.moment = m + 1 ∧
      (lastTransfer env cred start w b redirected attempt).2.2.provider = w.provider := by
  induction w, b, redirected, attempt using lastTransfer.induct env cred start with
  -- after the one redirect, or a wait, the same range is asked for again
  | case1 w b redirected attempt t w' hperform b' hverdict ih =>
    have hworld : w'.moment = w.moment + 1 ∧ w'.provider = w.provider := by
      cases hperform
      exact ⟨rfl, rfl⟩
    obtain ⟨m, req, hm, hrange, hlast, hmoment, hprovider⟩ := ih
    rw [lastTransfer_eq, hperform]
    dsimp only
    rw [hverdict]
    exact ⟨m, req, by omega, hrange, hlast, hmoment, hprovider.trans hworld.2⟩
  | case2 w b redirected attempt t w' hperform b' hverdict ih =>
    have hworld : w'.moment = w.moment + 1 ∧ w'.provider = w.provider := by
      cases hperform
      exact ⟨rfl, rfl⟩
    obtain ⟨m, req, hm, hrange, hlast, hmoment, hprovider⟩ := ih
    rw [lastTransfer_eq, hperform]
    dsimp only
    rw [hverdict]
    exact ⟨m, req, by omega, hrange, hlast, hmoment, hprovider.trans hworld.2⟩
  | case3 w b redirected attempt t w' hperform b' hredirect hretry =>
    refine ⟨w.moment, b.rangeRequest env cred start (env.amzNow w.moment), le_rfl, rfl, ?_⟩
    rw [lastTransfer_eq, hperform]
    dsimp only
    split
    · next h => exact absurd h hredirect
    · next h => exact absurd h hretry
    · cases hperform
      exact ⟨rfl, rfl, rfl⟩

/-- What the loop makes of its last transfer. -/
def conclude (env : Outside) (cacheOn : Bool) (start target : ℕ)
    (last : Transfer × S3Streambuf × World) : Except Fault (Bool × S3Streambuf × World) :=
  let (t, b, w) := last
  if t.rc = .ok ∧ (t.code = 200 ∨ t.code = 206) then b.deliver env w cacheOn start target t.code
  else if t.rc = .ok ∧ t.code = 416 then
    .ok (true,
      { b with windowStart := start, windowLen := 0, reachedEof := true, gptr := 0, egptr := 0 },
      { w with lastError := [] })
  else .ok (b.fail w (b.failure env t))

theorem verdict_eq_deliver {redirected : Bool} {attempt : ℕ} {t : Transfer} :
    b.verdict redirected attempt t = .deliver ↔ t.rc = .ok ∧ (t.code = 200 ∨ t.code = 206) := by
  rw [verdict]
  split
  · next h => simp [h]
  · next h =>
    refine iff_of_false ?_ h
    split
    · simp
    · split
      · simp
      · split <;> simp

theorem verdict_eq_pastEnd {redirected : Bool} {attempt : ℕ} {t : Transfer} :
    b.verdict redirected attempt t = .pastEnd ↔ t.rc = .ok ∧ t.code = 416 := by
  rw [verdict]
  split
  · next h =>
    refine iff_of_false (by simp) fun hc ↦ ?_
    rcases h.2 with hcode | hcode <;> omega
  · split
    · next h => simp [h]
    · next h =>
      refine iff_of_false ?_ h
      split
      · simp
      · split <;> simp

theorem fetch_eq_conclude (env : Outside) (cred : Credentials) (cacheOn : Bool) (start target : ℕ)
    (w : World) (b : S3Streambuf) (redirected : Bool) (attempt : ℕ)
    (hra : b.readAhead ≤ maxSize) :
    fetch env cred cacheOn start target w b redirected attempt
      = conclude env cacheOn start target (lastTransfer env cred start w b redirected attempt) := by
  induction w, b, redirected, attempt using lastTransfer.induct env cred start with
  | case1 w b redirected attempt t w' hperform b' hverdict ih =>
    rw [fetch, if_neg (not_lt.mpr hra), lastTransfer_eq, hperform]
    dsimp only
    rw [hverdict]
    exact ih hra
  | case2 w b redirected attempt t w' hperform b' hverdict ih =>
    rw [fetch, if_neg (not_lt.mpr hra), lastTransfer_eq, hperform]
    dsimp only
    rw [hverdict]
    exact ih hra
  | case3 w b redirected attempt t w' hperform b' hredirect hretry =>
    rw [fetch, if_neg (not_lt.mpr hra), lastTransfer_eq, hperform]
    dsimp only
    cases hverdict : b'.verdict redirected attempt t with
    | redirect => exact absurd hverdict hredirect
    | retry => exact absurd hverdict hretry
    | deliver => rw [conclude, if_pos (verdict_eq_deliver.mp hverdict)]
    | pastEnd =>
      have hout := mt verdict_eq_deliver.mpr
        (show b'.verdict redirected attempt t ≠ .deliver by simp [hverdict])
      rw [conclude, if_neg hout, if_pos (verdict_eq_pastEnd.mp hverdict)]
    | giveUp =>
      have hout := mt verdict_eq_deliver.mpr
        (show b'.verdict redirected attempt t ≠ .deliver by simp [hverdict])
      have hpast := mt verdict_eq_pastEnd.mpr
        (show b'.verdict redirected attempt t ≠ .pastEnd by simp [hverdict])
      rw [conclude, if_neg hout, if_neg hpast]

/-! ## How a load ends -/

theorem gptr_installWindow (b : S3Streambuf) (origin logicalPos : ℕ) (isPartial : Bool) :
    (b.installWindow origin logicalPos isPartial).gptr
      = min (logicalPos - if isPartial then origin else 0) b.window.length := by
  simp only [installWindow]
  split <;> split <;> split <;> omega

/-- What `load_window` for `target` makes of a stream `b`, when the window starts at `start`. -/
inductive Ends (b : S3Streambuf) (start target : ℕ) : Answer → Bool → S3Streambuf → World → Prop
  | block {b₁ : S3Streambuf} {w' : World} (hkept : Kept b b₁) (herror : w'.lastError = []) :
      Ends b start target (.block b₁.window) true (b₁.installWindow start target true) w'
  | part {b₁ : S3Streambuf} {w' : World} (hkept : Kept b b₁) (herror : w'.lastError = []) :
      Ends b start target (.part b₁.window) true (b₁.installWindow start target true) w'
  | whole {b₁ : S3Streambuf} {w' : World} (hkept : Kept b b₁) (herror : w'.lastError = []) :
      Ends b start target (.whole b₁.window) true (b₁.installWindow start target false) w'
  | pastEnd {b₁ : S3Streambuf} {w' : World} (hkept : Kept b b₁) (herror : w'.lastError = []) :
      Ends b start target .pastEnd true
        { b₁ with windowStart := start, windowLen := 0, reachedEof := true, gptr := 0, egptr := 0 }
        w'
  | failed {b₁ : S3Streambuf} {w' : World} (hkept : Kept b b₁) {message : Bytes}
      (hmessage : message ≠ []) (herror : w'.lastError = message) :
      Ends b start target .failed false
        { b₁ with lastError := message, windowLen := 0, gptr := 0, egptr := 0 } w'

theorem failure_ne_nil (b : S3Streambuf) (env : Outside) (t : Transfer) : b.failure env t ≠ [] := by
  rw [failure]
  split <;> simp

/-- A load either returns, and ends as its answer says, or throws or hangs. -/
def LoadEnds (env : Outside) (w : World) (b : S3Streambuf) (target : ℕ) : Prop :=
  (b.answer env w target = .never ∧
      ∃ f, f ≠ .outOfWindow ∧ loadWindow env w b target = .error f) ∨
    ∃ ok b' w', loadWindow env w b target = .ok (ok, b', w') ∧
      w'.cache.enabled = w.cache.enabled ∧
      Ends b (b.loadStart w target) target (b.answer env w target) ok b' w'

theorem enabled_world_tryLoad (env : Outside) (w : World) (k : BlockKey) :
    (w.tryLoad env k).2.cache.enabled = w.cache.enabled := by
  rw [World.tryLoad]
  split
  · exact enabled_tryLoad _ _ _
  · rfl

theorem enabled_of_world_store {env : Outside} {w w' : World} {k : BlockKey} {data : Bytes}
    (h : w.store env k data = some w') : w'.cache.enabled = w.cache.enabled := by
  obtain ⟨c, hc, rfl⟩ := Option.map_eq_some_iff.mp h
  exact enabled_of_store hc

theorem conclude_ends (env : Outside) (cacheOn : Bool) (start target : ℕ) {t : Transfer}
    {b₁ : S3Streambuf} {w₁ : World} (hkept : Kept b b₁) (hwindow : b₁.window = t.chunks.flatten) :
    (fetchAnswer env cacheOn start (t, b₁, w₁) = .never ∧
        conclude env cacheOn start target (t, b₁, w₁) = .error .hangs) ∨
      ∃ ok b' w', conclude env cacheOn start target (t, b₁, w₁) = .ok (ok, b', w') ∧
        w'.cache.enabled = w₁.cache.enabled ∧
        Ends b start target (fetchAnswer env cacheOn start (t, b₁, w₁)) ok b' w' := by
  rw [fetchAnswer, conclude]
  by_cases hpart : t.rc = .ok ∧ t.code = 206
  · have hanswer : t.answer = .part b₁.window := by rw [Transfer.answer, if_pos hpart, hwindow]
    rw [hanswer, if_pos ⟨hpart.1, .inr hpart.2⟩, deliver, hpart.2]
    cases cacheOn with
    | false => exact .inr ⟨_, _, _, rfl, rfl, .part hkept rfl⟩
    | true =>
      cases hstore : w₁.store env ⟨b₁.uri, .ofNat start⟩ b₁.window with
      | none =>
        dsimp only
        rw [if_pos ⟨rfl, hstore⟩, if_pos ⟨rfl, rfl⟩]
        exact .inl ⟨rfl, rfl⟩
      | some w₂ =>
        have henabled := enabled_of_world_store hstore
        dsimp only
        rw [if_neg (by simp [hstore]), if_pos ⟨rfl, rfl⟩]
        exact .inr ⟨_, _, _, rfl, henabled, .part hkept rfl⟩
  · by_cases hwhole : t.rc = .ok ∧ t.code = 200
    · have hanswer : t.answer = .whole b₁.window := by
        rw [Transfer.answer, if_neg hpart, if_pos hwhole, hwindow]
      rw [hanswer, if_pos ⟨hwhole.1, .inl hwhole.2⟩, deliver, hwhole.2]
      dsimp only
      rw [if_neg (by simp)]
      exact .inr ⟨_, _, _, rfl, rfl, .whole hkept rfl⟩
    · have hout : ¬(t.rc = .ok ∧ (t.code = 200 ∨ t.code = 206)) := by tauto
      rw [if_neg hout, Transfer.answer, if_neg hpart, if_neg hwhole]
      by_cases hpast : t.rc = .ok ∧ t.code = 416
      · rw [if_pos hpast, if_pos hpast]
        exact .inr ⟨_, _, _, rfl, rfl, .pastEnd hkept rfl⟩
      · rw [if_neg hpast, if_neg hpast]
        exact .inr ⟨_, _, _, rfl, rfl, .failed hkept (failure_ne_nil b₁ env t) rfl⟩

theorem loadWindow_ends (env : Outside) (w : World) (b : S3Streambuf) (target : ℕ) :
    LoadEnds env w b target := by
  rw [LoadEnds, loadWindow, answer]
  split
  · exact .inr ⟨_, _, _, rfl, rfl, .failed (.refl b) (by simp) rfl⟩
  have henabled := enabled_world_tryLoad env w ⟨b.uri, .ofNat (b.loadStart w target)⟩
  dsimp only
  rw [← loadStart]
  cases hload : w.tryLoad env ⟨b.uri, .ofNat (b.loadStart w target)⟩ with
  | mk found w' =>
    rw [hload] at henabled
    cases found with
    | some block =>
      have hkept : Kept b { b with window := block } :=
        ⟨rfl, rfl, rfl, rfl, fun h ↦ ⟨h.host, h.url, h.path⟩, rfl, rfl, rfl, rfl⟩
      exact .inr ⟨_, _, _, rfl, henabled, .block hkept rfl⟩
    | none =>
      dsimp only
      split
      · exact .inr ⟨_, _, _, rfl, henabled, .failed (.refl b) (by simp) rfl⟩
      · split
        · next hra =>
          rw [fetch, if_pos hra]
          exact .inl ⟨rfl, _, by simp, rfl⟩
        · next hra =>
          rw [fetch_eq_conclude _ _ _ _ _ _ _ _ _ (not_lt.mp hra)]
          obtain ⟨hkept, hcache, hwindow⟩ := lastTransfer_kept env (w'.getCredentials env).1
            (b.loadStart w target) (w'.getCredentials env).2 b false 0
          rcases conclude_ends env w.cache.enabled (b.loadStart w target) target hkept hwindow with
            ⟨hnever, hhangs⟩ | ⟨ok, b', w'', hok, hsame, hends⟩
          · exact .inl ⟨hnever, _, by simp, hhangs⟩
          · refine .inr ⟨ok, b', w'', hok, ?_, hends⟩
            rw [hsame, hcache, ← henabled]
            rfl

theorem ends_of_loadWindow {target : ℕ} {ok : Bool}
    (h : loadWindow env w b target = .ok (ok, b', w')) :
    w'.cache.enabled = w.cache.enabled ∧
      Ends b (b.loadStart w target) target (b.answer env w target) ok b' w' := by
  rcases loadWindow_ends env w b target with ⟨-, f, -, herr⟩ | ⟨ok', b'', w'', hok, hsame, hends⟩
  · rw [herr] at h
    cases h
  · rw [hok] at h
    cases h
    exact ⟨hsame, hends⟩

/-! ## Calls -/

theorem exists_of_map_eq_ok {ε α β : Type*} {x : Except ε α} {f : α → β} {v : β}
    (h : x.map f = .ok v) : ∃ a, x = .ok a ∧ f a = v := by
  cases x with
  | error e => cases h
  | ok a => exact ⟨a, rfl, Except.ok.inj h⟩

theorem eq_error_of_map {ε α β : Type*} {x : Except ε α} {f : α → β} {e : ε}
    (h : x.map f = .error e) : x = .error e := by
  cases x with
  | error e' => exact congrArg Except.error (Except.error.inj h)
  | ok a => cases h

/-- Where the window starts that `underflow` loads. -/
def next (b : S3Streambuf) : ℕ := (b.windowStart + b.windowLen) % 2 ^ 64

/-- What `underflow` does when it returns. -/
inductive Underflows (env : Outside) (w : World) (b : S3Streambuf) :
    Option UInt8 → S3Streambuf → World → Prop
  | inside {c : UInt8} (hlt : b.gptr < b.egptr) (hget : b.window[b.gptr]? = some c) :
      Underflows env w b (some c) b w
  | ended (hle : b.egptr ≤ b.gptr) (heof : b.reachedEof = true) : Underflows env w b none b w
  | fails {b' : S3Streambuf} {w' : World} (hle : b.egptr ≤ b.gptr) (heof : b.reachedEof = false)
      (hload : loadWindow env w b b.next = .ok (false, b', w')) : Underflows env w b none b' w'
  | finds {b' : S3Streambuf} {w' : World} (hle : b.egptr ≤ b.gptr) (heof : b.reachedEof = false)
      (hload : loadWindow env w b b.next = .ok (true, b', w')) (hempty : b'.windowLen = 0) :
      Underflows env w b none { b' with reachedEof := true } w'
  | loads {b' : S3Streambuf} {w' : World} {c : UInt8} (hle : b.egptr ≤ b.gptr)
      (heof : b.reachedEof = false)
      (hload : loadWindow env w b b.next = .ok (true, b', w')) (hpos : 0 < b'.windowLen)
      (hget : b'.window[b'.gptr]? = some c) : Underflows env w b (some c) b' w'

theorem current_eq_ok {r : Option UInt8} (h : b.current w = .ok (r, b', w')) :
    b' = b ∧ w' = w ∧ ∃ c, r = some c ∧ b.window[b.gptr]? = some c := by
  rw [current] at h
  split at h
  · cases h
  · next c hget =>
    cases h
    exact ⟨rfl, rfl, c, rfl, hget⟩

theorem underflows {r : Option UInt8} (h : underflow env w b = .ok (r, b', w')) :
    Underflows env w b r b' w' := by
  rw [underflow] at h
  split at h
  · next hlt =>
    obtain ⟨rfl, rfl, c, rfl, hget⟩ := current_eq_ok h
    exact .inside hlt hget
  · next hlt =>
    have hle : b.egptr ≤ b.gptr := not_lt.mp hlt
    split at h
    · next heof =>
      cases h
      exact .ended hle heof
    · next heof =>
      have heof : b.reachedEof = false := by simpa using heof
      split at h
      · cases h
      · next hload =>
        cases h
        exact .fails hle heof hload
      · next hload =>
        split at h
        · next hempty =>
          cases h
          exact .finds hle heof hload hempty
        · next hpos =>
          obtain ⟨rfl, rfl, c, rfl, hget⟩ := current_eq_ok h
          exact .loads hle heof hload (Nat.pos_of_ne_zero hpos) hget

/-- A seek to `t` moves only the get pointer. -/
def Holds (b : S3Streambuf) (t : ℕ) : Prop :=
  0 < b.windowLen ∧ b.windowStart ≤ t ∧ t ≤ b.next

instance (b : S3Streambuf) (t : ℕ) : Decidable (b.Holds t) :=
  inferInstanceAs (Decidable (_ ∧ _ ∧ _))

/-- What `seekpos` does when it returns. -/
inductive Seeks (env : Outside) (w : World) (b : S3Streambuf) (sp : ℤ) (forInput : Bool) :
    ℤ → S3Streambuf → World → Prop
  | refused (hinput : forInput = false) : Seeks env w b sp forInput (-1) b w
  | inside (hin : b.Holds (toUint64 sp)) :
      Seeks env w b sp forInput sp
        { b with gptr := toUint64 sp - b.windowStart, egptr := b.windowLen }
        { w with lastError := [] }
  | loads {ok : Bool} {b' : S3Streambuf} {w' : World} (hout : ¬b.Holds (toUint64 sp))
      (hload : loadWindow env { w with lastError := [] } b (toUint64 sp) = .ok (ok, b', w')) :
      Seeks env w b sp forInput (if ok then sp else -1) b' w'

theorem seeks {sp r : ℤ} {forInput : Bool} (h : seekpos env w b sp forInput = .ok (r, b', w')) :
    Seeks env w b sp forInput r b' w' := by
  rw [seekpos] at h
  split at h
  · next hinput =>
    cases h
    exact .refused hinput
  · dsimp only at h
    split at h
    · next hin =>
      cases h
      exact .inside hin
    · next hout =>
      obtain ⟨⟨ok, b₁, w₁⟩, hload, hr⟩ := exists_of_map_eq_ok h
      cases hr
      exact .loads hout hload

/-- A `seekoff` that returns either changes nothing or is a `seekpos`. -/
theorem seekoff_cases {off r : ℤ} {dir : SeekDir} {forInput : Bool}
    (h : seekoff env w b off dir forInput = .ok (r, b', w')) :
    (r = -1 ∧ b' = b ∧ w' = w) ∨
      ∃ t : ℤ, 0 ≤ t ∧ t < 2 ^ 63 ∧ seekpos env w b t true = .ok (r, b', w') := by
  rw [seekoff] at h
  split at h
  · cases h
    exact .inl ⟨rfl, rfl, rfl⟩
  · next hdir =>
    have hinput : forInput = true := by simpa using (not_or.mp hdir).1
    dsimp only at h
    generalize (if dir = .cur then toInt64 b.curPos else 0) + off = t at h
    split at h
    · cases h
    · next hrange =>
      split at h
      · cases h
        exact .inl ⟨rfl, rfl, rfl⟩
      · exact .inr ⟨t, by omega, by omega, hinput ▸ h⟩

/-- One call of the interface on a stream that returns. A read of more bytes is a sequence of
`sbumpc`. -/
inductive Called (env : Outside) : S3Streambuf × World → S3Streambuf × World → Prop
  | underflow {w w' : World} {b b' : S3Streambuf} {r : Option UInt8}
      (h : underflow env w b = .ok (r, b', w')) : Called env (b, w) (b', w')
  | sbumpc {w w' : World} {b b' : S3Streambuf} {r : Option UInt8}
      (h : sbumpc env w b = .ok (r, b', w')) : Called env (b, w) (b', w')
  | seekpos {w w' : World} {b b' : S3Streambuf} {sp r : ℤ} {forInput : Bool}
      (h : seekpos env w b sp forInput = .ok (r, b', w')) : Called env (b, w) (b', w')
  | seekoff {w w' : World} {b b' : S3Streambuf} {off r : ℤ} {dir : SeekDir} {forInput : Bool}
      (h : seekoff env w b off dir forInput = .ok (r, b', w')) : Called env (b, w) (b', w')

/-- Every call is made of an `underflow` or a `seekpos`, and a step of the get pointer over the byte
that `underflow` found. -/
theorem Called.preserves {I : S3Streambuf → World → Prop}
    (hunderflow : ∀ w b r b' w', I b w → Underflows env w b r b' w' → I b' w')
    (hadvance : ∀ b w c, I b w → b.gptr < b.egptr ∨ 0 < b.windowLen → b.window[b.gptr]? = some c →
      I { b with gptr := b.gptr + 1 } w)
    (hseek : ∀ w b sp forInput r b' w', I b w → Seeks env w b sp forInput r b' w' → I b' w')
    {s s' : S3Streambuf × World} (hs : I s.1 s.2) (h : Called env s s') : I s'.1 s'.2 := by
  induction h with
  | underflow h => exact hunderflow _ _ _ _ _ hs (underflows h)
  | seekpos h => exact hseek _ _ _ _ _ _ _ hs (seeks h)
  | seekoff h =>
    obtain ⟨-, rfl, rfl⟩ | ⟨t, -, -, hpos⟩ := seekoff_cases h
    · exact hs
    · exact hseek _ _ _ _ _ _ _ hs (seeks hpos)
  | @sbumpc w w' b b' r h =>
    rw [S3Streambuf.sbumpc] at h
    split at h
    · cases h
    · next hnone =>
      cases h
      exact hunderflow _ _ _ _ _ hs (underflows hnone)
    · next c b₁ w₁ hsome =>
      cases h
      have hfound := underflows hsome
      have hs' := hunderflow _ _ _ _ _ hs hfound
      cases hfound with
      | inside hlt hget => exact hadvance _ _ c hs' (.inl hlt) hget
      | loads _ _ _ hpos hget => exact hadvance _ _ c hs' (.inr hpos) hget

end

/-! ## A stream to try things on -/

/-- `s3://b/k`, just opened with no cache. -/
def justOpened (env : Outside) (readAhead : ℕ) : Option S3Streambuf × World :=
  openStream env ⟨utf8 "us-east-1", [], false, 3⟩ { provider := .create (utf8 "default") }
    (utf8 "s3://b/k") readAhead

theorem exists_of_justOpened {env : Outside} {readAhead : ℕ} {P : S3Streambuf → World → Bool}
    (h : (justOpened env readAhead).1.any (fun b ↦ P b (justOpened env readAhead).2) = true) :
    ∃ b w, justOpened env readAhead = (some b, w) ∧ P b w = true := by
  cases hb : (justOpened env readAhead).1 with
  | none =>
    rw [hb] at h
    cases h
  | some b =>
    rw [hb] at h
    exact ⟨b, _, Prod.ext hb rfl, h⟩

end S3Streambuf

end Nanos3Reader
