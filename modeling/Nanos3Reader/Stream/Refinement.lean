import Nanos3Reader.Stream.Window

/-!
# The stream is a stream over the object

A plain stream over a byte string is a position in it. This file compares `S3Streambuf`, over a
server that answers range GETs on the byte string, with that plain stream: call by call, and then
over whole sequences of calls. With the cache off nothing tells the two apart, as long as positions
fit a signed 64-bit number and the window size is one a `std::vector` can have.
-/

open ByteText

namespace Nanos3Reader

/-! ## Plain streams -/

/-- What a call on a plain stream over `O` at position `p` returns, and the position after it. -/
def plainApply (O : Bytes) (p : ℕ) : StreamOp → StreamResult × ℕ
  | .seekBeg t => if t < 0 then (.pos (-1), p) else (.pos t, t.toNat)
  | .seekCur d => if p + d < 0 then (.pos (-1), p) else (.pos (p + d), (p + d).toNat)
  | .tell => (.pos p, p)
  | .read k =>
    let data := slice O p k
    (.bytes data (decide (data.length < k)), p + data.length)

/-- The results of a sequence of calls, and the position after it. -/
def plainRun (O : Bytes) (p : ℕ) : List StreamOp → List StreamResult × ℕ
  | [] => ([], p)
  | op :: ops =>
    let (r, p) := plainApply O p op
    let (rs, p) := plainRun O p ops
    (r :: rs, p)

/-- The call neither asks for a position nor reaches one that a signed 64-bit number cannot hold. -/
def StreamOp.InRange (O : Bytes) (p : ℕ) : StreamOp → Prop
  | .seekBeg t => -2 ^ 63 ≤ t ∧ t < 2 ^ 63
  | .seekCur d => -2 ^ 63 ≤ d ∧ p + d < 2 ^ 63
  | .tell => True
  | .read k => p + (slice O p k).length < 2 ^ 63

instance (O : Bytes) (p : ℕ) : (op : StreamOp) → Decidable (op.InRange O p)
  | .seekBeg _ => inferInstanceAs (Decidable (_ ∧ _))
  | .seekCur _ => inferInstanceAs (Decidable (_ ∧ _))
  | .tell => inferInstanceAs (Decidable True)
  | .read _ => inferInstanceAs (Decidable (_ < _))

/-- No call of a sequence does. -/
def AllInRange (O : Bytes) : ℕ → List StreamOp → Prop
  | _, [] => True
  | p, op :: ops => op.InRange O p ∧ AllInRange O (plainApply O p op).2 ops

theorem plainApply_lt {O : Bytes} {p : ℕ} {op : StreamOp} (hp : p < 2 ^ 63)
    (h : op.InRange O p) : (plainApply O p op).2 < 2 ^ 63 := by
  cases op with
  | seekBeg t =>
    rw [plainApply]
    split
    · exact hp
    · have := h.2
      dsimp only
      omega
  | seekCur d =>
    rw [plainApply]
    split
    · exact hp
    · have := h.2
      dsimp only
      omega
  | tell => exact hp
  | read k => exact h

/-! ## One call -/

/-- The bytes a result delivers, and whether the end of the file was met. -/
def StreamResult.data : StreamResult → Option (Bytes × Bool)
  | .pos _ => none
  | .bytes data eof => some (data, eof)

/-- A call that a cached stream, where a plain one is at `p`, can be trusted with: its loads are
sound, and it moves from the current position only if that was not lost, or stays past the end. -/
def StreamOp.Sound (env : Outside) (O : Bytes) (w : World) (b : S3Streambuf) (p : ℕ) :
    StreamOp → Prop
  | .seekBeg t => 0 ≤ t → SeeksSoundly env O w b t.toNat
  | .seekCur d =>
    (b.windowStart + b.gptr = p ∨ (O.length : ℤ) ≤ (b.windowStart + b.gptr : ℕ) + d) ∧
      (0 ≤ (b.windowStart + b.gptr : ℕ) + d →
        SeeksSoundly env O w b ((b.windowStart + b.gptr : ℕ) + d).toNat)
  | .tell => SeeksSoundly env O w b (b.windowStart + b.gptr)
  | .read k => ReadsSoundly env O w b k

instance (env : Outside) (O : Bytes) (w : World) (b : S3Streambuf) (p : ℕ) :
    (op : StreamOp) → Decidable (op.Sound env O w b p)
  | .seekBeg _ => inferInstanceAs (Decidable (_ → _))
  | .seekCur _ => inferInstanceAs (Decidable ((_ ∨ _) ∧ (_ → _)))
  | .tell => inferInstanceAs (Decidable (SeeksSoundly env O w b _))
  | .read _ => inferInstanceAs (Decidable (ReadsSoundly env O w b _))

/-- What a call of a stream must do, next to a plain stream that returns `r` and goes to `p`. -/
def Agrees (env : Outside) (O : Bytes) (cached : Bool) (w : World) (b : S3Streambuf) (op : StreamOp)
    (r : StreamResult) (p : ℕ) : Prop :=
  ∃ r' b' w', b.apply env w op = .ok (r', b', w') ∧ r'.data = r.data ∧
    (cached = false → r' = r) ∧ Online cached O b.uri w' ∧ b'.uri = b.uri ∧ Reads cached O b' p

section

variable {env : Outside} {O : Bytes} {cached : Bool} {w : World} {b : S3Streambuf} {p : ℕ}

theorem Online.seeksSoundly {uri : Bytes} (hw : Online cached O uri w) {t : ℕ}
    (h : cached = true → SeeksSoundly env O w b t) : SeeksSoundly env O w b t :=
  fun hnot hc ↦ h (hw.enabled ▸ hc) hnot hc

/-- A stream that knows it is at or past the end may as well be further behind. -/
theorem Reads.lose {t : ℕ} (h : Reads true O b t) (heof : b.reachedEof = true)
    (hgptr : b.gptr = b.windowLen) (hle : t ≤ p) : Reads true O b p := by
  obtain ⟨hcurl, hpos, hra, hstart, hlen, hegptr, hg, hwindow, he, hp⟩ := h
  refine ⟨hcurl, hpos, hra, hstart, hlen, hegptr, hg, hwindow, he, .inr ⟨rfl, ?_, heof, hgptr⟩⟩
  rcases hp with hp | ⟨-, hp, -⟩ <;> omega

theorem agrees_seekBeg (hserves : ServesRanges env O) (hw : Online cached O b.uri w)
    (hb : Reads cached O b p) {t : ℤ} (hrange : (StreamOp.seekBeg t).InRange O p)
    (hsound : cached = true → (StreamOp.seekBeg t).Sound env O w b p) :
    Agrees env O cached w b (.seekBeg t) (plainApply O p (.seekBeg t)).1
      (plainApply O p (.seekBeg t)).2 := by
  obtain ⟨hlow, hhigh⟩ := hrange
  rw [plainApply]
  by_cases hneg : t < 0
  · rw [if_pos hneg]
    refine ⟨_, b, w, ?_, rfl, fun _ ↦ rfl, hw, rfl, hb⟩
    rw [S3Streambuf.apply, seekoff_of_neg 0 (by decide) rfl (by omega) (by omega)]
    rfl
  · rw [if_neg hneg]
    obtain ⟨n, rfl⟩ := Int.eq_ofNat_of_zero_le (not_lt.mp hneg)
    have hseek : SeeksSoundly env O w b n :=
      hw.seeksSoundly fun hc ↦ hsound hc (not_lt.mp hneg)
    obtain ⟨b', w', heq, hw', -, huri, hb', -⟩ :=
      seekpos_spec (t := n) hserves hw hb (by omega) hseek
    refine ⟨_, b', w', ?_, rfl, fun _ ↦ rfl, hw', huri, hb'⟩
    rw [S3Streambuf.apply, seekoff_of_target (t := n) 0 (by decide) rfl (by omega)
      (by omega), heq]
    rfl

theorem agrees_seekCur (hserves : ServesRanges env O) (hw : Online cached O b.uri w)
    (hb : Reads cached O b p) (hp : p < 2 ^ 63) {d : ℤ} (hrange : (StreamOp.seekCur d).InRange O p)
    (hsound : cached = true → (StreamOp.seekCur d).Sound env O w b p) :
    Agrees env O cached w b (.seekCur d) (plainApply O p (.seekCur d)).1
      (plainApply O p (.seekCur d)).2 := by
  obtain ⟨hlow, hhigh⟩ := hrange
  have hcur := toInt64_curPos hb hp
  have hbase : (if S3Streambuf.SeekDir.cur = .cur then toInt64 b.curPos else 0)
      = (b.windowStart + b.gptr : ℕ) := (if_pos rfl).trans hcur
  have hle : b.windowStart + b.gptr ≤ p := by
    rcases hb.pos with hpos | ⟨-, hpos, -⟩ <;> omega
  have hkept : b.windowStart + b.gptr = p ∨
      cached = true ∧ (O.length : ℤ) ≤ (b.windowStart + b.gptr : ℕ) + d := by
    cases cached with
    | false => exact .inl (hb.pos.resolve_right fun hc ↦ absurd hc.1 Bool.false_ne_true)
    | true => exact (hsound rfl).1.imp_right fun h ↦ ⟨rfl, h⟩
  rw [plainApply]
  by_cases hneg : (b.windowStart + b.gptr : ℕ) + d < 0
  · have hpos : b.windowStart + b.gptr = p := hkept.resolve_right fun hc ↦ by omega
    rw [if_pos (hpos ▸ hneg)]
    refine ⟨_, b, w, ?_, rfl, fun _ ↦ rfl, hw, rfl, hb⟩
    rw [S3Streambuf.apply, seekoff_of_neg _ (by decide) hbase hneg (by omega)]
    rfl
  · obtain ⟨n, hn⟩ := Int.eq_ofNat_of_zero_le (not_lt.mp hneg)
    have hseek : SeeksSoundly env O w b n := by
      refine hw.seeksSoundly fun hc ↦ ?_
      have htarget := (hsound hc).2 (not_lt.mp hneg)
      rwa [hn, Int.toNat_natCast] at htarget
    obtain ⟨b', w', heq, hw', -, huri, hb', hpast⟩ :=
      seekpos_spec (t := n) hserves hw hb (by omega) hseek
    have happly : b.apply env w (.seekCur d) = .ok (.pos n, b', w') := by
      rw [S3Streambuf.apply, seekoff_of_target _ (by decide) hbase hn (by omega), heq]
      rfl
    rw [if_neg (by omega)]
    rcases hkept with hpos | ⟨rfl, hO⟩
    · rw [hpos] at hn
      refine ⟨_, b', w', happly, rfl, fun _ ↦ by rw [hn], hw', huri, ?_⟩
      rwa [hn, Int.toNat_natCast]
    -- The position was lost, and the target is past the end for the plain stream as well.
    · refine ⟨_, b', w', happly, rfl, fun hc ↦ absurd hc (by decide), hw', huri, ?_⟩
      by_cases hpos : b.windowStart + b.gptr = p
      · rw [hpos] at hn
        rwa [hn, Int.toNat_natCast]
      · obtain ⟨-, -, heof, -⟩ := hb.pos.resolve_left hpos
        obtain ⟨heof', hgptr'⟩ := hpast (by omega) heof
        exact hb'.lose heof' hgptr' (by omega)

theorem agrees_tell (hserves : ServesRanges env O) (hw : Online cached O b.uri w)
    (hb : Reads cached O b p) (hp : p < 2 ^ 63)
    (hsound : cached = true → StreamOp.tell.Sound env O w b p) :
    Agrees env O cached w b .tell (plainApply O p .tell).1 (plainApply O p .tell).2 := by
  have hplain : plainApply O p (.seekCur 0) = plainApply O p .tell := by
    rw [plainApply, if_neg (by omega), Int.add_zero, Int.toNat_natCast, plainApply]
  rw [← hplain]
  refine agrees_seekCur hserves hw hb hp ⟨by omega, by omega⟩ fun hc ↦ ⟨?_, fun _ ↦ ?_⟩
  · by_cases hpos : b.windowStart + b.gptr = p
    · exact .inl hpos
    · have := hb.le_of_ne hpos
      right
      omega
  · rw [Int.add_zero, Int.toNat_natCast]
    exact hsound hc

theorem agrees_read (hserves : ServesRanges env O) (hw : Online cached O b.uri w)
    (hb : Reads cached O b p) {k : ℕ} (hrange : (StreamOp.read k).InRange O p)
    (hsound : cached = true → (StreamOp.read k).Sound env O w b p) :
    Agrees env O cached w b (.read k) (plainApply O p (.read k)).1
      (plainApply O p (.read k)).2 := by
  obtain ⟨b', w', heq, hw', -, huri, hb'⟩ := sgetn_spec hserves k hw hb hrange hsound
  refine ⟨_, b', w', ?_, rfl, fun _ ↦ rfl, hw', huri, hb'⟩
  rw [S3Streambuf.apply, heq]
  rfl

/-- **One call.** Next to a plain stream at the same position, a call delivers the same bytes and
meets the end of the file at the same point; with the cache off it returns exactly the same. -/
theorem agrees_plain (hserves : ServesRanges env O) (hw : Online cached O b.uri w)
    (hb : Reads cached O b p) (hp : p < 2 ^ 63) {op : StreamOp} (hrange : op.InRange O p)
    (hsound : cached = true → op.Sound env O w b p) :
    Agrees env O cached w b op (plainApply O p op).1 (plainApply O p op).2 := by
  cases op with
  | seekBeg t => exact agrees_seekBeg hserves hw hb hrange hsound
  | seekCur d => exact agrees_seekCur hserves hw hb hp hrange hsound
  | tell => exact agrees_tell hserves hw hb hp hsound
  | read k => exact agrees_read hserves hw hb hrange hsound

/-! ## Whole sequences of calls -/

/-- The stream that `open` makes, and the URI that it accepts. -/
structure Opens (cfg : Config) (uri : Bytes) (readAhead : ℕ) (b : S3Streambuf) (w w' : World) :
    Prop where
  uri_eq : uri = utf8 "s3://" ++ b.bucket ++ 47 :: b.key
  slash : 47 ∉ b.bucket
  bucket_ne : b.bucket ≠ []
  key_ne : b.key ≠ []
  stream : b = .create cfg uri b.bucket b.key readAhead true
  creds : w'.provider.cached.valid = true
  cache : w'.cache = w.cache
  sent : w'.sent = w.sent
  later : w.moment ≤ w'.moment

theorem opens_of_openStream {cfg : Config} {uri : Bytes} {readAhead : ℕ} {w' : World}
    (h : openStream env cfg w uri readAhead = (some b, w')) :
    Opens cfg uri readAhead b w w' := by
  rw [openStream] at h
  split at h
  · cases h
  next hscheme =>
  split at h
  · cases h
  next bucket key hcut =>
  split at h
  · cases h
  next hne =>
  dsimp only at h
  split at h
  · cases h
  next hcred =>
  split at h
  · cases h
  next hcurl =>
  cases h
  have hhandle : env.curlInit
      (({ w with lastError := [] } : World).getCredentials env).2.moment = true :=
    Bool.not_eq_false _ ▸ hcurl
  have hslash := notMem_cut_getD 47 (uri.drop 5)
  rw [hcut] at hslash
  obtain ⟨rest, rfl⟩ := List.isPrefixOf_iff_prefix.mp (not_not.mp hscheme)
  rw [List.drop_left' (by decide)] at hcut
  constructor
  case uri_eq =>
    rw [cut_eq_some hcut]
    simp [S3Streambuf.create]
  case slash => exact hslash
  case bucket_ne => exact fun hnil ↦ hne (.inl hnil)
  case key_ne => exact fun hnil ↦ hne (.inr hnil)
  case stream => rw [hhandle]; rfl
  case creds =>
    simp only [World.getCredentials, CredentialProvider.get_fst] at hcred
    simpa [World.getCredentials] using hcred
  case cache => rfl
  case sent => rfl
  case later => exact (Nat.le_succ _).trans (Nat.le_succ _)

theorem openStream_eq_some {cfg : Config} {uri : Bytes} {readAhead : ℕ} {w' : World}
    (h : openStream env cfg w uri readAhead = (some b, w')) :
    w'.provider.cached.valid = true ∧ w'.cache = w.cache ∧ b.uri = uri ∧ b.curl = true ∧
      b.readAhead = (if readAhead = 0 then 1 else readAhead) ∧ b.windowStart = 0 ∧
      b.windowLen = 0 ∧ b.gptr = 0 ∧ b.egptr = 0 ∧ b.reachedEof = false := by
  have hopens := opens_of_openStream h
  rw [hopens.stream]
  exact ⟨hopens.creds, hopens.cache, rfl, rfl, rfl, rfl, rfl, rfl, rfl, rfl⟩

theorem Reads.of_openStream {cfg : Config} {uri : Bytes} {readAhead : ℕ} {w' : World}
    (h : openStream env cfg w uri readAhead = (some b, w')) (hra : readAhead < 2 ^ 63) :
    Reads cached O b 0 := by
  obtain ⟨-, -, -, hcurl, hreadAhead, hstart, hlen, hgptr, hegptr, heof⟩ := openStream_eq_some h
  constructor
  case curl => exact hcurl
  case readAhead_pos => rw [hreadAhead]; split <;> omega
  case readAhead_le => rw [hreadAhead, maxSize]; split <;> omega
  case start_lt => omega
  case len_le => omega
  case egptr_eq => omega
  case gptr_le => omega
  case window => exact fun hc ↦ absurd hc (by omega)
  case eof => exact fun hc ↦ absurd hc (by simp [heof])
  case pos => exact .inl (by omega)

theorem run_eq_plainRun_of_reads (hserves : ServesRanges env O) {ops : List StreamOp}
    (hw : Online false O b.uri w) (hb : Reads false O b p) (hp : p < 2 ^ 63)
    (hrange : AllInRange O p ops) :
    ∃ b' w', b.run env w ops = .ok ((plainRun O p ops).1, b', w') := by
  induction ops generalizing w b p with
  | nil => exact ⟨b, w, rfl⟩
  | cons op ops ih =>
    obtain ⟨hop, hrest⟩ := hrange
    obtain ⟨r, b₁, w₁, happly, -, hr, hw₁, huri, hb₁⟩ := agrees_plain hserves hw hb hp hop
      fun hc ↦ absurd hc Bool.false_ne_true
    obtain ⟨b', w', hrun⟩ := ih (huri ▸ hw₁) hb₁ (plainApply_lt hp hop) hrest
    refine ⟨b', w', ?_⟩
    rw [S3Streambuf.run, happly]
    dsimp only
    rw [hrun, hr rfl]
    rfl

/-- **Stream refinement.** With the cache off, over a server that answers range GETs on `O`, a
stream opened with a window size that a `std::vector` can have returns, call by call, what a plain
stream over `O` returns. -/
theorem run_eq_plainRun (hserves : ServesRanges env O) {cfg : Config} {uri : Bytes} {readAhead : ℕ}
    {w' : World} (hcache : w.cache.enabled = false)
    (hopen : openStream env cfg w uri readAhead = (some b, w')) (hra : readAhead < 2 ^ 63)
    (ops : List StreamOp) (hrange : AllInRange O 0 ops) :
    ∃ b' w'', b.run env w' ops = .ok ((plainRun O 0 ops).1, b', w'') := by
  obtain ⟨hcreds, hsame, huri, -⟩ := openStream_eq_some hopen
  exact run_eq_plainRun_of_reads hserves
    ⟨hcreds, by rw [hsame, hcache], fun hc ↦ absurd hc Bool.false_ne_true⟩
    (Reads.of_openStream hopen hra) (by omega) hrange

/-! ## Window sizes no vector can have -/

/-- The window is reserved before the request is made, and `reserve` throws. -/
theorem loadWindow_of_maxSize_lt (env : Outside) (hcurl : b.curl = true)
    (hcache : w.cache.enabled = false)
    (hcreds : w.provider.cached.valid = true) (hra : maxSize < b.readAhead) (t : ℕ) :
    S3Streambuf.loadWindow env w b t = .error .lengthError := by
  have htry : ∀ k, w.tryLoad env k = (none, w) := fun k ↦ if_neg (by simp [hcache])
  obtain ⟨hvalid, -⟩ := getCredentials_valid env hcreds
  rw [S3Streambuf.loadWindow, if_neg (by simp [hcurl])]
  dsimp only
  rw [htry]
  dsimp only
  rw [if_neg (by simp [hvalid]), S3Streambuf.fetch, if_pos hra]

theorem run_read_of_maxSize_lt {cfg : Config} {uri : Bytes} {readAhead : ℕ} {w' : World}
    (hcache : w.cache.enabled = false)
    (hopen : openStream env cfg w uri readAhead = (some b, w')) (hra : 2 ^ 63 ≤ readAhead) (k : ℕ) :
    b.run env w' [.read (k + 1)] = .error .lengthError := by
  obtain ⟨hcreds, hsame, -, hcurl, hreadAhead, -, -, hgptr, hegptr, heof⟩ :=
    openStream_eq_some hopen
  have hload := loadWindow_of_maxSize_lt env hcurl (by rw [hsame, hcache]) hcreds
    (by rw [hreadAhead, maxSize]; split <;> omega) ((b.windowStart + b.windowLen) % 2 ^ 64)
  have hunderflow : S3Streambuf.underflow env w' b = .error .lengthError := by
    rw [S3Streambuf.underflow, if_neg (by omega), if_neg (by simp [heof]), hload]
  rw [S3Streambuf.run, S3Streambuf.apply, S3Streambuf.sgetn, S3Streambuf.sbumpc, hunderflow]
  rfl

end

/-! ## A server with one object -/

/-- Answers to range GETs on `O`. -/
def rangeServer (O : Bytes) (req : HttpRequest) : Transfer :=
  match req.range with
  | none => { code := 400 }
  | some (a, z) =>
    if a < O.length then { code := 206, chunks := [slice O a (z + 1 - a)] } else { code := 416 }

/-- A machine with credentials in its environment. -/
def hostWithKeys : Host where
  getenv name :=
    if name = utf8 "AWS_ACCESS_KEY_ID" ∨ name = utf8 "AWS_SECRET_ACCESS_KEY" then some (utf8 "K")
    else none
  file _ := none
  popen _ := none
  strptime _ := none
  metadata _ _ := { ok := false }

/-- Surroundings in which nothing goes wrong and the server has the object `O`. -/
def calm (O : Bytes) : Outside where
  host _ := hostWithKeys
  clock m := m
  amzNow _ := utf8 "20260101T000000Z"
  curlInit _ := true
  perform _ := rangeServer O
  strerror _ := utf8 "error"
  io m := { now := m }
  sha256Raw := id

theorem servesRanges_calm (O : Bytes) : ServesRanges (calm O) O := by
  intro m req a z hreq _
  simp only [calm, rangeServer, hreq]
  split
  · exact ⟨rfl, rfl, by simp⟩
  · exact ⟨rfl, rfl⟩

/-- An AWS region, reached by virtual-hosted addressing. -/
def usEast : Config := ⟨utf8 "us-east-1", [], false, 3⟩

/-- Three bytes through a window of two: to the end, past it, and back. -/
theorem run_threeBytes : ∃ b w', openStream (calm [10, 11, 12]) usEast
      { provider := .create (utf8 "default") } (utf8 "s3://b/k") 2 = (some b, w') ∧
    ∃ b' w'', b.run (calm [10, 11, 12]) w' [.read 2, .tell, .seekCur 5, .read 1, .tell, .seekBeg 1,
        .read 5]
      = .ok ([.bytes [10, 11] false, .pos 2, .pos 7, .bytes [] true, .pos 7, .pos 1,
          .bytes [11, 12] true], b', w'') := by
  obtain ⟨b, w', hopen⟩ : ∃ b w', openStream (calm [10, 11, 12]) usEast
      { provider := .create (utf8 "default") } (utf8 "s3://b/k") 2 = (some b, w') := ⟨_, _, rfl⟩
  exact ⟨b, w', hopen, run_eq_plainRun (servesRanges_calm _) rfl hopen (by decide)
    [.read 2, .tell, .seekCur 5, .read 1, .tell, .seekBeg 1, .read 5]
    (by simp [AllInRange, StreamOp.InRange, plainApply, slice])⟩

/-- Not every window size will do: with `2 ^ 64 - 1` the first read of a one-byte object throws. -/
theorem not_run_eq_plainRun_of_huge : ¬ ∀ (env : Outside) (O : Bytes) (cfg : Config) (uri : Bytes)
    (readAhead : ℕ) (w w' : World) (b : S3Streambuf) (ops : List StreamOp), ServesRanges env O →
    readAhead < 2 ^ 64 → w.cache.enabled = false →
    openStream env cfg w uri readAhead = (some b, w') → AllInRange O 0 ops →
      ∃ b' w'', b.run env w' ops = .ok ((plainRun O 0 ops).1, b', w'') := by
  intro hall
  obtain ⟨b, w', hopen⟩ :
      ∃ b w', openStream (calm [10]) usEast { provider := .create (utf8 "default") }
      (utf8 "s3://b/k") (2 ^ 64 - 1) = (some b, w') := ⟨_, _, rfl⟩
  obtain ⟨b', w'', hrun⟩ := hall (calm [10]) [10] usEast (utf8 "s3://b/k") (2 ^ 64 - 1) _ w' b
    [.read 1] (servesRanges_calm _) (by decide) rfl hopen
    (by simp [AllInRange, StreamOp.InRange, slice])
  rw [run_read_of_maxSize_lt rfl hopen (by decide) 0] at hrun
  cases hrun

end Nanos3Reader
