import Nanos3Reader.DiskCache.Isolation
import Nanos3Reader.Stream

/-!
# What the window holds

The invariant of `S3Streambuf` over a server that holds one object and answers range GETs as the
HTTP standard says: the window is a part of the object, the end-of-file flag is set only when the
window reaches the object's end, and the get pointer stands where a plain stream would.

There is one exception to the last point. With the cache on, a window starts at a chunk boundary, so
after a seek past the end of the object the get pointer stands at the end of the window, or at the
start of a chunk behind the object. Such a stream has *lost* its position: all it still knows is
that it is at or past the end. The two cases, cache off and cache on, are treated together, and
`cached` says which one it is.
-/

open ByteText

namespace Nanos3Reader

/-- `n` bytes of `O` from `a` on, or as many as there are. -/
def slice (O : Bytes) (a n : ℕ) : Bytes := (O.drop a).take n

theorem length_slice (O : Bytes) (a n : ℕ) : (slice O a n).length = min n (O.length - a) := by
  rw [slice, List.length_take, List.length_drop]

theorem slice_prefix_drop (O : Bytes) (a n : ℕ) : slice O a n <+: O.drop a := List.take_prefix n _

/-- The server answers every GET of a range with the bytes of `O` in it, or with 416 when there are
none. -/
def ServesRanges (env : Outside) (O : Bytes) : Prop :=
  ∀ m req a z, req.range = some (a, z) → a ≤ z → (env.perform m req).rc = .ok ∧
    if a < O.length then (env.perform m req).code = 206 ∧
      (env.perform m req).chunks.flatten = slice O a (z + 1 - a)
    else (env.perform m req).code = 416

/-- Every block of the object in the cache holds bytes of the object. -/
def CacheOf (O uri : Bytes) (c : DiskCache) : Prop :=
  ∀ s block, s < 2 ^ 64 → c.block ⟨uri, .ofNat s⟩ = some block →
    s < O.length ∧ block <+: O.drop s ∧ block.length ≤ maxSize

/-- What a stream on `uri` relies on between its calls. -/
structure Online (cached : Bool) (O uri : Bytes) (w : World) : Prop where
  creds : w.provider.cached.valid = true
  enabled : w.cache.enabled = cached
  blocks : cached = true → CacheOf O uri w.cache

/-- The stream `b` stands at position `p` of `O`, or has lost a position past the end. -/
structure Reads (cached : Bool) (O : Bytes) (b : S3Streambuf) (p : ℕ) : Prop where
  curl : b.curl = true
  readAhead_pos : 0 < b.readAhead
  readAhead_le : b.readAhead ≤ maxSize
  start_lt : b.windowStart < 2 ^ 63
  len_le : b.windowLen ≤ maxSize
  egptr_eq : b.egptr = b.windowLen
  gptr_le : b.gptr ≤ b.windowLen
  window : 0 < b.windowLen → b.window.length = b.windowLen ∧ b.window <+: O.drop b.windowStart ∧
    b.windowStart < O.length
  eof : b.reachedEof = true → O.length ≤ b.windowStart + b.windowLen
  pos : b.windowStart + b.gptr = p ∨ cached = true ∧ b.windowStart + b.gptr ≤ p ∧
    b.reachedEof = true ∧ b.gptr = b.windowLen

/-- `b'` is `b` after `load_window` made it hold the bytes at `t`. -/
structure Loaded (cached : Bool) (O : Bytes) (b b' : S3Streambuf) (t : ℕ) : Prop where
  readAhead_eq : b'.readAhead = b.readAhead
  uri_eq : b'.uri = b.uri
  reads : Reads cached O b' t
  inside : t < O.length → b'.gptr < b'.windowLen
  past : O.length ≤ t → b'.reachedEof = true ∧ b'.gptr = b'.windowLen
  empty : O.length ≤ t → cached = false ∨ b.readAhead ∣ t → b'.windowLen = 0

/-- Where the window for `t` starts. -/
def windowFor (cached : Bool) (readAhead t : ℕ) : ℕ :=
  if cached = true then t / readAhead * readAhead else t

/-- What the cache is asked for when the window for `t` is loaded. -/
def lookupFor (env : Outside) (w : World) (b : S3Streambuf) (t : ℕ) : Option Bytes × DiskCache :=
  w.cache.tryLoad (env.io w.moment) ⟨b.uri, .ofNat (t / b.readAhead * b.readAhead)⟩

/-- Loading the window for `t` meets no block cut short and no eviction that never ends. -/
def LoadsSoundly (env : Outside) (O : Bytes) (w : World) (b : S3Streambuf) (t : ℕ) : Prop :=
  w.cache.enabled = true →
    (∀ block ∈ (lookupFor env w b t).1,
      min b.readAhead (O.length - t / b.readAhead * b.readAhead) ≤ block.length) ∧
    ((lookupFor env w b t).1 = none → t / b.readAhead * b.readAhead < O.length →
      ((lookupFor env w b t).2.store (env.io (w.moment + 3))
        ⟨b.uri, .ofNat (t / b.readAhead * b.readAhead)⟩
        (slice O (t / b.readAhead * b.readAhead) b.readAhead)).isSome = true)

instance (env : Outside) (O : Bytes) (w : World) (b : S3Streambuf) (t : ℕ) :
    Decidable (LoadsSoundly env O w b t) :=
  inferInstanceAs (Decidable (_ → _ ∧ _))

section

variable {env : Outside} {O : Bytes} {cached : Bool} {w : World} {b : S3Streambuf}

theorem Reads.window_le {p : ℕ} (h : Reads cached O b p) (hlen : 0 < b.windowLen) :
    b.windowStart + b.windowLen ≤ O.length := by
  obtain ⟨hwl, hpre, hlt⟩ := h.window hlen
  have hle := hpre.length_le
  rw [List.length_drop, hwl] at hle
  omega

theorem Reads.le_of_ne {p : ℕ} (h : Reads cached O b p) (hne : b.windowStart + b.gptr ≠ p) :
    O.length ≤ b.windowStart + b.gptr := by
  obtain ⟨-, -, heof, hgptr⟩ := h.pos.resolve_left hne
  have := h.eof heof
  omega

theorem Reads.getElem?_window {p : ℕ} (h : Reads cached O b p) (hlt : b.gptr < b.windowLen) :
    b.window[b.gptr]? = O[p]? ∧ p < O.length := by
  have hlen : 0 < b.windowLen := by omega
  obtain ⟨hwl, hpre, -⟩ := h.window hlen
  have hle := h.window_le hlen
  have hp : b.windowStart + b.gptr = p := by
    refine h.pos.resolve_right ?_
    rintro ⟨-, -, -, heq⟩
    omega
  constructor
  · have hget : b.gptr < b.window.length := by omega
    rw [List.getElem?_eq_getElem hget, ← List.prefix_iff_getElem?.mp hpre b.gptr hget,
      List.getElem?_drop, hp]
  · omega

/-- Nothing about the stream before matters but its name and the size of its window. -/
theorem Loaded.congr {b₁ b' : S3Streambuf} {t : ℕ} (h : Loaded cached O b₁ b' t)
    (hra : b₁.readAhead = b.readAhead) (huri : b₁.uri = b.uri) : Loaded cached O b b' t :=
  ⟨h.readAhead_eq.trans hra, h.uri_eq.trans huri, h.reads, h.inside, h.past,
    fun hO hc ↦ h.empty hO (hra ▸ hc)⟩

/-! ## Installing a window -/

theorem windowFor_le (cached : Bool) (readAhead t : ℕ) : windowFor cached readAhead t ≤ t := by
  rw [windowFor]
  split
  · exact Nat.div_mul_le_self t readAhead
  · exact le_rfl

theorem lt_windowFor_add {readAhead : ℕ} (cached : Bool) (t : ℕ) (h : 0 < readAhead) :
    t < windowFor cached readAhead t + readAhead := by
  rw [windowFor]
  split
  · exact Nat.lt_div_mul_add h
  · omega

/-- A block that starts inside the object and was not cut short makes a good window. -/
theorem loaded_installWindow {block : Bytes} {t : ℕ} (hcurl : b.curl = true)
    (hpos : 0 < b.readAhead) (hra : b.readAhead ≤ maxSize) (ht : t < 2 ^ 63)
    (hwindow : b.window = block) (hstart : windowFor cached b.readAhead t < O.length)
    (hpre : block <+: O.drop (windowFor cached b.readAhead t)) (hle : block.length ≤ maxSize)
    (hlong : min b.readAhead (O.length - windowFor cached b.readAhead t) ≤ block.length) :
    Loaded cached O b (b.installWindow (windowFor cached b.readAhead t) t true) t := by
  have hst := windowFor_le cached b.readAhead t
  have hts := lt_windowFor_add cached t hpos
  have hlen := hpre.length_le
  rw [List.length_drop] at hlen
  have hlost : windowFor cached b.readAhead t ≠ t → cached = true := by
    intro hne
    by_contra hc
    exact hne (if_neg hc)
  have haligned : b.readAhead ∣ t → windowFor cached b.readAhead t = t := by
    intro hdvd
    rw [windowFor]
    split
    · exact Nat.div_mul_cancel hdvd
    · rfl
  generalize windowFor cached b.readAhead t = s at *
  subst hwindow
  constructor
  case readAhead_eq => rfl
  case uri_eq => rfl
  case reads =>
    constructor
    case curl => exact hcurl
    case readAhead_pos => exact hpos
    case readAhead_le => exact hra
    case start_lt => simp only [S3Streambuf.installWindow, if_true]; omega
    case len_le => exact hle
    case egptr_eq => rfl
    case gptr_le => simp only [S3Streambuf.installWindow, if_true, if_pos hst]; split <;> omega
    case window => exact fun _ ↦ ⟨rfl, hpre, hstart⟩
    case eof =>
      simp only [S3Streambuf.installWindow, if_true, decide_eq_true_eq]
      omega
    case pos =>
      simp only [S3Streambuf.installWindow, if_true, if_pos hst, decide_eq_true_eq]
      split
      · refine .inr ⟨hlost ?_, ?_, ?_, rfl⟩ <;> omega
      · left
        omega
  case inside =>
    intro htO
    simp only [S3Streambuf.installWindow, if_true, if_pos hst]
    split <;> omega
  case past =>
    intro htO
    simp only [S3Streambuf.installWindow, if_true, if_pos hst, decide_eq_true_eq]
    split <;> omega
  case empty =>
    rintro htO (hc | hdvd)
    · have hst' : s = t := by
        by_contra hne
        exact absurd (hlost hne) (by simp [hc])
      omega
    · have := haligned hdvd
      omega

/-! ## Fetching a window -/

theorem loaded_pastEnd {t : ℕ} {b' : S3Streambuf} (hcurl : b'.curl = true)
    (hpos : 0 < b.readAhead) (hra : b.readAhead ≤ maxSize) (ht : t < 2 ^ 63)
    (hstart : O.length ≤ windowFor cached b.readAhead t) (huri : b'.uri = b.uri)
    (hreadAhead : b'.readAhead = b.readAhead) :
    Loaded cached O b
      { b' with
        windowStart := windowFor cached b.readAhead t, windowLen := 0, reachedEof := true,
        gptr := 0, egptr := 0 } t := by
  have hst := windowFor_le cached b.readAhead t
  constructor
  case readAhead_eq => exact hreadAhead
  case uri_eq => exact huri
  case reads =>
    constructor
    case curl => exact hcurl
    case readAhead_pos => exact hreadAhead ▸ hpos
    case readAhead_le => exact hreadAhead ▸ hra
    case start_lt => exact hst.trans_lt ht
    case len_le => exact Nat.zero_le _
    case egptr_eq => rfl
    case gptr_le => exact le_rfl
    case window => exact fun h ↦ absurd h (lt_irrefl 0)
    case eof => exact fun _ ↦ hstart
    case pos =>
      by_cases heq : windowFor cached b.readAhead t = t
      · exact .inl heq
      · refine .inr ⟨?_, hst, rfl, rfl⟩
        by_contra hc
        exact heq (if_neg hc)
  case inside => exact fun htO ↦ absurd (hstart.trans hst) (not_le.mpr htO)
  case past => exact fun _ ↦ ⟨rfl, rfl⟩
  case empty => exact fun _ _ ↦ rfl

theorem toNat_ofNat {s : ℕ} (h : s < 2 ^ 64) : (UInt64.ofNat s).toNat = s :=
  UInt64.toNat_ofNat_of_lt' h

theorem pathFor_ofNat_inj {uri : Bytes} {s s' : ℕ} (hs : s < 2 ^ 64) (hs' : s' < 2 ^ 64)
    (h : pathFor ⟨uri, .ofNat s⟩ = pathFor ⟨uri, .ofNat s'⟩) : s = s' := by
  have hstart : UInt64.ofNat s = .ofNat s' := (pathFor_eq_iff.mp h).2
  rw [← toNat_ofNat hs, ← toNat_ofNat hs', hstart]

theorem onDisk_prefix_self (io : FileIo) (data : Bytes) : io.onDisk data <+: data := by
  rw [FileIo.onDisk]
  split
  · exact List.prefix_rfl
  · exact List.take_prefix _ _

/-- Storing a window of the object, however little of it reaches the disk, keeps the cache a cache
of the object. -/
theorem CacheOf.store {uri : Bytes} {c c' : DiskCache} {io : FileIo} {s n : ℕ}
    (h : CacheOf O uri c) (hs : s < O.length) (hs' : s < 2 ^ 64) (hn : n ≤ maxSize)
    (hstore : c.store io ⟨uri, .ofNat s⟩ (slice O s n) = some c') : CacheOf O uri c' := by
  intro s' block hlt hblock
  have hcases := DiskCache.block_of_store hstore hblock
  split at hcases
  · next hplaced =>
    obtain rfl := pathFor_ofNat_inj hlt hs' hplaced.2
    rw [hcases]
    have hpre := onDisk_prefix_self io (slice O s' n)
    refine ⟨hs, hpre.trans (slice_prefix_drop O s' n), ?_⟩
    have hlen := hpre.length_le
    rw [length_slice] at hlen
    omega
  · exact h s' block hlt hcases

theorem CacheOf.tryLoad {uri : Bytes} {c : DiskCache} (h : CacheOf O uri c) (io : FileIo)
    (k : BlockKey) : CacheOf O uri (c.tryLoad io k).2 := by
  intro s block hlt hblock
  rw [DiskCache.block_tryLoad] at hblock
  exact h s block hlt hblock

theorem enabled_tryLoad (io : FileIo) (c : DiskCache) (k : BlockKey) :
    (c.tryLoad io k).2.enabled = c.enabled := by
  rw [DiskCache.tryLoad]
  split
  · rfl
  · split
    · rfl
    · split <;> rfl

theorem enabled_of_store {io : FileIo} {c c' : DiskCache} {k : BlockKey} {data : Bytes}
    (h : c.store io k data = some c') : c'.enabled = c.enabled := by
  have hevict : ∀ {c c' : DiskCache}, DiskCache.evictIfNeeded io c = some c' →
      c'.enabled = c.enabled := by
    intro c c' h
    obtain ⟨dir, -, rfl⟩ := Option.map_eq_some_iff.mp h
    rfl
  rw [DiskCache.store] at h
  split at h
  · cases h
    rfl
  · dsimp only at h
    split at h
    · cases h
      rfl
    · split at h
      · cases h
        rfl
      · have heq := hevict h
        exact heq

/-- What a server with the object makes of the first GET of `load_window`. -/
theorem fetch_eq (hserves : ServesRanges env O) (w : World) (cred : Credentials)
    (cacheOn redirected : Bool) {start : ℕ} (target attempt : ℕ) (hpos : 0 < b.readAhead)
    (hra : b.readAhead ≤ maxSize) (hstart : start < 2 ^ 63) :
    ∃ (b' : S3Streambuf) (sent : List HttpRequest), b'.curl = b.curl ∧ b'.uri = b.uri ∧
      b'.readAhead = b.readAhead ∧
      (start < O.length → b'.window = slice O start b.readAhead) ∧
      S3Streambuf.fetch env cred cacheOn start target w b redirected attempt
        = if start < O.length then
            b'.deliver env { w with moment := w.moment + 1, sent := sent } cacheOn start target 206
          else
            .ok (true,
              { b' with
                windowStart := start, windowLen := 0, reachedEof := true, gptr := 0, egptr := 0 },
              { w with moment := w.moment + 1, sent := sent, lastError := [] }) := by
  have hlast : (start + b.readAhead - 1) % 2 ^ 64 = start + b.readAhead - 1 := by
    rw [maxSize] at hra
    omega
  obtain ⟨hrc, hcode⟩ := hserves w.moment
    (b.rangeRequest env cred start (env.amzNow w.moment)) start (start + b.readAhead - 1)
    (by simp only [S3Streambuf.rangeRequest, hlast]) (by omega)
  have hsize : start + b.readAhead - 1 + 1 - start = b.readAhead := by omega
  rw [hsize] at hcode
  rw [S3Streambuf.fetch, if_neg (not_lt.mpr hra)]
  simp only [World.perform]
  generalize hreq : b.rangeRequest env cred start (env.amzNow w.moment) = req at *
  generalize env.perform w.moment req = t at *
  refine ⟨b.receive t, w.sent ++ [req], rfl, rfl, rfl, ?_, ?_⟩
  · intro hlt
    rw [if_pos hlt] at hcode
    exact hcode.2
  · by_cases hlt : start < O.length
    · rw [if_pos hlt] at hcode ⊢
      have hv : (b.receive t).verdict redirected attempt t = .deliver :=
        if_pos ⟨hrc, .inr hcode.1⟩
      split
      · rw [hcode.1]
      all_goals next h => rw [hv] at h; cases h
    · rw [if_neg hlt] at hcode ⊢
      have hv : (b.receive t).verdict redirected attempt t = .pastEnd := by
        rw [S3Streambuf.verdict, if_neg (by simp [hcode]), if_pos ⟨hrc, hcode⟩]
      split
      · next h => rw [hv] at h; cases h
      · rfl
      all_goals next h => rw [hv] at h; cases h

theorem getCredentials_valid (env : Outside) (h : w.provider.cached.valid = true) :
    (w.getCredentials env).1.valid = true ∧
      (w.getCredentials env).2.provider.cached.valid = true := by
  have hvalid := CredentialProvider.valid_get (env.host w.moment) (env.clock w.moment) h
  refine ⟨?_, hvalid⟩
  rw [World.getCredentials]
  dsimp only
  rwa [CredentialProvider.get_fst]

theorem deliver_spec {uri : Bytes} {b' : S3Streambuf} {t : ℕ} (hw : Online cached O uri w)
    (hcurl : b'.curl = true) (huri : b'.uri = uri) (hpos : 0 < b'.readAhead)
    (hra : b'.readAhead ≤ maxSize) (ht : t < 2 ^ 63)
    (hstart : windowFor cached b'.readAhead t < O.length)
    (hwindow : b'.window = slice O (windowFor cached b'.readAhead t) b'.readAhead)
    (hstore : cached = true → (w.cache.store (env.io w.moment)
      ⟨uri, .ofNat (windowFor cached b'.readAhead t)⟩
      (slice O (windowFor cached b'.readAhead t) b'.readAhead)).isSome) :
    ∃ b'' w', b'.deliver env w cached (windowFor cached b'.readAhead t) t 206
        = .ok (true, b'', w') ∧
      Online cached O uri w' ∧ Loaded cached O b' b'' t := by
  have hst := windowFor_le cached b'.readAhead t
  have hlen := length_slice O (windowFor cached b'.readAhead t) b'.readAhead
  have hload : Loaded cached O b' (b'.installWindow (windowFor cached b'.readAhead t) t true) t :=
    loaded_installWindow hcurl hpos hra ht hwindow hstart (slice_prefix_drop O _ _) (by omega)
      (by omega)
  cases cached with
  | false => exact ⟨_, _, rfl, ⟨hw.creds, hw.enabled, fun h ↦ absurd h Bool.false_ne_true⟩, hload⟩
  | true =>
    obtain ⟨c, hc⟩ := Option.isSome_iff_exists.mp (hstore rfl)
    have hblocks := (hw.blocks rfl).store hstart (by omega) hra hc
    refine ⟨_, { w with cache := c, moment := w.moment + 1, lastError := [] }, ?_,
      ⟨hw.creds, (enabled_of_store hc).trans hw.enabled, fun _ ↦ hblocks⟩, hload⟩
    simp [S3Streambuf.deliver, World.store, hwindow, huri, hc]

/-- What `load_window` does after a miss: it fetches the bytes, and stores them in the cache. -/
theorem fetch_spec (hserves : ServesRanges env O) {t : ℕ} (hw : Online cached O b.uri w)
    (hcurl : b.curl = true) (hpos : 0 < b.readAhead) (hra : b.readAhead ≤ maxSize)
    (ht : t < 2 ^ 63)
    (hstore : cached = true → windowFor cached b.readAhead t < O.length →
      (w.cache.store (env.io (w.moment + 2)) ⟨b.uri, .ofNat (windowFor cached b.readAhead t)⟩
        (slice O (windowFor cached b.readAhead t) b.readAhead)).isSome) :
    ∃ b' w', S3Streambuf.fetch env (w.getCredentials env).1 cached
        (windowFor cached b.readAhead t) t (w.getCredentials env).2 b false 0
          = .ok (true, b', w') ∧
      Online cached O b.uri w' ∧ Loaded cached O b b' t := by
  have hst := windowFor_le cached b.readAhead t
  obtain ⟨hvalid, hcreds⟩ := getCredentials_valid env hw.creds
  obtain ⟨b', sent, hb'curl, hb'uri, hb'ra, hb'window, hfetch⟩ :=
    fetch_eq (b := b) hserves (w.getCredentials env).2 (w.getCredentials env).1 cached false t 0
      hpos hra (hst.trans_lt ht)
  rw [hfetch]
  by_cases hlt : windowFor cached b.readAhead t < O.length
  · rw [if_pos hlt]
    rw [← hb'ra] at hb'window hlt hstore ⊢
    obtain ⟨b'', w', hdeliver, honline, hload⟩ := deliver_spec
      (w := { (w.getCredentials env).2 with
        moment := (w.getCredentials env).2.moment + 1, sent := sent })
      ⟨hcreds, hw.enabled, hw.blocks⟩ (hb'curl.trans hcurl) hb'uri
      (hb'ra ▸ hpos) (hb'ra ▸ hra) ht hlt (hb'window hlt) fun hc ↦ hstore hc hlt
    exact ⟨b'', w', hdeliver, honline, hload.congr hb'ra hb'uri⟩
  · rw [if_neg hlt]
    exact ⟨_, _, rfl, ⟨hcreds, hw.enabled, hw.blocks⟩,
      loaded_pastEnd (hb'curl.trans hcurl) hpos hra ht (not_lt.mp hlt) hb'uri hb'ra⟩

/-- **Loading.** Over a server with the object, and a cache of it, `load_window` succeeds and makes
the window hold the bytes at `t`. -/
theorem loadWindow_spec (hserves : ServesRanges env O) {t : ℕ} (hw : Online cached O b.uri w)
    (hcurl : b.curl = true) (hpos : 0 < b.readAhead) (hra : b.readAhead ≤ maxSize)
    (ht : t < 2 ^ 63) (hsound : LoadsSoundly env O w b t) :
    ∃ b' w', S3Streambuf.loadWindow env w b t = .ok (true, b', w') ∧ Online cached O b.uri w' ∧
      Loaded cached O b b' t := by
  have hst := windowFor_le cached b.readAhead t
  have hwin : (if w.cache.enabled then t / b.readAhead * b.readAhead else t)
      = windowFor cached b.readAhead t := by rw [hw.enabled, windowFor]
  rw [S3Streambuf.loadWindow, if_neg (by simp [hcurl])]
  dsimp only
  rw [hwin, hw.enabled]
  cases cached with
  | false =>
    have htry := World.tryLoad_of_disabled hw.enabled env
    obtain ⟨b', w', hfetch, honline, hload⟩ :=
      fetch_spec hserves hw hcurl hpos hra ht fun hc ↦ absurd hc Bool.false_ne_true
    obtain ⟨hvalid, -⟩ := getCredentials_valid env hw.creds
    rw [htry]
    dsimp only
    rw [if_neg (by simp [hvalid])]
    exact ⟨b', w', hfetch, honline, hload⟩
  | true =>
    have hwindow : windowFor true b.readAhead t = t / b.readAhead * b.readAhead := if_pos rfl
    have htry : ∀ k, w.tryLoad env k = ((w.cache.tryLoad (env.io w.moment) k).1,
        { w with cache := (w.cache.tryLoad (env.io w.moment) k).2, moment := w.moment + 1 }) :=
      fun k ↦ if_pos hw.enabled
    obtain ⟨hhit, hstore⟩ := hsound hw.enabled
    rw [lookupFor, ← hwindow] at hhit hstore
    rw [htry]
    have henabled := enabled_tryLoad (env.io w.moment) w.cache
      ⟨b.uri, .ofNat (windowFor true b.readAhead t)⟩
    have hblocks := (hw.blocks rfl).tryLoad (env.io w.moment)
      ⟨b.uri, .ofNat (windowFor true b.readAhead t)⟩
    cases hlookup : w.cache.tryLoad (env.io w.moment)
        ⟨b.uri, .ofNat (windowFor true b.readAhead t)⟩ with
    | mk found cache =>
      rw [hlookup] at hhit hstore henabled hblocks
      have hw₁ : Online true O b.uri { w with cache := cache, moment := w.moment + 1 } :=
        ⟨hw.creds, henabled.trans hw.enabled, fun _ ↦ hblocks⟩
      cases found with
      | some block =>
        obtain ⟨hlt, hpre, hle⟩ := hw.blocks rfl _ block (by omega)
          (DiskCache.block_of_tryLoad hlookup)
        have hload := loaded_installWindow (b := { b with window := block }) hcurl hpos hra ht rfl
          hlt hpre hle (hhit block rfl)
        exact ⟨_, _, rfl, ⟨hw₁.creds, hw₁.enabled, hw₁.blocks⟩, hload.congr rfl rfl⟩
      | none =>
        -- the lookup has cost a moment, and nothing else
        obtain ⟨b', w', hfetch, honline, hload⟩ :=
          fetch_spec hserves hw₁ hcurl hpos hra ht fun _ hlt ↦ hstore rfl hlt
        obtain ⟨hvalid, -⟩ := getCredentials_valid env hw₁.creds
        dsimp only
        rw [if_neg (by simp [hvalid])]
        exact ⟨b', w', hfetch, honline, hload⟩

/-! ## Reading -/

/-- Should the next byte need another window, then loading that meets no short block, and at the end
of the object starts no window before it. -/
def UnderflowsSoundly (env : Outside) (O : Bytes) (w : World) (b : S3Streambuf) : Prop :=
  b.gptr = b.egptr → b.reachedEof = false →
    LoadsSoundly env O w b (b.windowStart + b.windowLen) ∧
    (w.cache.enabled = true → O.length ≤ b.windowStart + b.windowLen →
      b.readAhead ∣ b.windowStart + b.windowLen)

instance (env : Outside) (O : Bytes) (w : World) (b : S3Streambuf) :
    Decidable (UnderflowsSoundly env O w b) :=
  inferInstanceAs (Decidable (_ → _ → _ ∧ (_ → _ → _)))

theorem underflowsSoundly_of_disabled (h : w.cache.enabled = false) :
    UnderflowsSoundly env O w b := by
  intro _ _
  constructor
  · exact fun hc ↦ absurd hc (by simp [h])
  · exact fun hc ↦ absurd hc (by simp [h])

/-- Every load of a read of `k` bytes is sound. -/
def ReadsSoundly (env : Outside) (O : Bytes) : World → S3Streambuf → ℕ → Prop
  | _, _, 0 => True
  | w, b, k + 1 => UnderflowsSoundly env O w b ∧
    ∀ r ∈ (S3Streambuf.sbumpc env w b).toOption, r.1 ≠ none → ReadsSoundly env O r.2.2 r.2.1 k

instance decidableReadsSoundly (env : Outside) (O : Bytes) : ∀ w b k,
    Decidable (ReadsSoundly env O w b k)
  | _, _, 0 => inferInstanceAs (Decidable True)
  | w, b, k + 1 =>
    have := fun w b ↦ decidableReadsSoundly env O w b k
    inferInstanceAs (Decidable (_ ∧ ∀ r ∈ (S3Streambuf.sbumpc env w b).toOption, _ → _))

/-- **Underflow.** The byte the stream stands at, or the end of the file. -/
theorem underflow_spec (hserves : ServesRanges env O) {p : ℕ} (hw : Online cached O b.uri w)
    (hb : Reads cached O b p) (hp : p < 2 ^ 63) (hsound : UnderflowsSoundly env O w b) :
    ∃ b' w', S3Streambuf.underflow env w b = .ok (O[p]?, b', w') ∧ Online cached O b.uri w' ∧
      b'.readAhead = b.readAhead ∧ b'.uri = b.uri ∧ Reads cached O b' p ∧
      (p < O.length → b'.gptr < b'.windowLen) := by
  rw [S3Streambuf.underflow]
  by_cases hlt : b.gptr < b.egptr
  · rw [if_pos hlt]
    rw [hb.egptr_eq] at hlt
    obtain ⟨hget, hpO⟩ := hb.getElem?_window hlt
    refine ⟨b, w, ?_, hw, rfl, rfl, hb, fun _ ↦ hlt⟩
    rw [S3Streambuf.current, hget, List.getElem?_eq_getElem hpO]
  have hgptr : b.gptr = b.windowLen := by
    have := hb.gptr_le
    have := hb.egptr_eq
    omega
  rw [if_neg hlt]
  by_cases heof : b.reachedEof = true
  · rw [if_pos heof]
    have hO : O.length ≤ p := by
      have := hb.eof heof
      rcases hb.pos with hpos | ⟨-, hpos, -⟩ <;> omega
    refine ⟨b, w, ?_, hw, rfl, rfl, hb, fun h ↦ absurd h (not_lt.mpr hO)⟩
    rw [List.getElem?_eq_none hO]
  · rw [if_neg heof]
    have hpos : b.windowStart + b.windowLen = p := by
      rcases hb.pos with hpos | ⟨-, -, hc, -⟩
      · omega
      · exact absurd hc heof
    obtain ⟨hload, haligned⟩ := hsound (hgptr.trans hb.egptr_eq.symm) (by simpa using heof)
    rw [hpos] at hload haligned ⊢
    rw [Nat.mod_eq_of_lt (by omega)]
    obtain ⟨b', w', heq, honline, hb'⟩ := loadWindow_spec hserves hw hb.curl hb.readAhead_pos
      hb.readAhead_le hp hload
    rw [heq]
    dsimp only
    by_cases hO : p < O.length
    · have hin := hb'.inside hO
      obtain ⟨hget, -⟩ := hb'.reads.getElem?_window hin
      rw [if_neg (by omega), S3Streambuf.current, hget, List.getElem?_eq_getElem hO]
      exact ⟨b', w', rfl, honline, hb'.readAhead_eq, hb'.uri_eq, hb'.reads, fun _ ↦ hin⟩
    · have hO' : O.length ≤ p := not_lt.mp hO
      have hempty : b'.windowLen = 0 := by
        refine hb'.empty hO' ?_
        cases cached with
        | false => exact .inl rfl
        | true => exact .inr (haligned hw.enabled hO')
      obtain ⟨heof', hgptr'⟩ := hb'.past hO'
      have hsame : { b' with reachedEof := true } = b' := by rw [← heof']
      rw [if_pos hempty, hsame, List.getElem?_eq_none hO']
      exact ⟨b', w', rfl, honline, hb'.readAhead_eq, hb'.uri_eq, hb'.reads,
        fun h ↦ absurd h hO⟩

theorem Reads.advance {p : ℕ} (h : Reads cached O b p) (hlt : b.gptr < b.windowLen) :
    Reads cached O { b with gptr := b.gptr + 1 } (p + 1) := by
  obtain ⟨hcurl, hpos, hra, hstart, hlen, hegptr, hgptr, hwindow, heof, hp⟩ := h
  refine ⟨hcurl, hpos, hra, hstart, hlen, hegptr, hlt, hwindow, heof, ?_⟩
  rcases hp with hp | ⟨-, -, -, heq⟩
  · left
    dsimp only
    omega
  · omega

theorem slice_succ {p : ℕ} (hp : p < O.length) (k : ℕ) :
    slice O p (k + 1) = O[p] :: slice O (p + 1) k := by
  rw [slice, List.drop_eq_getElem_cons hp, List.take_succ_cons, slice]

theorem slice_eq_nil {p : ℕ} (hp : O.length ≤ p) (k : ℕ) : slice O p k = [] := by
  rw [slice, List.drop_eq_nil_of_le hp, List.take_nil]

/-- **Reading.** The bytes from the stream's position on, as many as asked for unless the object
ends before. -/
theorem sgetn_spec (hserves : ServesRanges env O) {p : ℕ} (k : ℕ) (hw : Online cached O b.uri w)
    (hb : Reads cached O b p) (hp : p + (slice O p k).length < 2 ^ 63)
    (hsound : cached = true → ReadsSoundly env O w b k) :
    ∃ b' w', S3Streambuf.sgetn env w b k
        = .ok ((slice O p k, decide ((slice O p k).length < k)), b', w') ∧
      Online cached O b.uri w' ∧ b'.readAhead = b.readAhead ∧ b'.uri = b.uri ∧
      Reads cached O b' (p + (slice O p k).length) := by
  induction k generalizing w b p with
  | zero =>
    exact ⟨b, w, by simp [S3Streambuf.sgetn, slice], hw, rfl, rfl, by simpa [slice] using hb⟩
  | succ k ih =>
    have hunderflow : UnderflowsSoundly env O w b := by
      cases cached with
      | false => exact underflowsSoundly_of_disabled hw.enabled
      | true => exact (hsound rfl).1
    have hrest := fun hc ↦ (hsound hc).2
    obtain ⟨b₁, w₁, heq, hw₁, hra₁, huri₁, hb₁, hin⟩ :=
      underflow_spec hserves hw hb (by omega) hunderflow
    rw [S3Streambuf.sgetn, S3Streambuf.sbumpc, heq]
    rw [S3Streambuf.sbumpc, heq] at hrest
    by_cases hO : p < O.length
    · rw [List.getElem?_eq_getElem hO] at hrest ⊢
      rw [slice_succ hO, List.length_cons] at hp ⊢
      have hadv := hb₁.advance (hin hO)
      obtain ⟨b', w', hread, hw', hra', huri', hb'⟩ := ih (huri₁ ▸ hw₁) hadv (by omega)
        (fun hc ↦ hrest hc _ rfl (Option.some_ne_none _))
      refine ⟨b', w', ?_, huri₁ ▸ hw', hra'.trans hra₁, huri'.trans huri₁, ?_⟩
      · dsimp only
        rw [hread]
        simp [Except.map]
      · rwa [Nat.add_assoc, Nat.add_comm 1] at hb'
    · have hO' := not_lt.mp hO
      rw [List.getElem?_eq_none hO', slice_eq_nil hO']
      exact ⟨b₁, w₁, by simp, hw₁, hra₁, huri₁, hb₁⟩

/-! ## Seeking -/

/-- A seek to `t` stays inside the window. -/
def InWindow (b : S3Streambuf) (t : ℕ) : Prop :=
  0 < b.windowLen ∧ b.windowStart ≤ t ∧ t ≤ b.windowStart + b.windowLen

instance (b : S3Streambuf) (t : ℕ) : Decidable (InWindow b t) :=
  inferInstanceAs (Decidable (_ ∧ _ ∧ _))

/-- A seek to `t` either stays inside the window or loads soundly. -/
def SeeksSoundly (env : Outside) (O : Bytes) (w : World) (b : S3Streambuf) (t : ℕ) : Prop :=
  ¬InWindow b t → LoadsSoundly env O w b t

instance (env : Outside) (O : Bytes) (w : World) (b : S3Streambuf) (t : ℕ) :
    Decidable (SeeksSoundly env O w b t) :=
  inferInstanceAs (Decidable (¬_ → _))

theorem toUint64_natCast {t : ℕ} (ht : t < 2 ^ 63) : toUint64 t = t := by
  rw [toUint64]
  omega

/-- **Seeking.** The stream stands at the target afterwards; and one that knows the object has ended
still knows it after a seek past the end. -/
theorem seekpos_spec (hserves : ServesRanges env O) {p t : ℕ} (hw : Online cached O b.uri w)
    (hb : Reads cached O b p) (ht : t < 2 ^ 63) (hsound : SeeksSoundly env O w b t) :
    ∃ b' w', S3Streambuf.seekpos env w b t true = .ok ((t : ℤ), b', w') ∧
      Online cached O b.uri w' ∧ b'.readAhead = b.readAhead ∧ b'.uri = b.uri ∧
      Reads cached O b' t ∧ (O.length ≤ t → b.reachedEof = true →
        b'.reachedEof = true ∧ b'.gptr = b'.windowLen) := by
  have hmod : (b.windowStart + b.windowLen) % 2 ^ 64 = b.windowStart + b.windowLen := by
    have hlen := hb.len_le
    have hstart := hb.start_lt
    rw [maxSize] at hlen
    omega
  rw [S3Streambuf.seekpos, if_neg Bool.true_eq_false.mp]
  dsimp only
  rw [toUint64_natCast ht, hmod]
  by_cases hin : InWindow b t
  · obtain ⟨hlen, hst, hend⟩ := hin
    rw [if_pos ⟨hlen, hst, hend⟩]
    have hle := hb.window_le hlen
    refine ⟨_, _, rfl, ⟨hw.creds, hw.enabled, hw.blocks⟩, rfl, rfl, ?_, ?_⟩
    · refine ⟨hb.curl, hb.readAhead_pos, hb.readAhead_le, hb.start_lt, hb.len_le, rfl, ?_,
        hb.window,
        hb.eof, .inl ?_⟩
      · dsimp only
        omega
      · dsimp only
        omega
    · intro hO heof
      refine ⟨heof, ?_⟩
      dsimp only
      omega
  · have hout : ¬(0 < b.windowLen ∧ b.windowStart ≤ t ∧ t ≤ b.windowStart + b.windowLen) := hin
    rw [if_neg hout]
    obtain ⟨b', w', heq, honline, hload⟩ :=
      loadWindow_spec (w := { w with lastError := [] }) hserves
      ⟨hw.creds, hw.enabled, hw.blocks⟩ hb.curl hb.readAhead_pos hb.readAhead_le ht (hsound hin)
    rw [heq]
    exact ⟨b', w', rfl, honline, hload.readAhead_eq, hload.uri_eq, hload.reads,
      fun hO _ ↦ hload.past hO⟩

/-- A seek to a target that is not negative ends in `seekpos`. -/
theorem seekoff_of_target {off : ℤ} (base : ℤ) {dir : S3Streambuf.SeekDir} {t : ℕ}
    (hdir : dir ≠ .fromEnd)
    (hbase : (if dir = .cur then toInt64 b.curPos else 0) = base) (ht : base + off = t)
    (hlt : t < 2 ^ 63) :
    S3Streambuf.seekoff env w b off dir true = S3Streambuf.seekpos env w b t true := by
  rw [S3Streambuf.seekoff, if_neg (by simp [hdir])]
  dsimp only
  rw [hbase, ht, if_neg (by omega), if_neg (by omega)]

theorem seekoff_of_neg {off : ℤ} (base : ℤ) {dir : S3Streambuf.SeekDir} (hdir : dir ≠ .fromEnd)
    (hbase : (if dir = .cur then toInt64 b.curPos else 0) = base) (hneg : base + off < 0)
    (hlow : -2 ^ 63 ≤ base + off) :
    S3Streambuf.seekoff env w b off dir true = .ok (-1, b, w) := by
  rw [S3Streambuf.seekoff, if_neg (by simp [hdir])]
  dsimp only
  rw [hbase, if_neg (by omega), if_pos hneg]

theorem toInt64_curPos {p : ℕ} (hb : Reads cached O b p) (hp : p < 2 ^ 63) :
    toInt64 b.curPos = (b.windowStart + b.gptr : ℕ) := by
  have hle : b.windowStart + b.gptr ≤ p := by
    rcases hb.pos with hpos | ⟨-, hpos, -⟩ <;> omega
  rw [S3Streambuf.curPos, Nat.mod_eq_of_lt (by omega), toInt64, if_pos (by omega)]

end

end Nanos3Reader
