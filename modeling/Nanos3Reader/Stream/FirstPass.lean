import Nanos3Reader.DiskCache.Recent
import Nanos3Reader.Stream.Refinement
import Nanos3Reader.Stream.Loads

/-!
# What a first stream leaves behind

A stream that reads an object to its end goes through its chunks one by one, and each of them ends
up in the cache, new or newly used. If there is room for all of them, all of them are there at the
end, whatever else the cache has to evict. What another stream can then read is said without a
word about the network: it finds byte after byte in blocks of the cache, and the end in a block
that is short.
-/

open ByteText

namespace Nanos3Reader

/-- The server has `O`, and answers a GET of a range, if it does, with the bytes in it, or with 416
when there are none. -/
def HonoursRanges (env : Outside) (O : Bytes) : Prop :=
  ∀ m req a z, req.range = some (a, z) → a ≤ z → (env.perform m req).rc = .ok →
    ((env.perform m req).code = 206 →
      a < O.length ∧ (env.perform m req).chunks.flatten = slice O a (z + 1 - a)) ∧
    ((env.perform m req).code = 416 → O.length ≤ a) ∧ (env.perform m req).code ≠ 200

theorem ServesRanges.honours {env : Outside} {O : Bytes} (h : ServesRanges env O) :
    HonoursRanges env O := by
  intro m req a z hrange hle _
  have hanswer := (h m req a z hrange hle).2
  split at hanswer
  · next hin => simp [hanswer, hin]
  · next hout => simp [hanswer, not_lt.mp hout]

namespace S3Streambuf

/-- Where the block starts that `underflow` asks the cache for. -/
def nextStart (b : S3Streambuf) : ℕ := b.next / b.readAhead * b.readAhead

def nextKey (b : S3Streambuf) : BlockKey := ⟨b.uri, .ofNat b.nextStart⟩

/-- The stream with `block` for its next window. -/
def filled (b : S3Streambuf) (block : Bytes) : S3Streambuf :=
  { b with window := block }.installWindow b.nextStart b.next true

/-- `b'` reads like `b`, whatever else it has. -/
structure SameWindow (b b' : S3Streambuf) : Prop where
  curl : b'.curl = b.curl
  uri : b'.uri = b.uri
  readAhead : b'.readAhead = b.readAhead
  window : b'.window = b.window
  windowStart : b'.windowStart = b.windowStart
  windowLen : b'.windowLen = b.windowLen
  reachedEof : b'.reachedEof = b.reachedEof
  gptr : b'.gptr = b.gptr
  egptr : b'.egptr = b.egptr

section

variable {env : Outside} {O : Bytes} {w w' : World} {b b' : S3Streambuf}

theorem SameWindow.refl (b : S3Streambuf) : SameWindow b b :=
  ⟨rfl, rfl, rfl, rfl, rfl, rfl, rfl, rfl, rfl⟩

theorem SameWindow.symm (h : SameWindow b b') : SameWindow b' b :=
  ⟨h.curl.symm, h.uri.symm, h.readAhead.symm, h.window.symm, h.windowStart.symm,
    h.windowLen.symm, h.reachedEof.symm, h.gptr.symm, h.egptr.symm⟩

theorem SameWindow.advance (h : SameWindow b b') :
    SameWindow { b with gptr := b.gptr + 1 } { b' with gptr := b'.gptr + 1 } :=
  ⟨h.curl, h.uri, h.readAhead, h.window, h.windowStart, h.windowLen, h.reachedEof,
    congrArg (· + 1) h.gptr, h.egptr⟩

theorem SameWindow.next (h : SameWindow b b') : b'.next = b.next := by
  rw [S3Streambuf.next, h.windowStart, h.windowLen, S3Streambuf.next]

theorem SameWindow.nextStart (h : SameWindow b b') : b'.nextStart = b.nextStart := by
  rw [S3Streambuf.nextStart, h.next, h.readAhead, S3Streambuf.nextStart]

theorem SameWindow.nextKey (h : SameWindow b b') : b'.nextKey = b.nextKey := by
  rw [S3Streambuf.nextKey, h.uri, h.nextStart, S3Streambuf.nextKey]

theorem SameWindow.filled (h : SameWindow b b') (block : Bytes) :
    SameWindow (b.filled block) (b'.filled block) := by
  constructor <;> simp [S3Streambuf.filled, installWindow, h.curl, h.uri, h.readAhead, h.next,
    h.nextStart]

/-! ## One load -/

/-- How `underflow` comes by a window when every file operation succeeds: from the cache, from the
server by way of the cache, or not at all, behind the end of the object. -/
inductive Fills (env : Outside) (O : Bytes) (w : World) (b : S3Streambuf) :
    S3Streambuf → World → Prop
  | hit {b' : S3Streambuf} {w' : World} {block : Bytes}
      (hblock : w.cache.block b.nextKey = some block) (hsame : SameWindow (b.filled block) b')
      (hcache : w'.cache = (w.cache.tryLoad { now := (env.io w.moment).now } b.nextKey).2) :
      Fills env O w b b' w'
  | stored {b' : S3Streambuf} {w' : World} {data : Bytes} {m : ℕ} (hm : w.moment ≤ m)
      (hblock : w.cache.block b.nextKey = none) (hstart : b.nextStart < O.length)
      (hsame : SameWindow (b.filled data) b')
      (hstore : w.cache.miss.store { now := (env.io m).now } b.nextKey data = some w'.cache) :
      Fills env O w b b' w'
  | pastEnd {b' : S3Streambuf} {w' : World} (hblock : w.cache.block b.nextKey = none)
      (hstart : O.length ≤ b.nextStart) (hlen : b'.windowLen = 0)
      (hcache : w'.cache = w.cache.miss) : Fills env O w b b' w'

/-- What a load makes of the last answer it gets, where the block is not in the cache. -/
theorem fills_of_conclude (hio : ∀ m, (env.io m).Succeeds)
    (hblock : w.cache.block b.nextKey = none) {t : Transfer} {b₁ : S3Streambuf} {w₁ : World}
    (hanswer : t.rc = .ok → (t.code = 206 → b.nextStart < O.length) ∧
      (t.code = 416 → O.length ≤ b.nextStart) ∧ t.code ≠ 200)
    (hkept : Kept b b₁) (hcache : w₁.cache = w.cache.miss) (hmoment : w.moment ≤ w₁.moment)
    (h : conclude env true b.nextStart b.next (t, b₁, w₁) = .ok (true, b', w')) :
    Fills env O w b b' w' ∧ w₁.moment ≤ w'.moment ∧ w'.provider = w₁.provider := by
  rw [conclude] at h
  split at h
  · next hanswered =>
    obtain ⟨hpart, -, hnot⟩ := hanswer hanswered.1
    have hcode : t.code = 206 := hanswered.2.resolve_left hnot
    rw [deliver, hcode, if_pos ⟨rfl, rfl⟩, World.store, hio w₁.moment, hcache] at h
    cases hstore : w.cache.miss.store { now := (env.io w₁.moment).now }
        ⟨b₁.uri, .ofNat b.nextStart⟩ b₁.window with
    | none =>
      rw [hstore] at h
      cases h
    | some c =>
      rw [hstore] at h
      cases h
      have hsame : SameWindow (b.filled b₁.window) (b₁.installWindow b.nextStart b.next true) := by
        constructor <;> simp [filled, installWindow, hkept.curl, hkept.uri, hkept.readAhead]
      rw [hkept.uri] at hstore
      exact ⟨.stored hmoment hblock (hpart hcode) hsame hstore, Nat.le_succ _, rfl⟩
  · split at h
    · next hpast =>
      cases h
      exact ⟨.pastEnd hblock ((hanswer hpast.1).2.1 hpast.2) rfl hcache, le_rfl, rfl⟩
    · cases h

/-- A load that succeeds fills the window, goes forward in time and forgets no credentials. -/
theorem fills_of_loadWindow (hserver : HonoursRanges env O) (hio : ∀ m, (env.io m).Succeeds)
    (henabled : w.cache.enabled = true) (hpos : 0 < b.readAhead) (hnext : b.next < 2 ^ 63)
    (h : loadWindow env w b b.next = .ok (true, b', w')) :
    Fills env O w b b' w' ∧ w.moment ≤ w'.moment ∧
      (w.provider.cached.valid = true → w'.provider.cached.valid = true) := by
  rw [loadWindow] at h
  split at h
  · cases h
  dsimp only at h
  rw [henabled, if_pos rfl, ← nextStart, ← nextKey, World.tryLoad, if_pos henabled,
    hio w.moment] at h
  cases hblock : w.cache.block b.nextKey with
  | some block =>
    rw [DiskCache.tryLoad_of_some hblock] at h
    cases h
    refine ⟨.hit hblock (.refl _) ?_, Nat.le_succ _, id⟩
    rw [DiskCache.tryLoad_of_some hblock]
  | none =>
    rw [DiskCache.tryLoad_of_none hblock] at h
    dsimp only at h
    split at h
    · cases h
    by_cases hra : maxSize < b.readAhead
    · rw [fetch, if_pos hra] at h
      cases h
    rw [fetch_eq_conclude _ _ _ _ _ _ _ _ _ (not_lt.mp hra)] at h
    set w₁ : World := { w with cache := w.cache.miss, moment := w.moment + 1 }
    have hrange : b.nextStart ≤ (b.nextStart + b.readAhead - 1) % 2 ^ 64 := by
      have hstart : b.nextStart ≤ b.next := Nat.div_mul_le_self _ _
      rw [maxSize] at hra
      rw [Nat.mod_eq_of_lt (by omega)]
      omega
    obtain ⟨m, req, hm, hreq, hlast, hmoment, hprovider⟩ := lastTransfer_performed env
      (w₁.getCredentials env).1 b.nextStart (w₁.getCredentials env).2 b false 0
    obtain ⟨hkept, hcache, -⟩ := lastTransfer_kept env
      (w₁.getCredentials env).1 b.nextStart (w₁.getCredentials env).2 b false 0
    have hvalid : w.provider.cached.valid = true →
        (w₁.getCredentials env).2.provider.cached.valid = true :=
      CredentialProvider.valid_get _ _
    have hcache₁ : (w₁.getCredentials env).2.cache = w.cache.miss := rfl
    have hmoment₁ : (w₁.getCredentials env).2.moment = w.moment + 2 := rfl
    rw [hcache₁] at hcache
    rw [hmoment₁] at hm
    rw [← hprovider] at hvalid
    generalize lastTransfer env (w₁.getCredentials env).1 b.nextStart (w₁.getCredentials env).2 b
      false 0 = last at h hlast hmoment hkept hcache hvalid
    obtain ⟨t, b₁, w₂⟩ := last
    dsimp only at hlast hmoment hkept hcache hvalid
    have hanswer : t.rc = .ok → (t.code = 206 → b.nextStart < O.length) ∧
        (t.code = 416 → O.length ≤ b.nextStart) ∧ t.code ≠ 200 := by
      intro hrc
      rw [hlast] at hrc ⊢
      obtain ⟨hpart, hpast, hnot⟩ := hserver m req _ _ hreq hrange hrc
      exact ⟨fun hcode ↦ (hpart hcode).1, hpast, hnot⟩
    have hlater : w.moment ≤ w₂.moment := by omega
    obtain ⟨hfills, hafter, hcreds⟩ :=
      fills_of_conclude hio hblock hanswer hkept hcache hlater h
    exact ⟨hfills, hlater.trans hafter, fun hheld ↦ hcreds ▸ hvalid hheld⟩

/-- A stream reads `rest` and meets the end of the file on blocks of `c` alone; or, if `unknown`, it
reads `rest` and has to ask where the end is. -/
inductive ReadsFrom (c : DiskCache) (unknown : Prop) : S3Streambuf → Bytes → Prop
  | inside {b : S3Streambuf} {x : UInt8} {rest : Bytes} (hlt : b.gptr < b.egptr)
      (hget : b.window[b.gptr]? = some x)
      (hrest : ReadsFrom c unknown { b with gptr := b.gptr + 1 } rest) :
      ReadsFrom c unknown b (x :: rest)
  | loads {b : S3Streambuf} {block : Bytes} {x : UInt8} {rest : Bytes} (hle : b.egptr ≤ b.gptr)
      (heof : b.reachedEof = false) (hblock : c.block b.nextKey = some block)
      (hget : (b.filled block).window[(b.filled block).gptr]? = some x)
      (hrest : ReadsFrom c unknown
        { b.filled block with gptr := (b.filled block).gptr + 1 } rest) :
      ReadsFrom c unknown b (x :: rest)
  | ended {b : S3Streambuf} (hle : b.egptr ≤ b.gptr) (heof : b.reachedEof = true) :
      ReadsFrom c unknown b []
  | finds {b : S3Streambuf} (hle : b.egptr ≤ b.gptr) (heof : b.reachedEof = false)
      (hblock : c.block b.nextKey = some []) : ReadsFrom c unknown b []
  | asks {b : S3Streambuf} (hle : b.egptr ≤ b.gptr) (heof : b.reachedEof = false)
      (hunknown : unknown) : ReadsFrom c unknown b []

theorem ReadsFrom.congr {c : DiskCache} {unknown : Prop} {rest : Bytes}
    (h : ReadsFrom c unknown b rest) (hsame : SameWindow b b') : ReadsFrom c unknown b' rest := by
  induction h generalizing b' with
  | inside hlt hget hrest ih =>
    refine .inside (by rwa [hsame.gptr, hsame.egptr]) ?_ (ih hsame.advance)
    rwa [hsame.window, hsame.gptr]
  | @loads b block x rest hle heof hblock hget hrest ih =>
    have hfilled := hsame.filled block
    have hblock' : c.block b'.nextKey = some block := by rwa [hsame.nextKey]
    have hget' : (b'.filled block).window[(b'.filled block).gptr]? = some x := by
      rwa [hfilled.window, hfilled.gptr]
    exact .loads (by rwa [hsame.gptr, hsame.egptr]) (by rwa [hsame.reachedEof]) hblock' hget'
      (ih hfilled.advance)
  | ended hle heof => exact .ended (by rwa [hsame.gptr, hsame.egptr]) (by rwa [hsame.reachedEof])
  | finds hle heof hblock =>
    exact .finds (by rwa [hsame.gptr, hsame.egptr]) (by rwa [hsame.reachedEof])
      (by rwa [hsame.nextKey])
  | asks hle heof hunknown =>
    exact .asks (by rwa [hsame.gptr, hsame.egptr]) (by rwa [hsame.reachedEof]) hunknown

/-- What the first stream keeps on its way: the recent blocks, and the means to open another. -/
structure Keeps (since : ℕ) (w w' : World) : Prop where
  recent : ∀ k d, w.cache.HasRecent since k d → w'.cache.HasRecent since k d
  enabled : w.cache.enabled = true → w'.cache.enabled = true
  creds : w.provider.cached.valid = true → w'.provider.cached.valid = true

theorem Keeps.refl (since : ℕ) (w : World) : Keeps since w w := ⟨fun _ _ ↦ id, id, id⟩

theorem Keeps.trans {since : ℕ} {w w₁ w' : World} (h : Keeps since w w₁)
    (h' : Keeps since w₁ w') : Keeps since w w' :=
  ⟨fun k d hkd ↦ h'.recent k d (h.recent k d hkd), h'.enabled ∘ h.enabled, h'.creds ∘ h.creds⟩

/-- The names of the blocks that start inside the object. -/
def blockNames (uri : Bytes) (readAhead : ℕ) (O : Bytes) : List Bytes :=
  (List.range ((O.length + readAhead - 1) / readAhead)).map fun i ↦
    pathFor ⟨uri, .ofNat (i * readAhead)⟩

/-- A stream on its first way through `O`, at `p`, and what it leaves in the cache: no more blocks
since `since` than the object has. -/
structure FirstPass (O uri : Bytes) (readAhead since moment : ℕ) (b : S3Streambuf) (w : World)
    (p : ℕ) : Prop where
  uri_eq : b.uri = uri
  readAhead_eq : b.readAhead = readAhead
  pos : b.windowStart + b.gptr = p
  egptr_eq : b.egptr = b.windowLen
  gptr_le : b.gptr ≤ b.windowLen
  le_length : p ≤ O.length
  later : moment ≤ w.moment
  enabled : w.cache.enabled = true
  recent : w.cache.RecentIn since (blockNames uri readAhead O)
  fits : (O.length + readAhead - 1) / readAhead ≤ w.cache.maxBlocks

variable {uri : Bytes} {readAhead since moment p : ℕ}

theorem mem_blockNames (hpos : 0 < readAhead) {t : ℕ} (ht : t / readAhead * readAhead < O.length) :
    pathFor ⟨uri, .ofNat (t / readAhead * readAhead)⟩ ∈ blockNames uri readAhead O := by
  refine List.mem_map.mpr ⟨t / readAhead, List.mem_range.mpr ?_, rfl⟩
  refine (Nat.le_div_iff_mul_le hpos).mpr ?_
  rw [Nat.succ_mul]
  omega

namespace FirstPass

/-- Once its window is used up, the stream asks for the chunk of its position. -/
theorem next_eq (h : FirstPass O uri readAhead since moment b w p) (hO : O.length < 2 ^ 63)
    (hle : b.egptr ≤ b.gptr) : b.next = p := by
  have hpos := h.pos
  have hlen := h.le_length
  have hegptr := h.egptr_eq
  have hgptr := h.gptr_le
  rw [S3Streambuf.next, Nat.mod_eq_of_lt (by omega)]
  omega

theorem next_lt (h : FirstPass O uri readAhead since moment b w p) (hO : O.length < 2 ^ 63)
    (hle : b.egptr ≤ b.gptr) : b.next < 2 ^ 63 := by
  rw [h.next_eq hO hle]
  exact h.le_length.trans_lt hO

theorem nextStart_eq (h : FirstPass O uri readAhead since moment b w p) (hO : O.length < 2 ^ 63)
    (hle : b.egptr ≤ b.gptr) : b.nextStart = p / readAhead * readAhead := by
  rw [S3Streambuf.nextStart, h.next_eq hO hle, h.readAhead_eq]

/-- A load of a chunk of the object leaves its block in the cache, and everything recent with it. -/
theorem fills_inside (h : FirstPass O uri readAhead since moment b w p) (hO : O.length < 2 ^ 63)
    (hpos : 0 < readAhead) (hclock : ∀ m, moment ≤ m → since ≤ (env.io m).now)
    (hle : b.egptr ≤ b.gptr) (hstart : b.nextStart < O.length) (hfills : Fills env O w b b' w') :
    w'.cache.RecentIn since (blockNames uri readAhead O) ∧
      w'.cache.maxBlocks = w.cache.maxBlocks ∧
      (∀ k d, w.cache.HasRecent since k d → w'.cache.HasRecent since k d) ∧
      ∃ block, SameWindow (b.filled block) b' ∧ w'.cache.HasRecent since b.nextKey block := by
  have hname : pathFor b.nextKey ∈ blockNames uri readAhead O := by
    rw [nextKey, h.uri_eq]
    rw [h.nextStart_eq hO hle] at hstart ⊢
    exact mem_blockNames hpos hstart
  have hfits : (blockNames uri readAhead O).length ≤ w.cache.maxBlocks := by
    simpa [blockNames] using h.fits
  cases hfills with
  | @hit block hblock hsame hcache =>
    obtain ⟨hhas, hkeeps, hrecent⟩ := DiskCache.recent_of_tryLoad (hclock w.moment h.later) hblock
    rw [← hcache] at hhas hkeeps hrecent
    have hmax : w'.cache.maxBlocks = w.cache.maxBlocks := by
      rw [hcache, DiskCache.tryLoad_of_some hblock]
    exact ⟨hrecent _ hname h.recent, hmax, hkeeps, block, hsame, hhas⟩
  | @stored data m hm hblock hstart hsame hstore =>
    have hrecent : w.cache.miss.RecentIn since (blockNames uri readAhead O) := h.recent
    obtain ⟨hrecent', hmax, hhas, hkeeps⟩ :=
      DiskCache.recent_of_store (hclock m (h.later.trans hm)) hrecent hfits hname hstore
    refine ⟨hrecent', hmax, fun k d hkd ↦ hkeeps k d ?_ hkd, data, hsame, hhas⟩
    -- the block stored was not there
    intro hsameName
    have hpresent := hkd.block_eq
    rw [DiskCache.block, hsameName, ← DiskCache.block, hblock] at hpresent
    cases hpresent
  | pastEnd hblock hpast hlen hcache => omega

/-- The stream goes on from a window that has the byte at `p`. -/
theorem load (h : FirstPass O uri readAhead since moment b w p) (hO : O.length < 2 ^ 63)
    (hle : b.egptr ≤ b.gptr) (hmoment : w.moment ≤ w'.moment)
    (henabled : w'.cache.enabled = true)
    (hrecent : w'.cache.RecentIn since (blockNames uri readAhead O))
    (hmax : w'.cache.maxBlocks = w.cache.maxBlocks) {block : Bytes}
    (hsame : SameWindow (b.filled block) b') {x : UInt8} (hget : b'.window[b'.gptr]? = some x) :
    FirstPass O uri readAhead since moment b' w' p := by
  have hnext := h.next_eq hO hle
  have hin : b.nextStart ≤ p := h.nextStart_eq hO hle ▸ Nat.div_mul_le_self p readAhead
  have hgptr : b'.gptr = min (p - b.nextStart) block.length := by
    rw [hsame.gptr, filled, gptr_installWindow, hnext]
    rfl
  have hlen : b'.windowLen = block.length := hsame.windowLen
  obtain ⟨hlt, -⟩ := List.getElem?_eq_some_iff.mp hget
  rw [hsame.window, show (b.filled block).window = block from rfl] at hlt
  constructor
  case uri_eq => exact hsame.uri.trans h.uri_eq
  case readAhead_eq => exact hsame.readAhead.trans h.readAhead_eq
  case pos =>
    rw [hsame.windowStart, show (b.filled block).windowStart = b.nextStart from rfl]
    omega
  case egptr_eq => rw [hsame.egptr, hsame.windowLen]; rfl
  case gptr_le => omega
  case le_length => exact h.le_length
  case later => exact h.later.trans hmoment
  case enabled => exact henabled
  case recent => exact hrecent
  case fits => exact hmax ▸ h.fits

theorem advance (h : FirstPass O uri readAhead since moment b w p) (hlt : b.gptr < b.egptr)
    (hp : p < O.length) :
    FirstPass O uri readAhead since moment { b with gptr := b.gptr + 1 } w (p + 1) := by
  have hpos := h.pos
  have hegptr := h.egptr_eq
  constructor
  case uri_eq => exact h.uri_eq
  case readAhead_eq => exact h.readAhead_eq
  case pos => dsimp only; omega
  case egptr_eq => exact hegptr
  case gptr_le => dsimp only; omega
  case le_length => exact hp
  case later => exact h.later
  case enabled => exact h.enabled
  case recent => exact h.recent
  case fits => exact h.fits

/-- A stream that meets the end of the file at the end of the object, with no error, shows where
that is, or had to ask. -/
theorem ended (h : FirstPass O uri readAhead since moment b w p) (hO : O.length < 2 ^ 63)
    (hpos : 0 < readAhead) (hclock : ∀ m, moment ≤ m → since ≤ (env.io m).now)
    (hserver : HonoursRanges env O) (hio : ∀ m, (env.io m).Succeeds) (hp : p = O.length)
    (herror : w'.lastError = []) (hends : Underflows env w b none b' w') :
    ReadsFrom w'.cache (readAhead ∣ O.length) b [] ∧ Keeps since w w' := by
  cases hends with
  | ended hle heof => exact ⟨.ended hle heof, .refl since w⟩
  | fails hle heof hload =>
    obtain ⟨-, hfailed⟩ := ends_of_loadWindow hload
    generalize b.answer env w b.next = a at hfailed
    cases hfailed with
    | failed hkept hmessage hset => exact absurd (hset ▸ herror) hmessage
  | @finds b₁ _ hle heof hload hempty =>
    obtain ⟨hfills, -, hcreds⟩ := fills_of_loadWindow hserver hio h.enabled
      (h.readAhead_eq ▸ hpos) (h.next_lt hO hle) hload
    have henabled := (ends_of_loadWindow hload).1.trans h.enabled
    by_cases hstart : b.nextStart < O.length
    · obtain ⟨-, -, hkeeps, block, hsame, hhas⟩ := h.fills_inside hO hpos hclock hle hstart hfills
      have hnil : block = [] := List.length_eq_zero_iff.mp (hsame.windowLen.symm.trans hempty)
      exact ⟨.finds hle heof (hnil ▸ hhas.block_eq), hkeeps, fun _ ↦ henabled, hcreds⟩
    · -- the chunk asked for is the one behind the object, so the object ends with a chunk
      have heq := h.nextStart_eq hO hle
      have hin : b.nextStart ≤ p := heq ▸ Nat.div_mul_le_self p readAhead
      have hdvd : readAhead ∣ O.length := ⟨p / readAhead, by rw [Nat.mul_comm]; omega⟩
      refine ⟨.asks hle heof hdvd, ?_, fun _ ↦ henabled, hcreds⟩
      cases hfills with
      | hit hblock hsame hcache =>
        rw [hcache]
        exact (DiskCache.recent_of_tryLoad (hclock w.moment h.later) hblock).2.1
      | stored hm hblock hin hsame hstore => exact absurd hin hstart
      | pastEnd hblock hpast hlen hcache =>
        rw [hcache]
        exact fun _ _ hkd ↦ hkd

end FirstPass

/-- **The first pass.** What a stream has read to the end it can be read from the cache. -/
theorem ReadsFrom.of_sgetn (hserver : HonoursRanges env O) (hio : ∀ m, (env.io m).Succeeds)
    (hclock : ∀ m, moment ≤ m → since ≤ (env.io m).now) (hO : O.length < 2 ^ 63)
    (hpos : 0 < readAhead) {k : ℕ} (h : FirstPass O uri readAhead since moment b w p)
    (hread : sgetn env w b k = .ok ((O.drop p, true), b', w')) (herror : w'.lastError = []) :
    ReadsFrom w'.cache (readAhead ∣ O.length) b (O.drop p) ∧ Keeps since w w' := by
  induction k generalizing b w p with
  | zero => simp [sgetn] at hread
  | succ k ih =>
    rw [sgetn, sbumpc] at hread
    rcases hunderflow : underflow env w b with f | ⟨_ | x, b₁, w₁⟩
    all_goals rw [hunderflow] at hread
    · cases hread
    · simp only [Except.ok.injEq, Prod.mk.injEq, and_true] at hread
      obtain ⟨hrest, rfl, rfl⟩ := hread
      have hp : p = O.length := by
        have hle := List.drop_eq_nil_iff.mp hrest.symm
        have := h.le_length
        omega
      rw [← hrest]
      exact h.ended hO hpos hclock hserver hio hp herror (underflows hunderflow)
    · obtain ⟨⟨⟨data, eof⟩, b₂, w₂⟩, hsgetn, hr⟩ := exists_of_map_eq_ok hread
      simp only [Prod.mk.injEq] at hr
      obtain ⟨⟨hdata, rfl⟩, rfl, rfl⟩ := hr
      have hp : p < O.length := by
        by_contra hge
        rw [List.drop_eq_nil_of_le (not_lt.mp hge)] at hdata
        cases hdata
      rw [List.drop_eq_getElem_cons hp, List.cons.injEq] at hdata
      obtain ⟨rfl, rfl⟩ := hdata
      rw [List.drop_eq_getElem_cons hp]
      cases underflows hunderflow with
      | inside hlt hget =>
        obtain ⟨hreads, hkeeps⟩ := ih (h.advance hlt hp) hsgetn
        exact ⟨.inside hlt hget hreads, hkeeps⟩
      | loads hle heof hload hlen hget =>
        obtain ⟨hfills, hmoment, hcreds⟩ := fills_of_loadWindow hserver hio h.enabled
          (h.readAhead_eq ▸ hpos) (h.next_lt hO hle) hload
        have henabled := (ends_of_loadWindow hload).1.trans h.enabled
        have hin : b.nextStart < O.length :=
          (h.nextStart_eq hO hle ▸ Nat.div_mul_le_self p readAhead).trans_lt hp
        obtain ⟨hrecent, hmax, hkept, block, hsame, hhas⟩ :=
          h.fills_inside hO hpos hclock hle hin hfills
        have hpass := h.load hO hle hmoment henabled hrecent hmax hsame hget
        have hlt : b₁.gptr < b₁.egptr := by
          obtain ⟨hlt, -⟩ := List.getElem?_eq_some_iff.mp hget
          rw [hsame.window] at hlt
          rw [hsame.egptr]
          exact hlt
        obtain ⟨hreads, hkeeps⟩ := ih (hpass.advance hlt hp) hsgetn
        -- the block just read is still there at the end of the pass
        refine ⟨.loads hle heof (hkeeps.recent _ _ hhas).block_eq ?_
          (hreads.congr hsame.symm.advance), .trans ⟨hkept, fun _ ↦ henabled, hcreds⟩ hkeeps⟩
        rwa [← hsame.window, ← hsame.gptr]

/-- Read on in pieces of the given sizes, up to the end of the file. -/
def readPieces (env : Outside) (w : World) (b : S3Streambuf) :
    List ℕ → Except Fault ((Bytes × Bool) × S3Streambuf × World)
  | [] => .ok (([], false), b, w)
  | k :: ks =>
    match sgetn env w b k with
    | .error f => .error f
    | .ok ((data, true), b, w) => .ok ((data, true), b, w)
    | .ok ((data, false), b, w) =>
      (readPieces env w b ks).map fun r ↦ ((data ++ r.1.1, r.1.2), r.2)

theorem sgetn_add (env : Outside) (w : World) (b : S3Streambuf) (k l : ℕ) :
    sgetn env w b (k + l) = match sgetn env w b k with
      | .error f => .error f
      | .ok ((data, true), b, w) => .ok ((data, true), b, w)
      | .ok ((data, false), b, w) =>
        (sgetn env w b l).map fun r ↦ ((data ++ r.1.1, r.1.2), r.2) := by
  induction k generalizing w b with
  | zero =>
    rw [Nat.zero_add, sgetn]
    dsimp only
    cases sgetn env w b l <;> rfl
  | succ k ih =>
    rw [Nat.succ_add, sgetn, sgetn]
    rcases sbumpc env w b with f | ⟨_ | c, b₁, w₁⟩
    · rfl
    · rfl
    · dsimp only
      rw [ih w₁ b₁]
      rcases sgetn env w₁ b₁ k with f | ⟨⟨data, _ | _⟩, b₂, w₂⟩
      · rfl
      · dsimp only [Except.map]
        cases sgetn env w₂ b₂ l <;> rfl
      · rfl

theorem readPieces_eq_sgetn (env : Outside) (w : World) (b : S3Streambuf) (ks : List ℕ) :
    readPieces env w b ks = sgetn env w b ks.sum := by
  induction ks generalizing w b with
  | nil => rfl
  | cons k ks ih =>
    rw [readPieces, List.sum_cons, sgetn_add]
    rcases sgetn env w b k with f | ⟨⟨data, _ | _⟩, b₁, w₁⟩
    · rfl
    · dsimp only
      rw [ih w₁ b₁]
    · rfl

end

end S3Streambuf

end Nanos3Reader
