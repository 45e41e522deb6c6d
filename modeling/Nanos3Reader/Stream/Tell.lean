import Nanos3Reader.Stream.SignedGets

/-!
# When `tell` is a query

`tellg` asks `seekoff` for a seek of no distance from the current position, and `seekoff` hands it
to `seekpos` like any other seek. So it clears the thread's error text, and where the window has no
bytes (`holds_curPos_iff`) it loads one: with a request, unless the disk cache has the block.
-/

open ByteText

namespace Nanos3Reader

namespace S3Streambuf

/-- `b'` shows what `b` shows: the window with its bytes, the get pointer, and whether the end of
the file has been met. -/
structure SameView (b b' : S3Streambuf) : Prop where
  windowStart : b'.windowStart = b.windowStart
  windowLen : b'.windowLen = b.windowLen
  bytes : b'.window.take b'.windowLen = b.window.take b.windowLen
  gptr : b'.gptr = b.gptr
  egptr : b'.egptr = b.egptr
  reachedEof : b'.reachedEof = b.reachedEof

/-- `tell` returns the current position, sends nothing, and leaves the window, the position, the end
of the file and the thread's error text as they are. -/
def TellsPurely (env : Outside) (w : World) (b : S3Streambuf) : Prop :=
  ∃ b' w', seekoff env w b 0 .cur true = .ok ((b.curPos : ℤ), b', w') ∧
    w'.sent = w.sent ∧ SameView b b' ∧ w'.lastError = w.lastError

/-- The cache has the window that `b` shows, as the block for its position. -/
structure CachedAgain (env : Outside) (w : World) (b : S3Streambuf) : Prop where
  start : b.loadStart w b.curPos = b.windowStart
  block : (w.tryLoad env ⟨b.uri, .ofNat b.windowStart⟩).1 = some (b.window.take b.windowLen)
  reachedEof : b.reachedEof = decide (b.windowLen < b.readAhead)

section

variable {env : Outside} {w w' : World} {b b' : S3Streambuf} {target : ℕ}

theorem settings_of_reachable (h : Reachable env b) : b.curl = true ∧ 0 < b.readAhead := by
  have hends : ∀ {b b' : S3Streambuf} {w' : World} {start target : ℕ} {a : Answer} {ok : Bool},
      b.curl = true ∧ 0 < b.readAhead → Ends b start target a ok b' w' →
      b'.curl = true ∧ 0 < b'.readAhead := by
    intro b b' w' start target a ok hb hends
    rcases hends with ⟨hkept, -⟩ | ⟨hkept, -⟩ | ⟨hkept, -⟩ | ⟨hkept, -⟩ | ⟨hkept, -, -⟩ <;>
    exact ⟨hkept.curl.trans hb.1, hb.2.trans_eq hkept.readAhead.symm⟩
  induction h with
  | opened h =>
    obtain ⟨-, -, -, hcurl, hreadAhead, -⟩ := openStream_eq_some h
    refine ⟨hcurl, ?_⟩
    rw [hreadAhead]
    split <;> omega
  | called hb h ih =>
    refine h.preserves (I := fun b _ ↦ b.curl = true ∧ 0 < b.readAhead) ?_
      (fun _ _ _ hb _ _ ↦ hb) ?_ ih
    · intro w b r b' w' hb h
      rcases h with ⟨-, -⟩ | ⟨-, -⟩ | ⟨-, -, hload⟩ | ⟨-, -, hload, -⟩ | ⟨-, -, hload, -, -⟩
      · exact hb
      · exact hb
      · exact hends hb (ends_of_loadWindow hload).2
      · have hfound := hends hb (ends_of_loadWindow hload).2
        exact hfound
      · exact hends hb (ends_of_loadWindow hload).2
    · intro w b sp forInput r b' w' hb h
      rcases h with _ | _ | ⟨-, hload⟩
      · exact hb
      · exact hb
      · exact hends hb (ends_of_loadWindow hload).2

/-! ## Loads without a request -/

theorem sent_lt_lastTransfer (env : Outside) (cred : Credentials) (start : ℕ) (w : World)
    (b : S3Streambuf) (redirected : Bool) (attempt : ℕ) :
    w.sent.length < (lastTransfer env cred start w b redirected attempt).2.2.sent.length := by
  have hgrows : ∀ (w : World) (b : S3Streambuf) (redirected : Bool) (attempt : ℕ),
      w.sent.length ≤ (lastTransfer env cred start w b redirected attempt).2.2.sent.length := by
    intro w b redirected attempt
    obtain ⟨reqs, hreqs, -⟩ := sent_lastTransfer env cred start w b redirected attempt
    rw [hreqs, List.length_append]
    omega
  set sent := w.perform env (b.rangeRequest env cred start (env.amzNow w.moment)) with hsent
  have hone : w.sent.length < sent.2.sent.length := by
    rw [hsent, World.perform, List.length_append, List.length_singleton]
    omega
  rw [lastTransfer_eq]
  dsimp only
  rw [← hsent]
  split
  · exact hone.trans_le (hgrows _ _ _ _)
  · exact hone.trans_le (hgrows _ _ _ _)
  · exact hone

theorem sent_tryLoad (env : Outside) (w : World) (k : BlockKey) :
    (w.tryLoad env k).2.sent = w.sent := by
  rw [World.tryLoad]
  split <;> rfl

theorem loadWindow_of_block (hcurl : b.curl = true) {block : Bytes}
    (hblock : (w.tryLoad env ⟨b.uri, .ofNat (b.loadStart w target)⟩).1 = some block) :
    ∃ w', loadWindow env w b target = .ok (true,
        { b with window := block }.installWindow (b.loadStart w target) target true, w') ∧
      w'.sent = w.sent ∧ w'.lastError = [] := by
  have hsent := sent_tryLoad env w ⟨b.uri, .ofNat (b.loadStart w target)⟩
  rcases hload : w.tryLoad env ⟨b.uri, .ofNat (b.loadStart w target)⟩ with ⟨found, w₁⟩
  rw [hload] at hblock hsent
  refine ⟨{ w₁ with lastError := [] }, ?_, hsent, rfl⟩
  rw [loadWindow, hcurl, if_neg (by simp)]
  dsimp only
  rw [← loadStart, hload, show found = some block from hblock]

/-- Without a block and without credentials a load fails, and nothing is sent. -/
theorem loadWindow_of_invalid (hcurl : b.curl = true) {w₁ : World}
    (hmissed : w.tryLoad env ⟨b.uri, .ofNat (b.loadStart w target)⟩ = (none, w₁))
    (hvalid : (w₁.getCredentials env).1.valid = false) :
    ∃ b' w', loadWindow env w b target = .ok (false, b', w') ∧ w'.sent = w.sent := by
  have hsent := sent_tryLoad env w ⟨b.uri, .ofNat (b.loadStart w target)⟩
  rw [hmissed] at hsent
  rw [loadWindow, hcurl, if_neg (by simp)]
  dsimp only
  rw [← loadStart, hmissed]
  dsimp only
  rw [if_pos hvalid]
  exact ⟨_, _, rfl, hsent⟩

/-- **Nothing is sent** only for a block of the cache, or for want of credentials. -/
theorem silent_of_loadWindow (hcurl : b.curl = true) {ok : Bool}
    (h : loadWindow env w b target = .ok (ok, b', w')) (hsent : w'.sent = w.sent) :
    (∃ block, (w.tryLoad env ⟨b.uri, .ofNat (b.loadStart w target)⟩).1 = some block) ∨
      ok = false ∧ ∃ w₁, w.tryLoad env ⟨b.uri, .ofNat (b.loadStart w target)⟩ = (none, w₁) ∧
        (w₁.getCredentials env).1.valid = false := by
  have hlookup := sent_tryLoad env w ⟨b.uri, .ofNat (b.loadStart w target)⟩
  rw [loadWindow, hcurl, if_neg (by simp)] at h
  dsimp only at h
  rw [← loadStart] at h
  split at h
  · next block w₁ heq => exact .inl ⟨block, by rw [heq]⟩
  · next w₁ heq =>
    rw [heq] at hlookup
    split at h
    · next hvalid =>
      cases h
      exact .inr ⟨rfl, w₁, heq, hvalid⟩
    · by_cases hra : maxSize < b.readAhead
      · rw [fetch, if_pos hra] at h
        cases h
      · rw [fetch_eq_conclude _ _ _ _ _ _ _ _ _ (not_lt.mp hra)] at h
        have hlt := sent_lt_lastTransfer env (w₁.getCredentials env).1 (b.loadStart w target)
          (w₁.getCredentials env).2 b false 0
        rw [← sent_of_conclude h, hsent, ← hlookup] at hlt
        exact absurd hlt (lt_irrefl _)

theorem Ends.lastError_eq_nil {start : ℕ} {a : Answer} (h : Ends b start target a true b' w') :
    w'.lastError = [] := by
  rcases h with ⟨-, herror⟩ | ⟨-, herror⟩ | ⟨-, herror⟩ | ⟨-, herror⟩ <;> exact herror

/-! ## The view after `tell` -/

theorem SameView.refl (b : S3Streambuf) : SameView b b := ⟨rfl, rfl, rfl, rfl, rfl, rfl⟩

theorem Area.length_take (h : Area b) : (b.window.take b.windowLen).length = b.windowLen := by
  rw [List.length_take]
  rcases Nat.eq_zero_or_pos b.windowLen with hnone | hpos
  · rw [hnone, Nat.zero_min]
  · rw [h.window hpos, min_self]

/-- A block installed for the current position shows what the stream shows if it is the same bytes
from the same start, for a stream that is in its window. -/
theorem sameView_installWindow_iff (h : Area b) {block : Bytes} {start : ℕ}
    (hstart : start ≤ b.curPos) :
    SameView b ({ b with window := block }.installWindow start b.curPos true) ↔
      start = b.windowStart ∧ block = b.window.take b.windowLen ∧
        b.reachedEof = decide (b.windowLen < b.readAhead) ∧ b.windowStart + b.gptr < 2 ^ 64 := by
  have hlen := h.length_take
  have hgptr := gptr_installWindow { b with window := block } start b.curPos true
  have hcur : b.curPos = (b.windowStart + b.gptr) % 2 ^ 64 := rfl
  have hle := h.gptr_le
  rw [if_pos rfl] at hgptr
  constructor
  · rintro ⟨hwindowStart, hwindowLen, hbytes, hsame, -, heof⟩
    have hlength : block.length = b.windowLen := hwindowLen
    have hfrom : start = b.windowStart := hwindowStart
    have hblock : block.take block.length = b.window.take b.windowLen := hbytes
    rw [hgptr] at hsame
    dsimp only at hsame
    rw [hlength] at hsame
    refine ⟨hfrom, by rw [← hblock, List.take_length], ?_, by omega⟩
    rw [← hlength]
    exact heof.symm
  · rintro ⟨rfl, rfl, heof, hroom⟩
    refine ⟨rfl, hlen, ?_, ?_, ?_, ?_⟩
    · exact List.take_length
    · rw [hgptr]
      dsimp only
      rw [hlen]
      omega
    · exact hlen.trans h.egptr_eq.symm
    · exact (congrArg (fun n ↦ decide (n < b.readAhead)) hlen).trans heof.symm

/-- `tell` is a seek to the current position, as long as that is not negative as a signed number. -/
theorem tell_eq (env : Outside) (w : World) (b : S3Streambuf) : seekoff env w b 0 .cur true
    = if b.curPos < 2 ^ 63 then seekpos env w b b.curPos true else .ok (-1, b, w) := by
  have hlt : b.curPos < 2 ^ 64 := Nat.mod_lt _ (by decide)
  rw [seekoff, if_neg (by simp)]
  dsimp only
  rw [if_pos rfl, add_zero, toInt64]
  split
  · rw [if_neg (by omega), if_neg (by omega)]
  · rw [if_neg (by omega), if_pos (by omega)]

theorem loadStart_le (b : S3Streambuf) (w : World) (target : ℕ) :
    b.loadStart w target ≤ target := by
  rw [loadStart]
  split
  · exact Nat.div_mul_le_self _ _
  · exact le_rfl

theorem clear_eq (h : w.lastError = []) : { w with lastError := [] } = w := by
  rw [← h]

/-- Where the target is not in the window, a seek to the current position is a query if the cache
has the window once more. -/
theorem load_tells_iff (hb : Reachable env b) (w : World) :
    (∃ b' w', loadWindow env w b b.curPos = .ok (true, b', w') ∧ w'.sent = w.sent ∧ SameView b b') ↔
      CachedAgain env w b ∧ b.windowStart + b.gptr < 2 ^ 64 := by
  have harea := Area.of_reachable hb
  have hcurl := (settings_of_reachable hb).1
  have hle := loadStart_le b w b.curPos
  constructor
  · rintro ⟨b', w', hload, hsent, hview⟩
    obtain ⟨block, hblock⟩ | ⟨hfails, -⟩ := silent_of_loadWindow hcurl hload hsent
    swap
    · cases hfails
    obtain ⟨w₁, hfound, -, -⟩ := loadWindow_of_block hcurl hblock
    rw [hfound] at hload
    cases hload
    obtain ⟨hstart, rfl, heof, hroom⟩ := (sameView_installWindow_iff harea hle).mp hview
    exact ⟨⟨hstart, by rw [← hstart, hblock], heof⟩, hroom⟩
  · rintro ⟨⟨hstart, hblock, heof⟩, hroom⟩
    rw [← hstart] at hblock
    obtain ⟨w₁, hfound, hsent, -⟩ := loadWindow_of_block hcurl hblock
    exact ⟨_, w₁, hfound, hsent,
      (sameView_installWindow_iff harea hle).mpr ⟨hstart, rfl, heof, hroom⟩⟩

/-- **When `tell` is a query.** Just when the thread has no error text, and the position is in a
window with bytes, or the disk cache has the window once more. -/
theorem tellsPurely_iff (hb : Reachable env b) (w : World) : TellsPurely env w b ↔
    w.lastError = [] ∧ b.windowStart + b.gptr < 2 ^ 63 ∧
      (b.Holds b.curPos ∨ CachedAgain env w b) := by
  have hcur : b.curPos = (b.windowStart + b.gptr) % 2 ^ 64 := rfl
  rw [TellsPurely, tell_eq]
  constructor
  · rintro ⟨b', w', hcall, hsent, hview, herror⟩
    split at hcall
    swap
    · cases hcall
    next hlt =>
    have htarget : toUint64 (b.curPos : ℤ) = b.curPos := toUint64_natCast hlt
    obtain ⟨r, hr, hseeks⟩ : ∃ r, r = (b.curPos : ℤ) ∧ Seeks env w b b.curPos true r b' w' :=
      ⟨_, rfl, seeks hcall⟩
    rcases hseeks with _ | hin | @⟨ok, _, _, hout, hload⟩
    · omega
    · rw [htarget] at hin
      have hgptr := hview.gptr
      dsimp only at hgptr
      rw [htarget] at hgptr
      have hle := hin.2.1
      exact ⟨herror.symm, by omega, .inl hin⟩
    · rw [htarget] at hload
      rcases ok with _ | _
      · simp at hr
      have hclear : w.lastError = [] := by
        rw [← herror]
        exact (ends_of_loadWindow hload).2.lastError_eq_nil
      rw [clear_eq hclear] at hload
      obtain ⟨hcached, hroom⟩ := (load_tells_iff hb w).mp ⟨b', w', hload, hsent, hview⟩
      exact ⟨hclear, by omega, .inr hcached⟩
  · rintro ⟨hclear, hlow, hheld⟩
    have hlt : b.curPos < 2 ^ 63 := by omega
    have htarget : toUint64 (b.curPos : ℤ) = b.curPos := toUint64_natCast hlt
    rw [if_pos hlt, seekpos, if_neg (by simp)]
    dsimp only
    rw [htarget, clear_eq hclear]
    by_cases hin : b.Holds b.curPos
    · refine ⟨_, w, if_pos hin, rfl, ?_, rfl⟩
      have harea := Area.of_reachable hb
      exact ⟨rfl, rfl, rfl, by dsimp only; omega, harea.egptr_eq.symm, rfl⟩
    · obtain ⟨b', w', hload, hsent, hview⟩ :=
        (load_tells_iff hb w).mpr ⟨hheld.resolve_left hin, by omega⟩
      refine ⟨b', w', ?_, hsent, hview, ?_⟩
      · refine (if_neg hin).trans ?_
        rw [hload]
        rfl
      · rw [hclear]
        exact (ends_of_loadWindow hload).2.lastError_eq_nil

/-- Windows in memory are short of `2 ^ 63` bytes. Below that, a position is in the window as soon
as there are bytes in it. -/
theorem holds_curPos_iff (hb : Reachable env b) (hlen : b.windowLen < 2 ^ 63)
    (hlow : b.windowStart + b.gptr < 2 ^ 63) : b.Holds b.curPos ↔ 0 < b.windowLen := by
  have hle := (Area.of_reachable hb).gptr_le
  have hcur : b.curPos = b.windowStart + b.gptr := Nat.mod_eq_of_lt (by omega)
  have hnext : b.next = b.windowStart + b.windowLen := Nat.mod_eq_of_lt (by omega)
  rw [Holds, hcur, hnext]
  exact and_iff_left ⟨by omega, by omega⟩

end

/-- One byte of two has been read. -/
theorem tellsPurely_afterByte : ∃ b w, Reachable (calm [10, 11]) b ∧ b.curPos = 1 ∧
    TellsPurely (calm [10, 11]) w b := by
  obtain ⟨b₀, w₀, hopen, htry⟩ := @exists_of_justOpened (calm [10, 11]) 2
    (fun b w ↦ decide ((sbumpc (calm [10, 11]) w b).map (fun r ↦
      (r.2.1.curPos, r.2.2.lastError, decide (r.2.1.windowStart + r.2.1.gptr < 2 ^ 63),
        decide (r.2.1.Holds r.2.1.curPos))) = .ok (1, [], true, true))) (by decide +kernel)
  obtain ⟨⟨r, b, w⟩, hread, heq⟩ := exists_of_map_eq_ok (of_decide_eq_true htry)
  simp only [Prod.mk.injEq, decide_eq_true_eq] at heq
  obtain ⟨hpos, herror, hlow, hin⟩ := heq
  have hb := (Reachable.opened hopen).called (.sbumpc hread)
  exact ⟨b, w, hb, hpos, (tellsPurely_iff hb w).mpr ⟨herror, hlow, .inl hin⟩⟩

theorem sent_ne_of_length {w : World} {res : Except Fault (ℤ × S3Streambuf × World)}
    (hlen : res.map (fun r ↦ r.2.2.sent.length) = .ok (w.sent.length + 1)) {r : ℤ}
    {b' : S3Streambuf} {w' : World} (h : res = .ok (r, b', w')) : w'.sent ≠ w.sent := by
  intro hsent
  rw [h] at hlen
  have hmore : w'.sent.length = w.sent.length + 1 := Except.ok.inj hlen
  rw [hsent] at hmore
  omega

/-- A stream that has only been opened sends a GET to say that it is at offset 0. -/
theorem not_tellsPurely_justOpened : ¬ ∀ (env : Outside) (w : World) (b : S3Streambuf),
    Reachable env b → TellsPurely env w b := by
  intro hall
  obtain ⟨b, w, hopen, htry⟩ := @exists_of_justOpened (calm [10]) 2
    (fun b w ↦ decide ((seekoff (calm [10]) w b 0 .cur true).map (fun r ↦ r.2.2.sent.length)
      = .ok (w.sent.length + 1))) (by decide +kernel)
  obtain ⟨b', w', hpure, hsent, -⟩ := hall _ w b (.opened hopen)
  exact sent_ne_of_length (of_decide_eq_true htry) hpure hsent

end S3Streambuf

end Nanos3Reader
