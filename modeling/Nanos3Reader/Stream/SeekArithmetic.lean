import Nanos3Reader.Stream.Tell

/-!
# The arithmetic of seeks

`seekoff` adds two signed numbers and lets only a sum that is not negative through to `seekpos`;
`seekpos` takes its argument as an unsigned number whatever its sign. For a target below `2 ^ 63`
and windows smaller than that, the range of a window that is loaded for the target is computed
without a wrap-around, whether or not it is aligned for the cache.
-/

open ByteText

namespace Nanos3Reader

namespace S3Streambuf

/-- A GET for the window at `t`. -/
def SeekGets (env : Outside) (w : World) (b : S3Streambuf) (t : ℕ) (req : HttpRequest) : Prop :=
  ¬b.Holds t ∧ ∃ cred start b' m, LoadGets env { w with lastError := [] } b t cred start b' m ∧
    req = b'.rangeRequest env cred start (env.amzNow m)

/-- The range that `req` asks for has `n` bytes, and the one at `t` is among them. -/
def RangeCovers (req : HttpRequest) (t n : ℕ) : Prop :=
  ∃ a z, req.range = some (a, z) ∧
    cStr (utf8 "Range: " ++ (utf8 "bytes=" ++ decimal a ++ utf8 "-" ++ decimal z)) ∈ req.headers ∧
    a ≤ t ∧ t ≤ z ∧ z + 1 = a + n ∧ z < 2 ^ 64

/-- A seek that fails, and has sent nothing. -/
def FailsQuietly (w : World) (res : Except Fault (ℤ × S3Streambuf × World)) : Prop :=
  ∃ b' w', res = .ok (-1, b', w') ∧ w'.sent = w.sent

/-- A seek to a target that a signed number can hold, in which no signed addition overflows, and
whose GETs, if there are any, are for ranges about the target. -/
structure SeeksInRange (env : Outside) (w : World) (b : S3Streambuf) (t : ℤ)
    (res : Except Fault (ℤ × S3Streambuf × World)) : Prop where
  nonneg : 0 ≤ t
  lt : t < 2 ^ 63
  no_overflow : res ≠ .error .signedOverflow
  gets : ∀ req, SeekGets env w b t.toNat req → RangeCovers req t.toNat b.readAhead
  sent : ∀ r b' w', res = .ok (r, b', w') → ∃ reqs, w'.sent = w.sent ++ reqs ∧
    ∀ req ∈ reqs, SeekGets env w b t.toNat req

/-- A seek for which no GET is sent, and which returns -1: in the window or with a block of the
cache because that is what it was asked for, and otherwise for want of credentials. -/
def Unanswered (env : Outside) (w : World) (b : S3Streambuf) (sp : ℤ) : Prop :=
  if b.Holds (toUint64 sp) then sp = -1
  else
    match ({ w with lastError := [] } : World).tryLoad env
      ⟨b.uri, .ofNat (b.loadStart w (toUint64 sp))⟩ with
    | (some _, _) => sp = -1
    | (none, w) => (w.getCredentials env).1.valid = false

section

variable {env : Outside} {w w' : World} {b b' : S3Streambuf}

theorem rangeCovers_of_seekGets {t : ℕ} {req : HttpRequest} (ht : t < 2 ^ 63)
    (hpos : 0 < b.readAhead) (hra : b.readAhead < 2 ^ 63) (h : SeekGets env w b t req) :
    RangeCovers req t b.readAhead := by
  obtain ⟨-, cred, start, b', m, hgets, rfl⟩ := h
  have hkept : b'.readAhead = b.readAhead := hgets.gets.kept.readAhead
  have hle : start ≤ t := hgets.start_eq ▸ loadStart_le b _ t
  have hlt : t < start + b.readAhead := by
    rw [hgets.start_eq, loadStart]
    split
    · exact Nat.lt_div_mul_add hpos
    · omega
  have hlast : (start + b'.readAhead - 1) % 2 ^ 64 = start + b.readAhead - 1 := by
    rw [hkept]
    exact Nat.mod_eq_of_lt (by omega)
  refine ⟨start, start + b.readAhead - 1, ?_, ?_, hle, by omega, by omega, by omega⟩
  · rw [← hlast]
    rfl
  · rw [← hlast, rangeRequest]
    exact List.mem_map_of_mem (by simp)

theorem error_cases {target : ℕ} {f : Fault} (h : loadWindow env w b target = .error f) :
    f = .lengthError ∨ f = .hangs := by
  have hconclude : ∀ {cacheOn : Bool} {start : ℕ} {last : Transfer × S3Streambuf × World},
      conclude env cacheOn start target last = .error f → f = .hangs := by
    rintro cacheOn start ⟨t, b₁, w₁⟩ hlast
    rw [conclude] at hlast
    split at hlast
    · rw [deliver] at hlast
      split at hlast
      · exact (Except.error.inj hlast).symm
      · cases hlast
    · split at hlast <;> cases hlast
  rw [loadWindow] at h
  split at h
  · cases h
  dsimp only at h
  rw [← loadStart] at h
  split at h
  · cases h
  · split at h
    · cases h
    · by_cases hra : maxSize < b.readAhead
      · rw [fetch, if_pos hra] at h
        exact .inl (Except.error.inj h).symm
      · rw [fetch_eq_conclude _ _ _ _ _ _ _ _ _ (not_lt.mp hra)] at h
        exact .inr (hconclude h)

theorem toUint64_eq_toNat {t : ℤ} (ht : 0 ≤ t) (hlt : t < 2 ^ 63) : toUint64 t = t.toNat := by
  rw [toUint64]
  omega

theorem seeksInRange_seekpos (hb : Reachable env b) (hra : b.readAhead < 2 ^ 63) (w : World)
    {t : ℤ} (ht : 0 ≤ t) (hlt : t < 2 ^ 63) :
    SeeksInRange env w b t (seekpos env w b t true) := by
  have htarget := toUint64_eq_toNat ht hlt
  refine ⟨ht, hlt, fun h ↦ ?_, fun req ↦ ?_, fun r b' w' h ↦ ?_⟩
  · rw [seekpos, if_neg (by simp)] at h
    dsimp only at h
    split at h
    · cases h
    · rcases error_cases (eq_error_of_map h) with hfault | hfault <;> cases hfault
  · exact rangeCovers_of_seekGets (by omega) (settings_of_reachable hb).2 hra
  · rcases seeks h with _ | _ | ⟨hout, hload⟩
    · exact ⟨[], (List.append_nil _).symm, by simp⟩
    · exact ⟨[], (List.append_nil _).symm, by simp⟩
    · obtain ⟨reqs, hsent, hgets⟩ := sent_of_loadWindow hload
      rw [htarget] at hout hgets
      exact ⟨reqs, hsent, fun req hreq ↦ ⟨hout, hgets req hreq⟩⟩

theorem failsQuietly_seekpos_iff (hb : Reachable env b) (w : World) (sp : ℤ) :
    FailsQuietly w (seekpos env w b sp true) ↔ Unanswered env w b sp := by
  have hcurl := (settings_of_reachable hb).1
  rw [FailsQuietly, Unanswered]
  by_cases hin : b.Holds (toUint64 sp)
  · have hseek : seekpos env w b sp true = .ok (sp,
        { b with gptr := toUint64 sp - b.windowStart, egptr := b.windowLen },
        { w with lastError := [] }) := (if_neg (by simp)).trans (if_pos hin)
    rw [hseek, if_pos hin]
    constructor
    · rintro ⟨b', w', hcall, -⟩
      exact (Prod.mk.inj (Except.ok.inj hcall)).1
    · rintro rfl
      exact ⟨_, _, rfl, rfl⟩
  · have hseek : seekpos env w b sp true
        = (loadWindow env { w with lastError := [] } b (toUint64 sp)).map fun r ↦
            (if r.1 then sp else -1, r.2) := (if_neg (by simp)).trans (if_neg hin)
    have hstart : b.loadStart { w with lastError := [] } (toUint64 sp)
        = b.loadStart w (toUint64 sp) := rfl
    rw [hseek, if_neg hin, ← hstart]
    generalize hclear : ({ w with lastError := [] } : World) = w₀
    have hsent : w₀.sent = w.sent := by rw [← hclear]
    rw [← hsent]
    rcases hlookup : w₀.tryLoad env ⟨b.uri, .ofNat (b.loadStart w₀ (toUint64 sp))⟩ with ⟨found, w₁⟩
    constructor
    · rintro ⟨b', w', hcall, hquiet⟩
      obtain ⟨⟨ok, b₁, w₂⟩, hload, heq⟩ := exists_of_map_eq_ok hcall
      obtain ⟨hr, heq⟩ := Prod.mk.inj heq
      cases heq
      obtain ⟨block, hblock⟩ | ⟨rfl, w₃, hmissed, hvalid⟩ := silent_of_loadWindow hcurl hload hquiet
      · obtain ⟨w₃, hfound, -⟩ := loadWindow_of_block hcurl hblock
        rw [hfound] at hload
        cases hload
        rw [hlookup] at hblock
        dsimp only at hblock
        rw [hblock]
        exact hr
      · rw [hlookup] at hmissed
        cases hmissed
        exact hvalid
    · intro hunanswered
      rcases found with _ | block
      · obtain ⟨b', w', hfails, hquiet⟩ := loadWindow_of_invalid hcurl hlookup hunanswered
        rw [hfails]
        exact ⟨b', w', rfl, hquiet⟩
      · obtain ⟨w₃, hfound, hquiet, -⟩ := loadWindow_of_block hcurl
          (show (w₀.tryLoad env _).1 = some block by rw [hlookup])
        rw [hfound]
        exact ⟨_, w₃, congrArg (fun r ↦ Except.ok (r, _, w₃)) hunanswered, hquiet⟩

theorem seekoff_inRange (hb : Reachable env b) (hra : b.readAhead < 2 ^ 63) (w : World) {off : ℤ}
    {dir : SeekDir} (hdir : dir ≠ .fromEnd) {base : ℤ}
    (hbase : (if dir = .cur then toInt64 b.curPos else 0) = base) (hlow : -2 ^ 63 ≤ base + off)
    (hhigh : base + off < 2 ^ 63) :
    FailsQuietly w (seekoff env w b off dir true) ∨
      SeeksInRange env w b (base + off) (seekoff env w b off dir true) := by
  rcases lt_or_ge (base + off) 0 with hneg | hpos
  · exact .inl ⟨b, w, seekoff_of_neg base hdir hbase hneg hlow, rfl⟩
  · obtain ⟨n, hn⟩ := Int.eq_ofNat_of_zero_le hpos
    rw [hn] at hhigh ⊢
    rw [seekoff_of_target base hdir hbase hn (by omega)]
    exact .inr (seeksInRange_seekpos hb hra w (Int.natCast_nonneg n) hhigh)

/-- **The arithmetic of seeks.** Every seek fails without a GET, or goes to a target in range with
GETs for ranges about it, just in these cases: for `seekoff`, the sum of the base and the offset is
a signed 64-bit number; for `seekpos`, the target is not negative, or nobody answers for it. -/
theorem seeks_in_range_iff (hb : Reachable env b) (hra : b.readAhead < 2 ^ 63) (w : World)
    (forInput : Bool) :
    (∀ off dir, -2 ^ 63 ≤ off → off < 2 ^ 63 → dir ≠ .fromEnd →
      (FailsQuietly w (seekoff env w b off dir forInput) ∨
        SeeksInRange env w b ((if dir = .cur then toInt64 b.curPos else 0) + off)
          (seekoff env w b off dir forInput) ↔
      (forInput = true → dir = .cur →
        -2 ^ 63 ≤ toInt64 b.curPos + off ∧ toInt64 b.curPos + off < 2 ^ 63))) ∧
    ∀ sp, -2 ^ 63 ≤ sp → sp < 2 ^ 63 →
      (FailsQuietly w (seekpos env w b sp forInput) ∨
        SeeksInRange env w b sp (seekpos env w b sp forInput) ↔
      (forInput = true → sp < 0 → Unanswered env w b sp)) := by
  refine ⟨fun off dir hlow hhigh hdir ↦ ?_, fun sp hlow hhigh ↦ ?_⟩
  · rcases forInput with _ | _
    · exact iff_of_true (.inl ⟨b, w, if_pos (.inl rfl), rfl⟩) (by simp)
    rcases dir with _ | _ | _
    · have hbase : (if SeekDir.beg = .cur then toInt64 b.curPos else 0) = 0 := if_neg (by decide)
      refine iff_of_true ?_ (by simp)
      rw [hbase]
      exact seekoff_inRange hb hra w hdir hbase (by omega) (by omega)
    · have hbase : (if SeekDir.cur = .cur then toInt64 b.curPos else 0) = toInt64 b.curPos :=
        if_pos rfl
      rw [hbase]
      constructor
      -- a sum that does not fit ends the execution
      · intro hsafe _ _
        by_contra hout
        have hfault : seekoff env w b off .cur true = .error .signedOverflow := by
          rw [seekoff, if_neg (by simp)]
          dsimp only
          rw [hbase]
          exact if_pos (by omega)
        rw [hfault] at hsafe
        rcases hsafe with ⟨b', w', hcall, -⟩ | hinRange
        · cases hcall
        · exact hinRange.no_overflow rfl
      · intro hsum
        obtain ⟨hsumLow, hsumHigh⟩ := hsum rfl rfl
        exact seekoff_inRange hb hra w hdir hbase hsumLow hsumHigh
    · exact absurd rfl hdir
  · rcases forInput with _ | _
    · exact iff_of_true (.inl ⟨b, w, if_pos rfl, rfl⟩) (by simp)
    rw [failsQuietly_seekpos_iff hb]
    constructor
    · rintro (hunanswered | hinRange) - hneg
      · exact hunanswered
      · exact absurd hinRange.nonneg (not_le.mpr hneg)
    · intro h
      rcases lt_or_ge sp 0 with hneg | hpos
      · exact .inl (h rfl hneg)
      · exact .inr (seeksInRange_seekpos hb hra w hpos hhigh)

end

/-- A seek behind the end of an object of one byte. -/
theorem seeks_in_range_behind : ∃ b w, justOpened (calm [10]) 2 = (some b, w) ∧
    (FailsQuietly w (seekoff (calm [10]) w b 5 .beg true) ∨
      SeeksInRange (calm [10]) w b 5 (seekoff (calm [10]) w b 5 .beg true)) := by
  obtain ⟨b, w, hopen, htry⟩ := @exists_of_justOpened (calm [10]) 2
    (fun b _ ↦ decide (b.readAhead = 2)) (by decide +kernel)
  have hra : b.readAhead < 2 ^ 63 := by
    rw [of_decide_eq_true htry]
    decide
  exact ⟨b, w, hopen, ((seeks_in_range_iff (.opened hopen) hra w true).1 5 .beg (by decide)
    (by decide) (by decide)).mpr nofun⟩

/-- A seek to -5 sends a GET, and one by `2 ^ 63 - 1` from offset 1 overflows. -/
theorem seeks_out_of_range :
    (∃ b w, justOpened (calm [10]) 2 = (some b, w) ∧
      ¬(FailsQuietly w (seekpos (calm [10]) w b (-5) true) ∨
        SeeksInRange (calm [10]) w b (-5) (seekpos (calm [10]) w b (-5) true))) ∧
    ∃ b w, Reachable (calm [10]) b ∧ b.curPos = 1 ∧
      seekoff (calm [10]) w b (2 ^ 63 - 1) .cur true = .error .signedOverflow := by
  constructor
  · obtain ⟨b, w, hopen, htry⟩ := @exists_of_justOpened (calm [10]) 2
      (fun b w ↦ decide ((seekpos (calm [10]) w b (-5) true).map (fun r ↦ r.2.2.sent.length)
        = .ok (w.sent.length + 1))) (by decide +kernel)
    refine ⟨b, w, hopen, ?_⟩
    rintro (⟨b', w', hquiet, hsent⟩ | hinRange)
    · exact sent_ne_of_length (of_decide_eq_true htry) hquiet hsent
    · exact absurd hinRange.nonneg (by decide)
  · obtain ⟨b₀, w₀, hopen, htry⟩ := @exists_of_justOpened (calm [10]) 2
      (fun b w ↦ decide ((sbumpc (calm [10]) w b).map (fun r ↦ (r.2.1.curPos,
        (seekoff (calm [10]) r.2.2 r.2.1 (2 ^ 63 - 1) .cur true).map fun q ↦ q.1))
          = .ok (1, .error .signedOverflow))) (by decide +kernel)
    obtain ⟨⟨r, b, w⟩, hread, heq⟩ := exists_of_map_eq_ok (of_decide_eq_true htry)
    obtain ⟨hpos, hover⟩ := Prod.mk.inj heq
    exact ⟨b, w, (Reachable.opened hopen).called (.sbumpc hread), hpos, eq_error_of_map hover⟩

end S3Streambuf

end Nanos3Reader
