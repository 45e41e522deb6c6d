import Nanos3Reader.Stream.Loads
import Nanos3Reader.Stream.Transparency

/-!
# Where underflow reads

`underflow` returns the byte at the get pointer without another look at the end of the get area.
That is right as long as the window it loaded for the next offset reaches beyond it. A window with
bytes in it need not: it starts at a chunk boundary when the cache is on, and at offset 0 when the
server sends the whole object, and in both cases it may end at or before the offset asked for. The
get pointer then stands at the end of the window, and the byte returned lies behind it.
-/

open ByteText

namespace Nanos3Reader

namespace S3Streambuf

/-- The get area is the window, or null when there is none. -/
structure Area (b : S3Streambuf) : Prop where
  egptr_eq : b.egptr = b.windowLen
  gptr_le : b.gptr ≤ b.windowLen
  window : 0 < b.windowLen → b.window.length = b.windowLen

/-- The states a stream can get into. Between two calls anything may happen to what it shares with
others: the cache, the credentials, the error text. -/
inductive Reachable (env : Outside) : S3Streambuf → Prop
  | opened {cfg : Config} {w w' : World} {uri : Bytes} {readAhead : ℕ} {b : S3Streambuf}
      (h : openStream env cfg w uri readAhead = (some b, w')) : Reachable env b
  | called {w w' : World} {b b' : S3Streambuf} (hb : Reachable env b)
      (h : Called env (b, w) (b', w')) : Reachable env b'

section

variable {env : Outside} {w w' : World} {b b' : S3Streambuf}

theorem Area.installWindow (b : S3Streambuf) (origin logicalPos : ℕ) (isPartial : Bool) :
    Area (b.installWindow origin logicalPos isPartial) := by
  refine ⟨rfl, ?_, fun _ ↦ rfl⟩
  rw [gptr_installWindow]
  exact min_le_right _ _

theorem Area.of_ends {start target : ℕ} {a : Answer} {ok : Bool}
    (h : Ends b start target a ok b' w') : Area b' := by
  cases h with
  | block hkept herror => exact .installWindow _ _ _ _
  | part hkept herror => exact .installWindow _ _ _ _
  | whole hkept herror => exact .installWindow _ _ _ _
  | pastEnd hkept herror => exact ⟨rfl, le_rfl, fun hc ↦ absurd hc (lt_irrefl 0)⟩
  | failed hkept hmessage herror => exact ⟨rfl, le_rfl, fun hc ↦ absurd hc (lt_irrefl 0)⟩

theorem Area.lt_of_getElem? (h : Area b) {c : UInt8} (hpos : 0 < b.windowLen)
    (hget : b.window[b.gptr]? = some c) : b.gptr < b.egptr := by
  have hlt := (List.getElem?_eq_some_iff.mp hget).1
  have hlen := h.window hpos
  have heq := h.egptr_eq
  omega

theorem Area.underflow (hb : Area b) {r : Option UInt8} (h : Underflows env w b r b' w') :
    Area b' ∧ ∀ c, r = some c → b'.gptr < b'.egptr ∧ b'.window[b'.gptr]? = some c := by
  cases h with
  | inside hlt hget => exact ⟨hb, fun c hc ↦ ⟨hlt, hget.trans hc⟩⟩
  | ended hle heof => exact ⟨hb, by simp⟩
  | fails hle heof hload => exact ⟨.of_ends (ends_of_loadWindow hload).2, by simp⟩
  | finds hle heof hload hempty =>
    have hb' := Area.of_ends (ends_of_loadWindow hload).2
    exact ⟨⟨hb'.egptr_eq, hb'.gptr_le, hb'.window⟩, by simp⟩
  | loads hle heof hload hpos hget =>
    have hb' := Area.of_ends (ends_of_loadWindow hload).2
    exact ⟨hb', fun c hc ↦ ⟨hb'.lt_of_getElem? hpos hget, hget.trans hc⟩⟩

theorem Area.seek (hb : Area b) {sp r : ℤ} {forInput : Bool}
    (h : Seeks env w b sp forInput r b' w') : Area b' := by
  cases h with
  | refused hinput => exact hb
  -- `holds` lets the get pointer go up to the end of the window, and no further
  | inside hin =>
    obtain ⟨hpos, hst, hend⟩ := hin
    have hle : b.next ≤ b.windowStart + b.windowLen := Nat.mod_le _ _
    refine ⟨rfl, ?_, hb.window⟩
    dsimp only
    omega
  | loads hout hload => exact .of_ends (ends_of_loadWindow hload).2

/-- **The get area is always in order.** -/
theorem Area.of_reachable (h : Reachable env b) : Area b := by
  induction h with
  | opened h =>
    obtain ⟨-, -, -, -, -, -, hlen, hgptr, hegptr, -⟩ := openStream_eq_some h
    exact ⟨by omega, by omega, fun hc ↦ absurd hc (by omega)⟩
  | @called w w' b b' hb h ih =>
    refine h.preserves (I := fun b _ ↦ Area b) ?_ ?_ ?_ ih
    · exact fun _ _ _ _ _ hb h ↦ (hb.underflow h).1
    -- `sbumpc` moves the get pointer over a byte that is there
    · intro b w c hb hpos hget
      have hlt : b.gptr < b.egptr := by
        rcases hpos with hlt | hpos
        · exact hlt
        · exact hb.lt_of_getElem? hpos hget
      have heq := hb.egptr_eq
      exact ⟨heq, by dsimp only; omega, hb.window⟩
    · exact fun _ _ _ _ _ _ _ hb h ↦ hb.seek h

/-! ## The byte that underflow returns -/

/-- `underflow` reads no byte outside the window, and the byte it returns is the one before which
the get pointer stands. -/
def ReadsInside (env : Outside) (w : World) (b : S3Streambuf) : Prop :=
  underflow env w b ≠ .error .outOfWindow ∧
    ∀ c b' w', underflow env w b = .ok (some c, b', w') →
      b'.gptr < b'.egptr ∧ b'.egptr = b'.windowLen ∧ b'.window[b'.gptr]? = some c

/-- Should the next byte need another window, then the bytes that the load gets are none, or reach
beyond the offset of that byte. -/
def FindsByte (env : Outside) (w : World) (b : S3Streambuf) : Prop :=
  b.egptr ≤ b.gptr → b.reachedEof = false →
    ∀ r ∈ (b.answer env w b.next).bytes (b.loadStart w b.next),
      r.2 = [] ∨ b.next < r.1 + r.2.length

instance (env : Outside) (w : World) (b : S3Streambuf) : Decidable (FindsByte env w b) :=
  inferInstanceAs (Decidable (_ → _ → _))

theorem outOfWindow_iff_of_install {b₁ : S3Streambuf} {origin : ℕ} {isPartial : Bool}
    (hle : b.egptr ≤ b.gptr) (heof : b.reachedEof = false)
    (hload : loadWindow env w b b.next = .ok (true, b₁.installWindow origin b.next isPartial, w')) :
    underflow env w b = .error .outOfWindow ↔
      b₁.window ≠ [] ∧ (if isPartial then origin else 0) + b₁.window.length ≤ b.next := by
  have hlen : (b₁.installWindow origin b.next isPartial).windowLen = b₁.window.length := rfl
  have hbytes : (b₁.installWindow origin b.next isPartial).window = b₁.window := rfl
  rw [underflow, if_neg (not_lt.mpr hle), if_neg (by simp [heof]), ← next, hload]
  dsimp only
  rw [hlen]
  split
  · next hempty => simp [List.eq_nil_of_length_eq_zero hempty]
  -- `install_window` has put the get pointer at the target, or at the end of the window before it
  · next hpos =>
    rw [current, hbytes, gptr_installWindow]
    generalize (if isPartial then origin else 0) = o
    have hne : b₁.window ≠ [] := fun hc ↦ hpos (by simp [hc])
    split
    · next hnone =>
      rw [List.getElem?_eq_none_iff] at hnone
      exact iff_of_true rfl ⟨hne, by omega⟩
    · next c hsome =>
      have hlt := (List.getElem?_eq_some_iff.mp hsome).1
      refine iff_of_false (by simp) fun h ↦ ?_
      omega

theorem outOfWindow_iff : underflow env w b = .error .outOfWindow ↔
    (b.gptr < b.egptr ∧ b.window.length ≤ b.gptr) ∨ ¬FindsByte env w b := by
  -- the three ways of `underflow`: a byte at hand, the end of the file met before, a load
  by_cases hlt : b.gptr < b.egptr
  · have hfinds : FindsByte env w b := fun hle ↦ absurd hle (not_le.mpr hlt)
    rw [underflow, if_pos hlt, current]
    split
    · next hnone => exact iff_of_true rfl (.inl ⟨hlt, by simpa using hnone⟩)
    · next c hsome =>
      have hget := (List.getElem?_eq_some_iff.mp hsome).1
      simp [hfinds, hget]
  · have hle : b.egptr ≤ b.gptr := not_lt.mp hlt
    by_cases heof : b.reachedEof = true
    · have hfinds : FindsByte env w b := fun _ hc ↦ absurd heof (by simp [hc])
      rw [underflow, if_neg hlt, if_pos heof]
      simp [hfinds, hlt]
    · have heof : b.reachedEof = false := by simpa using heof
      have hfinds : FindsByte env w b ↔
          ∀ r ∈ (b.answer env w b.next).bytes (b.loadStart w b.next),
            r.2 = [] ∨ b.next < r.1 + r.2.length :=
        ⟨fun h ↦ h hle heof, fun h _ _ ↦ h⟩
      simp only [hlt, false_and, false_or, hfinds]
      rcases loadWindow_ends env w b b.next with
        ⟨hnever, f, hf, hload⟩ | ⟨ok, b', w', hload, -, hends⟩
      · rw [hnever, underflow, if_neg hlt, if_neg (by simp [heof]), ← next, hload]
        simp [Answer.bytes, hf]
      -- only the answers that bring bytes leave a window to read from
      · generalize b.answer env w b.next = a at hends ⊢
        cases hends with
        | block hkept herror =>
          rw [outOfWindow_iff_of_install hle heof hload]
          simp [Answer.bytes]
        | part hkept herror =>
          rw [outOfWindow_iff_of_install hle heof hload]
          simp [Answer.bytes]
        | whole hkept herror =>
          rw [outOfWindow_iff_of_install hle heof hload]
          simp [Answer.bytes]
        | pastEnd hkept herror =>
          rw [underflow, if_neg hlt, if_neg (by simp [heof]), ← next, hload]
          simp [Answer.bytes]
        | failed hkept hmessage herror =>
          rw [underflow, if_neg hlt, if_neg (by simp [heof]), ← next, hload]
          simp [Answer.bytes]

/-- **Where underflow reads.** A stream reads behind its window exactly when the window that was
loaded for the next byte has bytes but ends before it. -/
theorem readsInside_iff (hb : Reachable env b) (w : World) :
    ReadsInside env w b ↔ FindsByte env w b := by
  have harea := Area.of_reachable hb
  have hinside : ¬(b.gptr < b.egptr ∧ b.window.length ≤ b.gptr) := by
    rintro ⟨hlt, hle⟩
    have heq := harea.egptr_eq
    have hlen := harea.window (by omega)
    omega
  have hread : ∀ c b' w', underflow env w b = .ok (some c, b', w') →
      b'.gptr < b'.egptr ∧ b'.egptr = b'.windowLen ∧ b'.window[b'.gptr]? = some c := by
    intro c b' w' h
    obtain ⟨harea', hat⟩ := harea.underflow (underflows h)
    exact ⟨(hat c rfl).1, harea'.egptr_eq, (hat c rfl).2⟩
  rw [ReadsInside, Ne, outOfWindow_iff, not_or, not_not]
  exact ⟨fun h ↦ h.1.2, fun h ↦ ⟨⟨hinside, h⟩, hread⟩⟩

/-! ## Sessions -/

theorem Reachable.sgetn (k : ℕ) {w : World} {b : S3Streambuf} {data : Bytes} {eof : Bool}
    (hb : Reachable env b) (h : S3Streambuf.sgetn env w b k = .ok ((data, eof), b', w')) :
    Reachable env b' := by
  induction k generalizing w b data eof with
  | zero =>
    cases h
    exact hb
  | succ k ih =>
    rw [S3Streambuf.sgetn] at h
    split at h
    · cases h
    · next hread =>
      cases h
      exact hb.called (.sbumpc hread)
    · next hread =>
      obtain ⟨⟨⟨data', eof'⟩, b₁, w₁⟩, hrest, heq⟩ := exists_of_map_eq_ok h
      cases heq
      exact ih (hb.called (.sbumpc hread)) hrest

theorem Reachable.apply {op : StreamOp} {r : StreamResult} (hb : Reachable env b)
    (h : S3Streambuf.apply env w b op = .ok (r, b', w')) : Reachable env b' := by
  cases op with
  | seekBeg p =>
    obtain ⟨⟨q, b₁, w₁⟩, hseek, heq⟩ := exists_of_map_eq_ok h
    cases heq
    exact hb.called (.seekoff hseek)
  | seekCur d =>
    obtain ⟨⟨q, b₁, w₁⟩, hseek, heq⟩ := exists_of_map_eq_ok h
    cases heq
    exact hb.called (.seekoff hseek)
  | tell =>
    obtain ⟨⟨q, b₁, w₁⟩, hseek, heq⟩ := exists_of_map_eq_ok h
    cases heq
    exact hb.called (.seekoff hseek)
  | read k =>
    obtain ⟨⟨⟨data, eof⟩, b₁, w₁⟩, hread, heq⟩ := exists_of_map_eq_ok h
    cases heq
    exact hb.sgetn k hread

theorem reachable_of_run {cfg : Config} {uri : Bytes} {steps : List SessionStep} {s s' : Session}
    {rs : List (Option StreamResult)} (hs : ∀ b ∈ s.streams, Reachable env b)
    (h : s.run env cfg uri steps = .ok (rs, s')) : ∀ b ∈ s'.streams, Reachable env b := by
  induction steps generalizing s rs with
  | nil =>
    cases h
    exact hs
  | cons step steps ih =>
    rw [Session.run] at h
    split at h
    · cases h
    · next r s₁ hstep =>
      obtain ⟨⟨rs', s₂⟩, hrest, heq⟩ := exists_of_map_eq_ok h
      cases heq
      refine ih ?_ hrest
      cases step with
      -- a stream is added, the others stay
      | openStream readAhead =>
        cases hopen : openStream env cfg s.world uri readAhead with
        | mk found w₁ =>
          rw [Session.apply, hopen] at hstep
          cases hstep
          intro b hb
          rcases List.mem_append.mp hb with hold | hnew
          · exact hs b hold
          · rw [Option.mem_toList] at hnew
            obtain rfl : found = some b := hnew
            exact .opened hopen
      | call i op =>
        rw [Session.apply] at hstep
        split at hstep
        · cases hstep
          exact hs
        -- one stream makes a call, the others stay
        · next b hb =>
          obtain ⟨⟨r', b', w₁⟩, hcall, heq⟩ := exists_of_map_eq_ok hstep
          cases heq
          intro b'' hb''
          rcases List.mem_or_eq_of_mem_set hb'' with hold | rfl
          · exact hs b'' hold
          · exact (hs b (List.mem_of_getElem? hb)).apply hcall

end

/-- Two bytes have been read, and the next one is in a second window. -/
theorem readsInside_secondWindow : ∃ b w, Reachable (calm [10, 11, 12]) b ∧
    (underflow (calm [10, 11, 12]) w b).map (fun r ↦ (r.1, r.2.1.windowStart)) = .ok (some 12, 2) ∧
    ReadsInside (calm [10, 11, 12]) w b := by
  obtain ⟨b₀, w₀, hopen, htry⟩ := @exists_of_justOpened (calm [10, 11, 12]) 2
    (fun b w ↦ decide ((sbumpc (calm [10, 11, 12]) w b).map (fun r ↦
      (sbumpc (calm [10, 11, 12]) r.2.2 r.2.1).map fun r ↦
        ((underflow (calm [10, 11, 12]) r.2.2 r.2.1).map fun q ↦ (q.1, q.2.1.windowStart),
          decide (FindsByte (calm [10, 11, 12]) r.2.2 r.2.1)))
      = .ok (.ok (.ok (some 12, 2), true)))) (by decide +kernel)
  obtain ⟨⟨r₁, b₁, w₁⟩, hfirst, hrest⟩ := exists_of_map_eq_ok (of_decide_eq_true htry)
  obtain ⟨⟨r, b, w⟩, hsecond, heq⟩ := exists_of_map_eq_ok hrest
  simp only [Prod.mk.injEq, decide_eq_true_eq] at heq
  obtain ⟨hnext, hfinds⟩ := heq
  have hreached := ((Reachable.opened hopen).called (.sbumpc hfirst)).called (.sbumpc hsecond)
  exact ⟨b, w, hreached, hnext, (readsInside_iff hreached w).mpr hfinds⟩

/-- Two window sizes, the larger first: the block it leaves takes the second stream to offset 6, and
the window loaded there is that from 4 to 6. -/
theorem not_readsInside_twoReadAheads : ¬ ∀ (env : Outside) (O : Bytes) (cfg : Config)
    (uri profile dir : Bytes) (maxBlocks : ℤ) (steps : List SessionStep), ServesRanges env O →
    Session.run env cfg uri
      { world := { provider := .create profile, cache := .fresh dir maxBlocks } } steps
      ≠ .error .outOfWindow := by
  intro hall
  have hrun : (Session.run (calm [1, 2, 3, 4, 5, 6]) usEast (utf8 "s3://b/k")
      { world := { provider := .create (utf8 "default"),
                   cache := .fresh (utf8 "/var/tmp/n3r-cache") 8 } }
      [.openStream 8, .call 0 (.read 1), .openStream 4, .call 1 (.read 7)]).map (fun r ↦ r.1)
      = .error .outOfWindow := by decide +kernel
  exact hall (calm [1, 2, 3, 4, 5, 6]) _ usEast (utf8 "s3://b/k") (utf8 "default")
    (utf8 "/var/tmp/n3r-cache") 8 _ (servesRanges_calm _) (eq_error_of_map hrun)

end S3Streambuf

end Nanos3Reader
