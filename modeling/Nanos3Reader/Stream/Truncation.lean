import Nanos3Reader.Lib.Runs
import Nanos3Reader.Stream.Loads
import Nanos3Reader.Stream.Refinement

/-!
# The end of the file is not a failure in disguise

`underflow` reports the end of the file with the value it reports a failed load with, and a caller
who wants to tell the two apart looks at the thread's error text. What makes that sound is an
invariant: while the error text is empty, a set end-of-file flag means that the window reaches the
end of the object. A failed load leaves the flag as it is and sets the text; every call that clears
the text goes on to load a window, or finds the old one still in place.
-/

open ByteText Relation

namespace Nanos3Reader

/-- Every GET of a range fails, or is answered as the object is: with the bytes in the range, with
416 when the range starts behind the object, or with all of the object. -/
def AnswersTruly (env : Outside) (O : Bytes) : Prop :=
  ∀ m req a z, req.range = some (a, z) → (env.perform m req).rc = .ok →
    ((env.perform m req).code = 206 →
      a ≤ z ∧ (env.perform m req).chunks.flatten = slice O a (z + 1 - a)) ∧
    ((env.perform m req).code = 416 → O.length ≤ a) ∧
    ((env.perform m req).code = 200 → (env.perform m req).chunks.flatten = O)

namespace S3Streambuf

/-- Such a server answers the last request of a load as it answers all of them. -/
theorem lastTransfer_truly {env : Outside} {O : Bytes} (hserver : AnswersTruly env O)
    (cred : Credentials) (start : ℕ) (w : World) (b : S3Streambuf) (redirected : Bool)
    (attempt : ℕ) (hrc : (lastTransfer env cred start w b redirected attempt).1.rc = .ok) :
    ((lastTransfer env cred start w b redirected attempt).1.code = 206 →
      start ≤ (start + b.readAhead - 1) % 2 ^ 64 ∧
      (lastTransfer env cred start w b redirected attempt).1.chunks.flatten
        = slice O start ((start + b.readAhead - 1) % 2 ^ 64 + 1 - start)) ∧
    ((lastTransfer env cred start w b redirected attempt).1.code = 416 → O.length ≤ start) ∧
    ((lastTransfer env cred start w b redirected attempt).1.code = 200 →
      (lastTransfer env cred start w b redirected attempt).1.chunks.flatten = O) := by
  obtain ⟨m, req, -, hrange, hlast, -⟩ :=
    lastTransfer_performed env cred start w b redirected attempt
  rw [hlast] at hrc ⊢
  exact hserver m req _ _ hrange hrc

section

variable {env : Outside} {O : Bytes} {w w' : World} {b b' : S3Streambuf}

/-- What a load without the cache can get from such a server. -/
def TrueAnswer (O : Bytes) (readAhead target : ℕ) : Answer → Prop
  | .block _ => False
  | .part data => data.length < readAhead → O.length ≤ target + data.length
  | .whole data => data = O
  | .pastEnd => O.length ≤ target
  | .failed | .never => True

theorem fetchAnswer_false (env : Outside) (start : ℕ) (last : Transfer × S3Streambuf × World) :
    fetchAnswer env false start last = last.1.answer := by
  rw [fetchAnswer]
  split
  · next h => rw [if_neg (by simp), h]
  · rfl

/-- A range that the server has bytes for has not wrapped around, so fewer bytes than the window
holds are all there are. -/
theorem trueAnswer_lastTransfer (hserver : AnswersTruly env O) (cred : Credentials) (target : ℕ)
    (hpos : 0 < b.readAhead) (hra : b.readAhead ≤ maxSize) :
    TrueAnswer O b.readAhead target (lastTransfer env cred target w b false 0).1.answer := by
  have htruly := lastTransfer_truly hserver cred target w b false 0
  generalize (lastTransfer env cred target w b false 0).1 = t at htruly ⊢
  rw [Transfer.answer]
  split
  · next hpart =>
    obtain ⟨hle, hdata⟩ := (htruly hpart.1).1 hpart.2
    -- the last offset asked for is not before the first one, so it has not wrapped around
    have hsize : (target + b.readAhead - 1) % 2 ^ 64 + 1 - target = b.readAhead := by
      rw [maxSize] at hra
      omega
    rw [hdata, hsize]
    intro hshort
    rw [length_slice] at hshort ⊢
    omega
  · split
    · next hwhole => exact (htruly hwhole.1).2.2 hwhole.2
    · split
      · next hpast => exact (htruly hpast.1).2.1 hpast.2
      · trivial

theorem trueAnswer (hserver : AnswersTruly env O) (hcache : w.cache.enabled = false)
    (hpos : 0 < b.readAhead) (target : ℕ) :
    TrueAnswer O b.readAhead target (b.answer env w target) := by
  -- a cache that is off has no block for any offset
  have htry : ∀ k, w.tryLoad env k = (none, w) := fun k ↦ if_neg (by simp [hcache])
  rw [answer, loadStart, hcache]
  split
  · trivial
  · dsimp only
    rw [htry]
    dsimp only
    split
    · trivial
    · split
      · trivial
      · next hra =>
        rw [fetchAnswer_false]
        exact trueAnswer_lastTransfer hserver _ target hpos (not_lt.mp hra)

/-- A stream that tells the end of the object from a failure. -/
structure Honest (O : Bytes) (b : S3Streambuf) (w : World) : Prop where
  disabled : w.cache.enabled = false
  readAhead_pos : 0 < b.readAhead
  eof : w.lastError = [] ∨ 0 < b.windowLen → b.reachedEof = true →
    O.length ≤ b.windowStart + b.windowLen

/-- A load makes a stream honest, whatever its window was before. -/
theorem honest_of_loadWindow (hserver : AnswersTruly env O) (hcache : w.cache.enabled = false)
    (hpos : 0 < b.readAhead) {target : ℕ} {ok : Bool}
    (h : loadWindow env w b target = .ok (ok, b', w')) :
    Honest O b' w' ∧ (ok = false → w'.lastError ≠ []) ∧
      (ok = true → b'.windowLen = 0 → O.length ≤ b'.windowStart + b'.windowLen) := by
  obtain ⟨hsame, hends⟩ := ends_of_loadWindow h
  have htruly := trueAnswer hserver hcache hpos target
  have hstart : b.loadStart w target = target := if_neg (by simp [hcache])
  rw [hstart] at hends
  have hoff : w'.cache.enabled = false := hsame.trans hcache
  generalize b.answer env w target = a at hends htruly
  cases hends with
  | block hkept herror => exact htruly.elim
  | @part b₁ w' hkept herror =>
    have hpos₁ : 0 < b₁.readAhead := hkept.readAhead ▸ hpos
    refine ⟨⟨hoff, hpos₁, ?_⟩, by simp, ?_⟩
    -- a part sets the flag exactly when it is shorter than what was asked for
    · rintro - heof
      rw [← hkept.readAhead] at htruly
      exact htruly (by simpa [installWindow] using heof)
    · rintro - (hempty : b₁.window.length = 0)
      rw [← hkept.readAhead] at htruly
      exact htruly (by omega)
  | @whole b₁ w' hkept herror =>
    have hO : b₁.window = O := htruly
    have hle : O.length ≤ 0 + b₁.window.length := by rw [hO, Nat.zero_add]
    exact ⟨⟨hoff, hkept.readAhead ▸ hpos, fun _ _ ↦ hle⟩, by simp, fun _ _ ↦ hle⟩
  | pastEnd hkept herror =>
    exact ⟨⟨hoff, hkept.readAhead ▸ hpos, fun _ _ ↦ htruly⟩, by simp, fun _ _ ↦ htruly⟩
  | failed hkept hmessage herror =>
    refine ⟨⟨hoff, hkept.readAhead ▸ hpos, ?_⟩, fun _ ↦ herror ▸ hmessage, by simp⟩
    -- the flag is the one from before, but the error text is set and the window is gone
    rintro (hclear | hlen)
    · exact absurd hclear (herror ▸ hmessage)
    · exact absurd hlen (lt_irrefl 0)

/-- **One call of `underflow`.** -/
theorem Honest.underflow (hserver : AnswersTruly env O) (hb : Honest O b w) {r : Option UInt8}
    (h : Underflows env w b r b' w') :
    Honest O b' w' ∧
      (r = none → w'.lastError = [] → O.length ≤ b'.windowStart + b'.windowLen) := by
  cases h with
  | inside hlt hget => exact ⟨hb, by simp⟩
  -- no request is made here: the flag alone says that this is the end
  | ended hle heof => exact ⟨hb, fun _ herror ↦ hb.eof (.inl herror) heof⟩
  | fails hle heof hload =>
    obtain ⟨hb', hfailed, -⟩ :=
      honest_of_loadWindow hserver hb.disabled hb.readAhead_pos hload
    exact ⟨hb', fun _ herror ↦ absurd herror (hfailed rfl)⟩
  | finds hle heof hload hempty =>
    obtain ⟨hb', -, hend⟩ := honest_of_loadWindow hserver hb.disabled hb.readAhead_pos hload
    exact ⟨⟨hb'.disabled, hb'.readAhead_pos, fun _ _ ↦ hend rfl hempty⟩, fun _ _ ↦ hend rfl hempty⟩
  | loads hle heof hload hpos hget =>
    obtain ⟨hb', -, -⟩ := honest_of_loadWindow hserver hb.disabled hb.readAhead_pos hload
    exact ⟨hb', by simp⟩

theorem Honest.seek (hserver : AnswersTruly env O) (hb : Honest O b w) {sp r : ℤ}
    {forInput : Bool} (h : Seeks env w b sp forInput r b' w') : Honest O b' w' := by
  cases h with
  | refused hinput => exact hb
  -- the error text is cleared without a request, which the window with its bytes makes up for
  | inside hin => exact ⟨hb.disabled, hb.readAhead_pos, fun _ heof ↦ hb.eof (.inr hin.1) heof⟩
  | loads hout hload =>
    exact (honest_of_loadWindow (w := { w with lastError := [] }) hserver hb.disabled
      hb.readAhead_pos hload).1

theorem Honest.of_openStream {cfg : Config} {uri : Bytes} {readAhead : ℕ}
    (hcache : w.cache.enabled = false)
    (h : openStream env cfg w uri readAhead = (some b, w')) : Honest O b w' := by
  obtain ⟨-, hsame, -, -, hreadAhead, -, -, -, -, heof⟩ := openStream_eq_some h
  refine ⟨hsame ▸ hcache, ?_, fun _ hc ↦ absurd hc (by simp [heof])⟩
  rw [hreadAhead]
  split <;> omega

/-- **No silent truncation.** Over a server each of whose answers is a failure or the truth about
`O`, a stream used alone and without the cache that meets the end of the file while the error text
is empty has a window that reaches the end of `O`. -/
theorem length_le_of_underflow (hserver : AnswersTruly env O) {cfg : Config} {uri : Bytes}
    {readAhead : ℕ} (hcache : w.cache.enabled = false) {w₀ w₁ : World} {b₀ b₁ : S3Streambuf}
    (hopen : openStream env cfg w uri readAhead = (some b₀, w₀))
    (hrun : ReflTransGen (Called env) (b₀, w₀) (b₁, w₁))
    (h : underflow env w₁ b₁ = .ok (none, b', w')) (herror : w'.lastError = []) :
    O.length ≤ b'.windowStart + b'.windowLen := by
  -- honesty is the invariant of the calls before the one that meets the end
  have hhonest : Honest O b₁ w₁ := by
    refine Runs.invariant (I := fun s ↦ Honest O s.1 s.2) (fun s s' hs hstep ↦ ?_)
      (.of_openStream hcache hopen) hrun
    exact hstep.preserves (fun _ _ _ _ _ hb h ↦ (hb.underflow hserver h).1)
      (fun _ _ _ hb _ _ ↦ ⟨hb.disabled, hb.readAhead_pos, hb.eof⟩)
      (fun _ _ _ _ _ _ _ hb h ↦ hb.seek hserver h) hs
  exact (hhonest.underflow hserver (underflows h)).2 rfl herror

end

/-- A server that ignores a range that ends before it starts, as HTTP says. -/
def carefulServer (O : Bytes) (req : HttpRequest) : Transfer :=
  if ∃ r ∈ req.range, r.2 < r.1 then { code := 200, chunks := [O] } else rangeServer O req

/-- Surroundings in which nothing goes wrong, with that server. -/
def careful (O : Bytes) : Outside := { calm O with perform := fun _ ↦ carefulServer O }

theorem answersTruly_careful (O : Bytes) : AnswersTruly (careful O) O := by
  intro m req a z hreq _
  simp only [careful, carefulServer, rangeServer, hreq]
  split
  · next hinverted => simp
  · next hinverted =>
    have hle : a ≤ z := by simpa using hinverted
    split
    · simp [hle]
    · next hlt => simpa using hlt

/-- A byte read from an object of one, and then its end. -/
theorem length_le_oneByte : ∃ b₀ w₀ b₁ w₁ b' w',
    openStream (careful [10]) usEast { provider := .create (utf8 "default") } (utf8 "s3://b/k") 2
      = (some b₀, w₀) ∧
    sbumpc (careful [10]) w₀ b₀ = .ok (some 10, b₁, w₁) ∧
    underflow (careful [10]) w₁ b₁ = .ok (none, b', w') ∧ w'.lastError = [] ∧
    [(10 : UInt8)].length ≤ b'.windowStart + b'.windowLen := by
  obtain ⟨b₀, w₀, hopen, hreads⟩ : ∃ b₀ w₀, openStream (careful [10]) usEast
      { provider := .create (utf8 "default") } (utf8 "s3://b/k") 2 = (some b₀, w₀) ∧
      (sbumpc (careful [10]) w₀ b₀).map (fun r ↦ (r.1,
        (underflow (careful [10]) r.2.2 r.2.1).map fun r ↦ (r.1, r.2.2.lastError)))
        = .ok (some 10, .ok (none, [])) :=
    ⟨_, _, rfl, by decide +kernel⟩
  obtain ⟨⟨r, b₁, w₁⟩, hread, hbyte⟩ := exists_of_map_eq_ok hreads
  simp only [Prod.mk.injEq] at hbyte
  obtain ⟨rfl, hends⟩ := hbyte
  obtain ⟨⟨r, b', w'⟩, hend, heof⟩ := exists_of_map_eq_ok hends
  simp only [Prod.mk.injEq] at heof
  obtain ⟨rfl, herror⟩ := heof
  exact ⟨b₀, w₀, b₁, w₁, b', w', hopen, hread, hend, herror,
    length_le_of_underflow (answersTruly_careful _) rfl hopen (.single (.sbumpc hread)) hend herror⟩

end S3Streambuf

end Nanos3Reader
