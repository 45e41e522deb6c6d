import Nanos3Reader.Stream.Bounds
import Nanos3Reader.Stream.Truncation

/-!
# Where a stream says it is

`S3Streambuf` stores no position: it is the start of the window plus the offset of the get pointer.
That makes the position depend on the window a load leaves. A failed load drops the window and keeps
its start, so the stream falls back to where that window began. A load for an offset behind the end
of what it gets puts the get pointer at the end of that, or at the start of the chunk asked for, so
the stream says it is there and not at the offset.
-/

open ByteText

namespace Nanos3Reader

/-- What a load from `start` gets reaches as far as `p`; nothing does only if `start` is `p`. -/
def Answer.Reaches (start p : ℕ) : Answer → Prop
  | .block data | .part data => p ≤ start + data.length
  | .whole data => p ≤ data.length
  | .pastEnd | .failed | .never => start = p

instance (start p : ℕ) : (a : Answer) → Decidable (a.Reaches start p)
  | .block _ | .part _ | .whole _ => inferInstanceAs (Decidable (_ ≤ _))
  | .pastEnd | .failed | .never => inferInstanceAs (Decidable (_ = _))

namespace S3Streambuf

/-! ## Failed loads -/

/-- A call in which `load_window` fails, and the stream after it. -/
inductive FailedCall (env : Outside) (w : World) (b b' : S3Streambuf) : Prop
  | underflow {w' : World} (hle : b.egptr ≤ b.gptr) (heof : b.reachedEof = false)
      (hfails : b.answer env w b.next = .failed)
      (hcall : underflow env w b = .ok (none, b', w'))
  | seekpos {w' : World} {sp r : ℤ} (hout : ¬b.Holds (toUint64 sp))
      (hfails : b.answer env { w with lastError := [] } (toUint64 sp) = .failed)
      (hcall : seekpos env w b sp true = .ok (r, b', w'))

/-- `b` reports the end of the file without a request. -/
def AtEof (b : S3Streambuf) : Prop := b.reachedEof = true ∧ b.egptr ≤ b.gptr

/-- A read of `b'` goes on where one of `b` would: it starts at the same position, and finds the end
of the file only where `b` has found it. -/
structure KeepsPosition (b b' : S3Streambuf) : Prop where
  curPos_eq : b'.curPos = b.curPos
  atEof : b'.AtEof → b.AtEof

/-- No byte of the window has been read, and none is left if the end of the file has been met. A get
pointer cannot be `2 ^ 64` bytes from the start of its window, and if it were the position would be
that of the start. -/
def AtWindowStart (b : S3Streambuf) : Prop :=
  b.gptr % 2 ^ 64 = 0 ∧ (b.reachedEof = true → b.gptr = b.windowLen)

instance (b : S3Streambuf) : Decidable b.AtWindowStart :=
  inferInstanceAs (Decidable (_ ∧ (_ → _)))

section

variable {env : Outside} {w w' : World} {b b' : S3Streambuf}

theorem FailedCall.left (h : FailedCall env w b b') :
    b'.windowStart = b.windowStart ∧ b'.reachedEof = b.reachedEof ∧ b'.gptr = 0 ∧ b'.egptr = 0 := by
  have hload : ∀ {w₀ w₁ : World} {b₁ : S3Streambuf} {target : ℕ} {ok : Bool},
      b.answer env w₀ target = .failed → loadWindow env w₀ b target = .ok (ok, b₁, w₁) →
      ok = false ∧ b₁.windowStart = b.windowStart ∧ b₁.reachedEof = b.reachedEof ∧ b₁.gptr = 0 ∧
        b₁.egptr = 0 := by
    intro w₀ w₁ b₁ target ok hfails hload
    obtain ⟨-, hends⟩ := ends_of_loadWindow hload
    rw [hfails] at hends
    cases hends with
    | failed hkept hmessage herror => exact ⟨rfl, hkept.windowStart, hkept.reachedEof, rfl, rfl⟩
  -- the answer excludes every other way the call could go
  cases h with
  | underflow hle heof hfails hcall =>
    cases underflows hcall with
    | ended hle heof' => exact absurd heof' (by simp [heof])
    | fails hle heof hload' => exact (hload hfails hload').2
    | finds hle heof hload' hempty => exact absurd (hload hfails hload').1 (by simp)
  | seekpos hout hfails hcall =>
    cases seeks hcall with
    | refused hinput => cases hinput
    | inside hin => exact absurd hin hout
    | loads hout hload' => exact (hload hfails hload').2

/-- **A failed fetch** keeps the position exactly when the stream stood at the start of its window,
with nothing left in it if the end of the file had been met. -/
theorem keepsPosition_iff (hb : Reachable env b) (h : FailedCall env w b b') :
    KeepsPosition b b' ↔ AtWindowStart b := by
  obtain ⟨hstart, heof, hgptr, hegptr⟩ := h.left
  have harea := Area.of_reachable hb
  -- the start of the window stays and the get pointer goes back to it
  have hpos : b'.curPos = b.curPos ↔ b.gptr % 2 ^ 64 = 0 := by
    rw [curPos, curPos, hstart, hgptr]
    omega
  -- a get area without bytes is at the end of the file as soon as the flag is set
  have hend : (b'.AtEof → b.AtEof) ↔ (b.reachedEof = true → b.gptr = b.windowLen) := by
    have heq := harea.egptr_eq
    have hle := harea.gptr_le
    rw [AtEof, AtEof, heof, hgptr, hegptr]
    constructor
    · intro h hmet
      have := (h ⟨hmet, le_rfl⟩).2
      omega
    · rintro h ⟨hmet, -⟩
      have := h hmet
      exact ⟨hmet, by omega⟩
  exact ⟨fun h ↦ ⟨hpos.mp h.curPos_eq, hend.mp h.atEof⟩, fun h ↦ ⟨hpos.mpr h.1, hend.mpr h.2⟩⟩

/-! ## Seeks -/

/-- A seek that says it went to `p`, and the stream after it. -/
inductive SeeksTo (env : Outside) (w : World) (b : S3Streambuf) (p : ℕ) (b' : S3Streambuf) : Prop
  | seekpos {w' : World} (hcall : seekpos env w b p true = .ok ((p : ℤ), b', w'))
  | seekoff {w' : World} {off : ℤ} {dir : SeekDir}
      (hcall : seekoff env w b off dir true = .ok ((p : ℤ), b', w'))

/-- The target of a seek is in the window, or not past what the load for it gets. -/
def SeekLands (env : Outside) (w : World) (b : S3Streambuf) (p : ℕ) : Prop :=
  b.Holds p ∨ (b.answer env { w with lastError := [] } p).Reaches (b.loadStart w p) p

instance (env : Outside) (w : World) (b : S3Streambuf) (p : ℕ) :
    Decidable (SeekLands env w b p) :=
  inferInstanceAs (Decidable (_ ∨ _))

theorem curPos_installWindow (b : S3Streambuf) {origin p : ℕ} (isPartial : Bool)
    (horigin : (if isPartial then origin else 0) ≤ p) (hp : p < 2 ^ 63) :
    (b.installWindow origin p isPartial).curPos = p ↔
      p ≤ (if isPartial then origin else 0) + b.window.length := by
  have hstart : (b.installWindow origin p isPartial).windowStart
      = if isPartial then origin else 0 := rfl
  rw [curPos, hstart, gptr_installWindow]
  generalize (if isPartial then origin else 0) = o at horigin ⊢
  rw [Nat.mod_eq_of_lt (by omega)]
  omega

theorem curPos_seekpos_iff {p : ℕ} (hp : p < 2 ^ 63)
    (hcall : seekpos env w b p true = .ok ((p : ℤ), b', w')) :
    b'.curPos = p ↔ SeekLands env w b p := by
  obtain ⟨r, hr, hseeks⟩ : ∃ r, r = (p : ℤ) ∧ Seeks env w b p true r b' w' :=
    ⟨_, rfl, seeks hcall⟩
  have htarget : toUint64 p = p := toUint64_natCast hp
  rw [SeekLands]
  cases hseeks with
  | refused hinput => cases hinput
  | inside hin =>
    rw [htarget] at hin ⊢
    -- the get pointer is moved inside the window
    refine iff_of_true ?_ (.inl hin)
    have hst := hin.2.1
    rw [curPos]
    dsimp only
    omega
  | @loads ok _ _ hout hload =>
    rw [htarget] at hout hload
    obtain ⟨-, hends⟩ := ends_of_loadWindow hload
    have hstart : b.loadStart w p ≤ p := by
      rw [loadStart]
      split
      · exact Nat.div_mul_le_self _ _
      · exact le_rfl
    have hsame : b.loadStart { w with lastError := [] } p = b.loadStart w p := rfl
    rw [hsame] at hends
    simp only [hout, false_or]
    generalize b.answer env { w with lastError := [] } p = a at hends ⊢
    generalize b.loadStart w p = start at hends hstart ⊢
    cases hends with
    | block hkept herror => exact curPos_installWindow _ true hstart hp
    | part hkept herror => exact curPos_installWindow _ true hstart hp
    | @whole b₁ _ hkept herror =>
      have hiff := @curPos_installWindow b₁ start p false (Nat.zero_le p) hp
      simpa [Answer.Reaches] using hiff
    -- a 416 leaves the position at the start of the load, not at the target
    | pastEnd hkept herror =>
      rw [curPos, Answer.Reaches]
      dsimp only
      omega
    | failed hkept hmessage herror =>
      rw [if_neg (by simp)] at hr
      omega

theorem eq_of_seekpos {t r : ℤ} (h : seekpos env w b t true = .ok (r, b', w')) (hr : 0 ≤ r) :
    r = t := by
  cases seeks h with
  | refused hinput => cases hinput
  | inside hin => rfl
  | @loads ok _ _ hout hload =>
    cases ok with
    | true => rfl
    | false => exact absurd hr (by simp)

/-- **Seek, then tell.** After a seek to `p` the stream is at `p` exactly when `p` is in the window
it had, or not past what the load for `p` got. -/
theorem curPos_seek_iff {p : ℕ} (hp : p < 2 ^ 63) (h : SeeksTo env w b p b') :
    b'.curPos = p ↔ SeekLands env w b p := by
  cases h with
  | seekpos hcall => exact curPos_seekpos_iff hp hcall
  | seekoff hcall =>
    obtain ⟨hr, -, -⟩ | ⟨t, -, -, hseek⟩ := seekoff_cases hcall
    · omega
    · obtain rfl := eq_of_seekpos hseek (Int.natCast_nonneg p)
      exact curPos_seekpos_iff hp hseek

end

/-! ## Examples -/

/-- A server that has only the start of the object to offer, and answers anything else with 403. -/
def guarded (O : Bytes) : Outside :=
  { calm O with
    perform := fun _ req ↦
      if ∃ r ∈ req.range, r.1 = 0 then rangeServer O req else { code := 403 } }

/-- A server that has the first four bytes to offer, and answers anything else with 403. -/
def fourBytes (O : Bytes) : Outside :=
  { calm O with
    perform := fun _ req ↦
      if ∃ r ∈ req.range, r.1 < 4 then rangeServer O req else { code := 403 } }

/-- The stream stands at the start of its second window, and a third one cannot be had. -/
theorem keepsPosition_secondWindow : ∃ b w b' w', Reachable (fourBytes [10, 11, 12, 13, 14]) b ∧
    b.curPos = 2 ∧ b.windowStart = 2 ∧
    seekpos (fourBytes [10, 11, 12, 13, 14]) w b 5 true = .ok (-1, b', w') ∧
    KeepsPosition b b' := by
  obtain ⟨b₀, w₀, hopen, htry⟩ := @exists_of_justOpened (fourBytes [10, 11, 12, 13, 14]) 2
    (fun b w ↦ decide ((seekpos (fourBytes [10, 11, 12, 13, 14]) w b 2 true).map (fun r ↦
      (decide (r.2.1.curPos = 2 ∧ r.2.1.windowStart = 2 ∧ r.2.1.AtWindowStart ∧
          ¬r.2.1.Holds (toUint64 5)),
        r.2.1.answer (fourBytes [10, 11, 12, 13, 14]) { r.2.2 with lastError := [] } (toUint64 5),
        (seekpos (fourBytes [10, 11, 12, 13, 14]) r.2.2 r.2.1 5 true).map fun q ↦ q.1))
      = .ok (true, .failed, .ok (-1)))) (by decide +kernel)
  obtain ⟨⟨r, b, w⟩, hsecond, heq⟩ := exists_of_map_eq_ok (of_decide_eq_true htry)
  simp only [Prod.mk.injEq, decide_eq_true_eq] at heq
  obtain ⟨⟨hpos, hwindow, hstart, hout⟩, hfails, hseek⟩ := heq
  obtain ⟨⟨q, b', w'⟩, hcall, rfl⟩ := exists_of_map_eq_ok hseek
  have hreached := (Reachable.opened hopen).called (.seekpos hsecond)
  exact ⟨b, w, b', w', hreached, hpos, hwindow, hcall,
    (keepsPosition_iff hreached (.seekpos hout hfails hcall)).mpr hstart⟩

/-- One byte of two is read, and then a seek fails: the stream is back before that byte. -/
theorem not_keepsPosition_afterByte : ¬ ∀ (env : Outside) (w : World) (b b' : S3Streambuf),
    Reachable env b → FailedCall env w b b' → KeepsPosition b b' := by
  intro hall
  obtain ⟨b₀, w₀, hopen, htry⟩ := @exists_of_justOpened (guarded [10, 11]) 2
    (fun b w ↦ decide ((sbumpc (guarded [10, 11]) w b).map (fun r ↦
      (r.2.1.curPos, decide (r.2.1.Holds (toUint64 5)),
        r.2.1.answer (guarded [10, 11]) { r.2.2 with lastError := [] } (toUint64 5),
        (seekpos (guarded [10, 11]) r.2.2 r.2.1 5 true).map fun q ↦ (q.1, q.2.1.curPos)))
      = .ok (1, false, .failed, .ok (-1, 0)))) (by decide +kernel)
  obtain ⟨⟨r, b, w⟩, hread, heq⟩ := exists_of_map_eq_ok (of_decide_eq_true htry)
  simp only [Prod.mk.injEq, decide_eq_false_iff_not] at heq
  obtain ⟨hbefore, hout, hfails, hseek⟩ := heq
  obtain ⟨⟨q, b', w'⟩, hcall, heq⟩ := exists_of_map_eq_ok hseek
  simp only [Prod.mk.injEq] at heq
  have hkeeps := hall _ w b b' ((Reachable.opened hopen).called (.sbumpc hread))
    (.seekpos hout hfails hcall)
  have hsame := hkeeps.curPos_eq
  omega

/-- A server that ignores ranges. -/
def unranged (O : Bytes) : Outside :=
  { calm O with perform := fun _ _ ↦ { code := 200, chunks := [O] } }

theorem answersTruly_unranged (O : Bytes) : AnswersTruly (unranged O) O := by
  intro m req a z _ _
  simp [unranged]

/-- Two bytes into an object of three. -/
theorem curPos_seek_inside : ∃ b w b', justOpened (calm [10, 11, 12]) 2 = (some b, w) ∧
    SeeksTo (calm [10, 11, 12]) w b 2 b' ∧ b'.curPos = 2 := by
  obtain ⟨b, w, hopen, htry⟩ := @exists_of_justOpened (calm [10, 11, 12]) 2
    (fun b w ↦ decide (SeekLands (calm [10, 11, 12]) w b 2 ∧
      (seekpos (calm [10, 11, 12]) w b 2 true).map (fun r ↦ r.1) = .ok 2)) (by decide +kernel)
  obtain ⟨hlands, hseek⟩ := of_decide_eq_true htry
  obtain ⟨⟨q, b', w'⟩, hcall, rfl⟩ := exists_of_map_eq_ok hseek
  have hto : SeeksTo (calm [10, 11, 12]) w b 2 b' := .seekpos hcall
  exact ⟨b, w, b', hopen, hto, (curPos_seek_iff (by decide) hto).mpr hlands⟩

/-- Five bytes into an object of one, all of which the server sends: the stream is at offset 1. -/
theorem not_curPos_seek_behind : ¬ ∀ (env : Outside) (O : Bytes) (w : World) (b b' : S3Streambuf)
    (p : ℕ), AnswersTruly env O → Reachable env b → p < 2 ^ 63 → SeeksTo env w b p b' →
    b'.curPos = p := by
  intro hall
  obtain ⟨b, w, hopen, htry⟩ := @exists_of_justOpened (unranged [10]) 2
    (fun b w ↦ decide ((seekpos (unranged [10]) w b 5 true).map (fun r ↦ (r.1, r.2.1.curPos))
      = .ok (5, 1))) (by decide +kernel)
  obtain ⟨⟨q, b', w'⟩, hcall, heq⟩ := exists_of_map_eq_ok (of_decide_eq_true htry)
  simp only [Prod.mk.injEq] at heq
  obtain ⟨rfl, hpos⟩ := heq
  have hat := hall _ [10] w b b' 5 (answersTruly_unranged _) (.opened hopen) (by decide)
    (.seekpos hcall)
  omega

end S3Streambuf

end Nanos3Reader
