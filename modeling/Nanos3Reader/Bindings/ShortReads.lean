import Nanos3Reader.Bindings.Reader
import Nanos3Reader.Stream.Position

/-!
# Reads that come short

A read may come short because the object ends. It comes short as well when a GET has failed for
good, and nothing the caller gets tells the two apart: there is no exception, and only the error
text of the thread is set.
-/

open ByteText

namespace Nanos3Reader

open S3Streambuf

namespace Reader

/-- How many bytes a size asks for; `none` for all there are. -/
def requested (size : Option ℤ) : Option ℕ :=
  size.bind fun size ↦ if size < 0 then none else some size.toNat

/-- How many bytes the call asks the buffer of the stream for. -/
def asks (r : Reader) (fuel : ℕ) (size : Option ℤ) : ℕ :=
  match requested size with
  | none => fuel
  | some n => if r.good then n else 0

/-- A call returns fewer bytes than requested, or than the object has left, only if the object ends
there; and if a GET finally fails in it, it raises an error. -/
structure HidesNothing (env : Outside) (O : Bytes) (w : World) (r : Reader) (fuel : ℕ)
    (size : Option ℤ) (res : Except Bytes Bytes) : Prop where
  short : ∀ b ∈ r.stream, ∀ data, res = .ok data →
    data.length < (requested size).getD (O.length - b.position) →
      O.length ≤ b.position + data.length
  raises : ∀ b ∈ r.stream, GetFails env w b (r.asks fuel size) → ∃ e, res = .error e

/-- Where the caller is after an exception: a read of some bytes starts over. -/
def back (size : Option ℤ) (b : S3Streambuf) : Option ℕ := (requested size).map fun _ ↦ b.position

/-- For each byte that the call asks the buffer for there is a byte, or a window that can be had, or
the object ends there; a window without bytes is behind the end of the object; and a stream with a
state bit set is asked for no bytes of the object. -/
structure Untroubled (env : Outside) (O : Bytes) (w : World) (r : Reader) (fuel : ℕ)
    (size : Option ℤ) : Prop where
  sound : ∀ b ∈ r.stream,
    Along env (NextSound env O (back size b)) w b b.position (r.asks fuel size)
  filled : ∀ b ∈ r.stream, Along env (NextFilled env O) w b b.position (r.asks fuel size)
  bits : ∀ b ∈ r.stream, r.good = false → ∀ n ∈ requested size, 0 < n → O.length ≤ b.position

section

variable {env : Outside} {O : Bytes} {w w' : World} {r r' : Reader} {b : S3Streambuf} {fuel : ℕ}
  {size : Option ℤ}

theorem read_eq (hstream : r.stream = some b) (env : Outside) (w : World) (fuel : ℕ)
    (size : Option ℤ) : r.read env w fuel size = match requested size with
      | none => (r.readAll env w b fuel).map fun q ↦ (.ok q.1, q.2)
      | some 0 => .ok (.ok [], r, w)
      | some (n + 1) => (r.readSome env w b (n + 1)).map fun q ↦ (.ok q.1, q.2) := by
  rw [read, hstream]
  dsimp only
  rcases size with _ | size
  · rfl
  · dsimp only
    by_cases hneg : size < 0
    · rw [if_pos hneg, requested, Option.bind_some, if_pos hneg]
    · rw [if_neg hneg, requested, Option.bind_some, if_neg hneg]
      obtain ⟨n, rfl⟩ := Int.eq_ofNat_of_zero_le (not_lt.mp hneg)
      rw [Int.toNat_natCast]
      rcases n with _ | n
      · rfl
      · exact if_neg (by omega)

theorem hidesNothing_ok_iff (hstream : r.stream = some b) {data : Bytes} :
    HidesNothing env O w r fuel size (.ok data) ↔ ¬GetFails env w b (r.asks fuel size) ∧
      (data.length < (requested size).getD (O.length - b.position) →
        O.length ≤ b.position + data.length) := by
  constructor
  · rintro ⟨hshort, hraises⟩
    refine ⟨fun hfails ↦ ?_, hshort b hstream data rfl⟩
    obtain ⟨e, he⟩ := hraises b hstream hfails
    cases he
  · rintro ⟨hfails, hshort⟩
    refine ⟨?_, ?_⟩
    · intro b' hb' data' hdata
      rw [hstream] at hb'
      cases hb'
      cases hdata
      exact hshort
    · intro b' hb' hfails'
      rw [hstream] at hb'
      cases hb'
      exact absurd hfails' hfails

theorem untroubled_iff (hstream : r.stream = some b) :
    Untroubled env O w r fuel size ↔
      (Along env (NextSound env O (back size b)) w b b.position (r.asks fuel size) ∧
        Along env (NextFilled env O) w b b.position (r.asks fuel size)) ∧
      (r.good = false → ∀ n ∈ requested size, 0 < n → O.length ≤ b.position) := by
  constructor
  · rintro ⟨hsound, hfilled, hbits⟩
    exact ⟨⟨hsound b hstream, hfilled b hstream⟩, hbits b hstream⟩
  · rintro ⟨⟨hsound, hfilled⟩, hbits⟩
    constructor
    all_goals
      intro b' hb'
      rw [hstream] at hb'
      cases hb'
      assumption

theorem hidesNothing_all (hstream : r.stream = some b) (hall : requested size = none) {data : Bytes}
    (h : r.readAll env w b fuel = .ok (data, r', w')) :
    HidesNothing env O w r fuel size (.ok data) ↔ Untroubled env O w r fuel size := by
  have hasks : r.asks fuel size = fuel := by rw [asks, hall]
  have hback : back size b = none := by rw [back, hall, Option.map_none]
  obtain ⟨stop, b₁, w₁, hne, hcopy⟩ : ∃ stop b₁ w₁, stop ≠ .full ∧
      b.copy env w fuel = .ok ((data, stop), b₁, w₁) := by
    rw [readAll] at h
    split at h
    · cases h
    · cases h
    · next hne hcopy =>
      cases h
      exact ⟨_, _, _, hne, hcopy⟩
  rw [hidesNothing_ok_iff hstream, untroubled_iff hstream, hasks, hback,
    along_copy_iff O fuel hcopy, hall, Option.getD_none, Option.getD_none]
  constructor
  · rintro ⟨hfails, hshort⟩
    have hend : O.length ≤ b.position + data.length := by omega
    exact ⟨⟨hfails, fun _ ↦ hend, fun _ ↦ hend⟩, fun _ n hn ↦ absurd hn (Option.not_mem_none n)⟩
  · rintro ⟨⟨hfails, heof, hthrew⟩, -⟩
    refine ⟨hfails, fun _ ↦ ?_⟩
    rcases stop with _ | _ | _
    · exact absurd rfl hne
    · exact heof rfl
    · exact hthrew rfl

theorem hidesNothing_some (hstream : r.stream = some b) {n : ℕ}
    (hsome : requested size = some (n + 1)) {data : Bytes}
    (h : r.readSome env w b (n + 1) = .ok (data, r', w')) :
    HidesNothing env O w r fuel size (.ok data) ↔ Untroubled env O w r fuel size := by
  have hback : back size b = some b.position := by rw [back, hsome, Option.map_some]
  rw [hidesNothing_ok_iff hstream, untroubled_iff hstream, hback, asks, hsome, Option.getD_some]
  rw [readSome] at h
  dsimp only
  rcases hgood : r.good with _ | _
  · rw [if_pos hgood] at h
    cases h
    rw [if_neg Bool.false_ne_true]
    constructor
    · rintro ⟨-, hshort⟩
      exact ⟨⟨trivial, trivial⟩, fun _ _ _ _ ↦ hshort (Nat.succ_pos n)⟩
    · rintro ⟨-, hend⟩
      exact ⟨id, fun _ ↦ hend rfl _ rfl (Nat.succ_pos n)⟩
  · rw [if_neg (by simp [hgood])] at h
    have hbits : true = false → ∀ k ∈ some (n + 1), 0 < k → O.length ≤ b.position := by simp
    rw [if_pos rfl, and_iff_left hbits]
    split at h
    · cases h
    · next hcopy =>
      cases h
      rw [along_copy_iff O (n + 1) hcopy]
      refine and_congr_right fun _ ↦ iff_of_true (fun hlt ↦ ?_) (by simp)
      exact absurd ((length_of_copy _ hcopy).1 rfl) hlt.ne
    · next hcopy =>
      cases h
      rw [along_copy_iff O (n + 1) hcopy]
      refine and_congr_right fun _ ↦ ⟨fun hshort ↦ ⟨fun _ ↦ hshort ?_, by simp⟩, fun hend _ ↦ ?_⟩
      · exact (length_of_copy _ hcopy).2 (by simp)
      · exact hend.1 rfl
    -- what has been copied before an exception is thrown away
    · next hcopy =>
      cases h
      rw [along_copy_iff O (n + 1) hcopy]
      refine and_congr_right fun _ ↦ ⟨fun hshort ↦ ⟨by simp, fun _ ↦ ?_⟩, fun hend _ ↦ ?_⟩
      · exact hshort (Nat.succ_pos n)
      · exact hend.2 rfl

/-- A read comes to its end, if there is fuel for one byte more than the object has. -/
theorem read_ne_hangs (hserver : AnswersTruly env O) (hO : O.length < 2 ^ 64)
    (hr : ShowsObject O r) (hoff : w.cache.enabled = false) (hfuel : O.length < fuel) :
    r.read env w fuel size ≠ .error .hangs := by
  rcases hstream : r.stream with _ | b
  · rw [read, hstream]
    simp
  · have hb := hr b hstream
    rw [read_eq hstream]
    rcases requested size with _ | _ | n
    · intro h
      replace h := eq_error_of_map h
      rw [readAll] at h
      split at h
      · next hcopy =>
        rw [Except.error.inj h] at hcopy
        exact copy_ne_hangs hserver hO fuel hb hoff hcopy
      -- so many bytes there are not
      · next hcopy =>
        have hlen := (length_of_copy fuel hcopy).1 rfl
        have hle := (shows_of_copy hserver hO fuel hb hoff hcopy).2 fun hnil ↦ by
          rw [hnil, List.length_nil] at hlen
          omega
        omega
      · cases h
    · simp
    · intro h
      replace h := eq_error_of_map h
      rw [readSome] at h
      split at h
      · cases h
      · split at h
        · next hcopy =>
          rw [Except.error.inj h] at hcopy
          exact copy_ne_hangs hserver hO (n + 1) hb hoff hcopy
        · cases h
        · cases h
        · cases h

/-- **When a read hides nothing.** A call of `read` that returns comes short only at the end of `O`,
and raises when a GET finally fails, if and only if it is not troubled by a window that cannot be
had before the end of `O`, nor by what is left of an earlier trouble. Over a server each of whose
answers is a failure or the truth about `O`, and without the disk cache, every call ends, and no
window is without bytes before the end of `O`. -/
theorem hidesNothing_iff (env : Outside) (O : Bytes) (w : World) (r : Reader) (fuel : ℕ)
    (size : Option ℤ) :
    (∀ res r' w', r.read env w fuel size = .ok (res, r', w') →
      (HidesNothing env O w r fuel size res ↔ Untroubled env O w r fuel size)) ∧
    (AnswersTruly env O → O.length < 2 ^ 64 → Reachable env r → w.cache.enabled = false →
      (O.length < fuel → r.read env w fuel size ≠ .error .hangs) ∧
      ∀ b ∈ r.stream, Along env (NextFilled env O) w b b.position (r.asks fuel size)) := by
  constructor
  · intro res r' w' h
    rcases hstream : r.stream with _ | b
    · have hno : ∀ b, b ∉ r.stream := by simp [hstream]
      exact iff_of_true ⟨fun b hb ↦ absurd hb (hno b), fun b hb ↦ absurd hb (hno b)⟩
        ⟨fun b hb ↦ absurd hb (hno b), fun b hb ↦ absurd hb (hno b),
          fun b hb ↦ absurd hb (hno b)⟩
    · rw [read_eq hstream] at h
      rcases hsize : requested size with _ | _ | n
      · rw [hsize] at h
        obtain ⟨⟨data, r₁, w₁⟩, hread, heq⟩ := exists_of_map_eq_ok h
        cases heq
        exact hidesNothing_all hstream hsize hread
      · rw [hsize] at h
        cases h
        rw [hidesNothing_ok_iff hstream, untroubled_iff hstream, asks, hsize]
        dsimp only
        rw [ite_self]
        exact iff_of_true ⟨id, fun hlt ↦ absurd hlt (Nat.not_lt_zero _)⟩
          ⟨⟨trivial, trivial⟩, fun _ k hk hpos ↦ absurd (Option.some.inj hk) hpos.ne⟩
      · rw [hsize] at h
        obtain ⟨⟨data, r₁, w₁⟩, hread, heq⟩ := exists_of_map_eq_ok h
        cases heq
        exact hidesNothing_some hstream hsize hread
  · intro hserver hO hr hoff
    have hshows := showsObject_of_reachable hserver hO hr
    exact ⟨read_ne_hangs hserver hO hshows hoff,
      fun b hb ↦ along_filled hserver hO _ (hshows b hb) hoff⟩

end

/-! ## Examples -/

theorem reachable_justOpened {env : Outside} {readAhead : ℕ} {b : S3Streambuf} {w : World}
    (h : justOpened env readAhead = (some b, w)) : Reachable env { stream := some b } := by
  rw [justOpened] at h
  have hopened := Reachable.opened (r := { stream := some b }) (by rw [openReader, h])
  exact hopened

/-- Three bytes, in two windows; and a read of all there are comes to its end. -/
theorem hidesNothing_twoWindows : ∃ b w r' w', justOpened (careful [10, 11, 12]) 2 = (some b, w) ∧
    Reader.read (careful [10, 11, 12]) w { stream := some b } 4 (some 3)
      = .ok (.ok [10, 11, 12], r', w') ∧
    HidesNothing (careful [10, 11, 12]) [10, 11, 12] w { stream := some b } 4 (some 3)
      (.ok [10, 11, 12]) ∧
    Reader.read (careful [10, 11, 12]) w { stream := some b } 4 none ≠ .error .hangs := by
  obtain ⟨b, w, hopen, htry⟩ := @exists_of_justOpened (careful [10, 11, 12]) 2
    (fun b w ↦ decide (w.cache.enabled = false ∧
      (b.copy (careful [10, 11, 12]) w 3).map (fun q ↦ q.1) = .ok ([10, 11, 12], .full) ∧
      (Reader.read (careful [10, 11, 12]) w { stream := some b } 4 (some 3)).map (fun q ↦ q.1)
        = .ok (.ok [10, 11, 12]))) (by decide +kernel)
  obtain ⟨hoff, hcopied, hread⟩ := of_decide_eq_true htry
  obtain ⟨⟨_, b₁, w₁⟩, hcopy, rfl⟩ := exists_of_map_eq_ok hcopied
  obtain ⟨⟨res, r', w'⟩, hcall, rfl⟩ := exists_of_map_eq_ok hread
  have hserver := answersTruly_careful [10, 11, 12]
  have hreached := reachable_justOpened hopen
  obtain ⟨hiff, htruly⟩ :=
    hidesNothing_iff (careful [10, 11, 12]) [10, 11, 12] w { stream := some b } 4 (some 3)
  obtain ⟨-, hfilled⟩ := htruly hserver (by decide) hreached hoff
  obtain ⟨-, hall⟩ :=
    hidesNothing_iff (careful [10, 11, 12]) [10, 11, 12] w { stream := some b } 4 none
  obtain ⟨hends, -⟩ := hall hserver (by decide) hreached hoff
  have hsound : Along (careful [10, 11, 12]) (NextSound (careful [10, 11, 12]) [10, 11, 12]
      (some b.position)) w b b.position 3 :=
    ((along_copy_iff [10, 11, 12] 3 hcopy).mpr
      ⟨not_getFails_of_full 3 hcopy, nofun, nofun⟩).1
  exact ⟨b, w, r', w', hopen, hcall, (hiff _ _ _ hcall).mpr
    ((untroubled_iff rfl).mpr ⟨⟨hsound, hfilled b rfl⟩, nofun⟩), hends (by decide)⟩

theorem answersTruly_guarded (O : Bytes) : AnswersTruly (guarded O) O := by
  intro m req a z hreq _
  by_cases ha : a = 0
  · subst ha
    simp only [guarded, rangeServer, hreq]
    rw [if_pos (by simp)]
    split
    · simp
    · next hempty =>
      simp only [List.length_pos_iff, not_not] at hempty
      simp [hempty]
  · simp [guarded, hreq, ha]

/-- The second window of an object of three cannot be had: `read` returns two bytes. -/
theorem not_hidesNothing_secondWindow : ¬ ∀ (env : Outside) (O : Bytes) (w : World) (r : Reader)
    (fuel : ℕ) (size : Option ℤ) (res : Except Bytes Bytes) (r' : Reader) (w' : World),
    AnswersTruly env O → Reachable env r → w.cache.enabled = false →
    r.read env w fuel size = .ok (res, r', w') → HidesNothing env O w r fuel size res := by
  intro hall
  obtain ⟨b, w, hopen, htry⟩ := @exists_of_justOpened (guarded [10, 11, 12]) 2
    (fun b w ↦ decide (w.cache.enabled = false ∧ b.position = 0 ∧
      (Reader.read (guarded [10, 11, 12]) w { stream := some b } 4 none).map (fun q ↦ q.1)
        = .ok (.ok [10, 11]))) (by decide +kernel)
  obtain ⟨hoff, hposition, hread⟩ := of_decide_eq_true htry
  obtain ⟨⟨_, r', w'⟩, hcall, rfl⟩ := exists_of_map_eq_ok hread
  have hnothing := hall _ [10, 11, 12] w _ 4 none _ r' w' (answersTruly_guarded _)
    (reachable_justOpened hopen) hoff hcall
  have hshort := hnothing.short b rfl [10, 11] rfl
  rw [hposition] at hshort
  exact absurd (hshort (by decide)) (by decide)

end Reader

end Nanos3Reader
