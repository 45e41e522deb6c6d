import Nanos3Reader.Stream.Tell
import Nanos3Reader.Stream.Truncation

/-!
# The Python reader

`Reader` of the Python bindings holds an `std::istream` over the stream. A read of some bytes is
`istream::read`, which keeps what it met in the state bits of the stream and does nothing once one
of them is set; a read of all bytes copies the buffer of the stream, whatever the bits say. Neither
looks at the error text of the thread. An exception out of the buffer is caught by the library.
-/

open ByteText

namespace Nanos3Reader

open S3Streambuf

/-! ## Copying from the stream -/

/-- Why the copying of bytes stopped: all of them are there, the buffer had no more, or it threw. -/
inductive Stop where
  | full | eof | threw
deriving DecidableEq

namespace S3Streambuf

/-- The world after `load_window` for `target` has thrown, which it does when it reserves the room
for a response. -/
def thrown (env : Outside) (w : World) (b : S3Streambuf) (target : ℕ) : World :=
  ((w.tryLoad env ⟨b.uri, .ofNat (b.loadStart w target)⟩).2.getCredentials env).2

/-- Up to `n` bytes of the buffer, one after the other. -/
def copy (env : Outside) (w : World) (b : S3Streambuf) :
    ℕ → Except Fault ((Bytes × Stop) × S3Streambuf × World)
  | 0 => .ok (([], .full), b, w)
  | n + 1 =>
    match sbumpc env w b with
    | .error .lengthError => .ok (([], .threw), { b with window := [] }, thrown env w b b.next)
    | .error f => .error f
    | .ok (none, b, w) => .ok (([], .eof), b, w)
    | .ok (some c, b, w) => (copy env w b n).map fun r ↦ ((c :: r.1.1, r.1.2), r.2)

end S3Streambuf

/-! ## The reader -/

/-- `S3Reader`: the stream, until it is closed, and its state bits. -/
structure Reader where
  stream : Option S3Streambuf
  eofbit : Bool := false
  failbit : Bool := false
  badbit : Bool := false

namespace Reader

/-- `good()`. -/
def good (r : Reader) : Bool := !r.eofbit && !r.failbit && !r.badbit

/-- `fail()`. -/
def failed (r : Reader) : Bool := r.failbit || r.badbit

/-- The constructor: a reader, or the text of an `OpenError`. -/
def openReader (env : Outside) (cfg : Config) (w : World) (uri : Bytes) (readAhead : ℕ) :
    Except Bytes Reader × World :=
  match openStream env cfg w uri readAhead with
  | (some b, w) => (.ok { stream := some b }, w)
  | (none, w) => (.error (if w.lastError = [] then utf8 "open failed" else w.lastError), w)

/-- `stream_->read` of `n` bytes. -/
def readSome (env : Outside) (w : World) (r : Reader) (b : S3Streambuf) (n : ℕ) :
    Except Fault (Bytes × Reader × World) :=
  if r.good = false then .ok ([], { r with failbit := true }, w)
  else
    match b.copy env w n with
    | .error f => .error f
    | .ok ((data, .full), b, w) => .ok (data, { r with stream := some b }, w)
    | .ok ((data, .eof), b, w) =>
      .ok (data, { r with stream := some b, eofbit := true, failbit := true }, w)
    | .ok ((_, .threw), b, w) => .ok ([], { r with stream := some b, badbit := true }, w)

/-- `out << stream_->rdbuf()`, as long as that takes no more than `fuel` bytes. -/
def readAll (env : Outside) (w : World) (r : Reader) (b : S3Streambuf) (fuel : ℕ) :
    Except Fault (Bytes × Reader × World) :=
  match b.copy env w fuel with
  | .error f => .error f
  | .ok ((_, .full), _, _) => .error .hangs
  | .ok ((data, _), b, w) => .ok (data, { r with stream := some b }, w)

/-- `S3Reader::read`: bytes, or the text of an `OpenError`. -/
def read (env : Outside) (w : World) (r : Reader) (fuel : ℕ) (size : Option ℤ) :
    Except Fault (Except Bytes Bytes × Reader × World) :=
  match r.stream with
  | none => .ok (.error (utf8 "stream is closed"), r, w)
  | some b =>
    match size with
    | none => (r.readAll env w b fuel).map fun q ↦ (.ok q.1, q.2)
    | some size =>
      if size < 0 then (r.readAll env w b fuel).map fun q ↦ (.ok q.1, q.2)
      else if size = 0 then .ok (.ok [], r, w)
      else (r.readSome env w b size.toNat).map fun q ↦ (.ok q.1, q.2)

/-- `stream_->seekg`. -/
def seekg (env : Outside) (w : World) (r : Reader) (b : S3Streambuf) (offset : ℤ) (dir : SeekDir) :
    Except Fault (Reader × World) :=
  let r := { r with eofbit := false }
  if r.good = false then .ok ({ r with failbit := true }, w)
  else
    match seekoff env w b offset dir true with
    | .error .lengthError =>
      let target := toUint64 ((if dir = .cur then toInt64 b.curPos else 0) + offset)
      .ok ({ r with stream := some { b with window := [] }, badbit := true },
        thrown env { w with lastError := [] } b target)
    | .error f => .error f
    | .ok (pos, b, w) =>
      .ok ({ r with stream := some b, failbit := r.failbit || decide (pos = -1) }, w)

/-- `stream_->tellg`. -/
def tellg (env : Outside) (w : World) (r : Reader) (b : S3Streambuf) :
    Except Fault (ℤ × Reader × World) :=
  if r.good = false then .ok (-1, { r with failbit := true }, w)
  else
    match seekoff env w b 0 .cur true with
    | .error .lengthError =>
      .ok (-1, { r with stream := some { b with window := [] }, badbit := true },
        thrown env { w with lastError := [] } b b.curPos)
    | .error f => .error f
    | .ok (pos, b, w) => .ok (pos, { r with stream := some b }, w)

/-- `S3Reader::tell`. -/
def tell (env : Outside) (w : World) (r : Reader) :
    Except Fault (Except Bytes ℕ × Reader × World) :=
  match r.stream with
  | none => .ok (.error (utf8 "stream is closed"), r, w)
  | some b => (r.tellg env w b).map fun q ↦ (.ok (toUint64 q.1), q.2)

/-- `S3Reader::seek`. -/
def seek (env : Outside) (w : World) (r : Reader) (offset whence : ℤ) :
    Except Fault (Except Bytes ℕ × Reader × World) :=
  match r.stream with
  | none => .ok (.error (utf8 "stream is closed"), r, w)
  | some b =>
    let dir := if whence = 1 then .cur else if whence = 2 then .fromEnd else .beg
    match r.seekg env w b offset dir with
    | .error f => .error f
    | .ok (r, w) =>
      if r.failed ∧ r.eofbit = false then
        .ok (.error (if w.lastError = [] then utf8 "seek failed" else w.lastError), r, w)
      else r.tell env w

/-- `S3Reader::close`. -/
def close (r : Reader) : Reader := { r with stream := none }

/-- The readers that calls lead to while the disk cache is off. Between two calls anything may
happen to what the stream shares with others. -/
inductive Reachable (env : Outside) : Reader → Prop
  | opened {cfg : Config} {w w' : World} {uri : Bytes} {readAhead : ℕ} {r : Reader}
      (h : openReader env cfg w uri readAhead = (.ok r, w')) : Reachable env r
  | read {w w' : World} {r r' : Reader} {fuel : ℕ} {size : Option ℤ} {res : Except Bytes Bytes}
      (hr : Reachable env r) (hoff : w.cache.enabled = false)
      (h : r.read env w fuel size = .ok (res, r', w')) : Reachable env r'
  | seek {w w' : World} {r r' : Reader} {offset whence : ℤ} {res : Except Bytes ℕ}
      (hr : Reachable env r) (hoff : w.cache.enabled = false)
      (h : r.seek env w offset whence = .ok (res, r', w')) : Reachable env r'
  | tell {w w' : World} {r r' : Reader} {res : Except Bytes ℕ}
      (hr : Reachable env r) (hoff : w.cache.enabled = false)
      (h : r.tell env w = .ok (res, r', w')) : Reachable env r'
  | close {r : Reader} (hr : Reachable env r) : Reachable env r.close

end Reader

namespace S3Streambuf

/-! ## What a stream over an object shows -/

/-- The offset of the next byte. -/
def position (b : S3Streambuf) : ℕ := b.windowStart + b.gptr

/-- The window of `b` is within `O`, and if it has bytes and is said to reach the end, it does. -/
structure Shows (O : Bytes) (b : S3Streambuf) : Prop where
  area : Area b
  readAhead_pos : 0 < b.readAhead
  start_lt : b.windowStart < 2 ^ 64
  fits : 0 < b.windowLen → b.readAhead ≤ maxSize ∧ b.windowStart + b.windowLen ≤ O.length
  eof : 0 < b.windowLen → b.reachedEof = true → O.length ≤ b.windowStart + b.windowLen

section

variable {env : Outside} {O : Bytes} {w w' : World} {b b' : S3Streambuf} {target : ℕ}

/-- The next byte of a stream at the end of its window is the first of the next one. -/
theorem Shows.next_eq (h : Shows O b) (hO : O.length < 2 ^ 64) (hle : b.egptr ≤ b.gptr) :
    b.next = b.position ∧ b.windowStart + b.windowLen = b.position := by
  have hegptr := h.area.egptr_eq
  have hgptr := h.area.gptr_le
  have hstart := h.start_lt
  have hsame : b.windowStart + b.windowLen = b.position := by
    rw [position]
    omega
  refine ⟨?_, hsame⟩
  rw [next, Nat.mod_eq_of_lt, hsame]
  rcases Nat.eq_zero_or_pos b.windowLen with hnone | hpos
  · omega
  · have hfits := (h.fits hpos).2
    omega

/-- Without the cache, a load gets no response, throws, or gets what the last transfer brings. -/
theorem answer_of_disabled (env : Outside) (b : S3Streambuf) (hoff : w.cache.enabled = false)
    (target : ℕ) : b.answer env w target = .failed ∨
      b.answer env w target = .never ∧ maxSize < b.readAhead ∨
      b.readAhead ≤ maxSize ∧ ∃ cred w₀, b.answer env w target
        = (lastTransfer env cred target w₀ b false 0).1.answer := by
  have htry := World.tryLoad_of_disabled hoff env
  rw [answer, loadStart, hoff]
  split
  · exact .inl rfl
  · dsimp only
    rw [htry]
    dsimp only
    split
    · exact .inl rfl
    · split
      · next hra => exact .inr (.inl ⟨rfl, hra⟩)
      · next hra => exact .inr (.inr ⟨not_lt.mp hra, _, _, fetchAnswer_false _ _ _⟩)

theorem part_le (hserver : AnswersTruly env O) (hoff : w.cache.enabled = false)
    (hpos : 0 < b.readAhead) {data : Bytes} (h : b.answer env w target = .part data)
    (hdata : 0 < data.length) : target + data.length ≤ O.length := by
  rcases answer_of_disabled env b hoff target with hfailed | ⟨hnever, -⟩ | ⟨hra, cred, w₀, hlast⟩
  · rw [hfailed] at h
    cases h
  · rw [hnever] at h
    cases h
  · have htruly := lastTransfer_truly hserver cred target w₀ b false 0
    rw [h] at hlast
    generalize (lastTransfer env cred target w₀ b false 0).1 = t at hlast htruly
    rw [Transfer.answer] at hlast
    split at hlast
    · next hpart =>
      obtain ⟨-, hslice⟩ := (htruly hpart.1).1 hpart.2
      obtain rfl := Answer.part.inj hlast
      rw [hslice, length_slice] at hdata ⊢
      omega
    · split at hlast
      · cases hlast
      · split at hlast <;> cases hlast

theorem readAhead_le_of_answer (hoff : w.cache.enabled = false)
    (hfailed : b.answer env w target ≠ .failed) (hnever : b.answer env w target ≠ .never) :
    b.readAhead ≤ maxSize := by
  rcases answer_of_disabled env b hoff target with h | ⟨h, -⟩ | ⟨hra, -⟩
  · exact absurd h hfailed
  · exact absurd h hnever
  · exact hra

theorem shows_of_loadWindow (hserver : AnswersTruly env O) (hoff : w.cache.enabled = false)
    (hpos : 0 < b.readAhead) (htarget : target < 2 ^ 64) (hstart : b.windowStart < 2 ^ 64)
    {ok : Bool} (h : loadWindow env w b target = .ok (ok, b', w')) :
    Shows O b' ∧ w'.cache.enabled = false ∧
      (ok = true → b'.windowLen = 0 → O.length ≤ target) ∧
      (b'.gptr < b'.windowLen → b'.position = target) := by
  obtain ⟨hsame, hends⟩ := ends_of_loadWindow h
  have htruly := trueAnswer hserver hoff hpos target
  have hpart : ∀ data, b.answer env w target = .part data → 0 < data.length →
      target + data.length ≤ O.length := fun data ↦ part_le hserver hoff hpos
  have hroom : b.answer env w target ≠ .failed → b.answer env w target ≠ .never →
      b.readAhead ≤ maxSize := readAhead_le_of_answer hoff
  have hfrom : b.loadStart w target = target := if_neg (by simp [hoff])
  have harea := Area.of_ends hends
  rw [hfrom] at hends
  refine ⟨?_, hsame.trans hoff, ?_⟩
  all_goals
    generalize b.answer env w target = a at hends htruly hpart hroom
    rcases hends with ⟨hkept, -⟩ | @⟨b₁, w', hkept, -⟩ | @⟨b₁, w', hkept, -⟩ | ⟨hkept, -⟩ |
      ⟨hkept, -, -⟩
  · exact htruly.elim
  · have hra := hroom (by simp) (by simp)
    rw [← hkept.readAhead] at hpos hra htruly
    refine ⟨harea, hpos, htarget, fun hlen ↦ ⟨hra, hpart _ rfl hlen⟩, fun _ heof ↦ ?_⟩
    exact htruly (by simpa [installWindow] using heof)
  · have hra := hroom (by simp) (by simp)
    have hO : b₁.window = O := htruly
    have hle : 0 + b₁.window.length = O.length := by rw [hO, Nat.zero_add]
    rw [← hkept.readAhead] at hpos hra
    exact ⟨harea, hpos, Nat.two_pow_pos 64, fun _ ↦ ⟨hra, hle.le⟩, fun _ _ ↦ hle.ge⟩
  · exact ⟨harea, hkept.readAhead ▸ hpos, htarget, fun h ↦ absurd h (lt_irrefl 0),
      fun h ↦ absurd h (lt_irrefl 0)⟩
  · exact ⟨harea, hkept.readAhead ▸ hpos, hkept.windowStart ▸ hstart,
      fun h ↦ absurd h (lt_irrefl 0), fun h ↦ absurd h (lt_irrefl 0)⟩
  · exact htruly.elim
  · refine ⟨fun _ hnone ↦ ?_, fun hlt ↦ ?_⟩
    · have hempty : b₁.window.length = 0 := hnone
      have hend := htruly (by omega)
      omega
    · have hgptr := gptr_installWindow b₁ target target true
      rw [if_pos rfl, Nat.sub_self, Nat.zero_min] at hgptr
      rw [position, hgptr]
      rfl
  · have hO : b₁.window = O := htruly
    refine ⟨fun _ hnone ↦ ?_, fun hlt ↦ ?_⟩
    · have hempty : b₁.window.length = 0 := hnone
      rw [← hO]
      omega
    · have hgptr := gptr_installWindow b₁ target target false
      have hlen : (b₁.installWindow target target false).windowLen = b₁.window.length := rfl
      rw [if_neg Bool.false_ne_true, Nat.sub_zero] at hgptr
      have hzero : (b₁.installWindow target target false).windowStart = 0 := rfl
      rw [position, hzero]
      omega
  · exact ⟨fun _ _ ↦ htruly, fun hlt ↦ absurd hlt (lt_irrefl 0)⟩
  · exact ⟨fun hok ↦ absurd hok Bool.false_ne_true, fun hlt ↦ absurd hlt (lt_irrefl 0)⟩

theorem Shows.underflow (hb : Shows O b) (hserver : AnswersTruly env O) (hO : O.length < 2 ^ 64)
    (hoff : w.cache.enabled = false) {r : Option UInt8} (h : Underflows env w b r b' w') :
    Shows O b' ∧ w'.cache.enabled = false ∧
      ∀ c, r = some c → b'.gptr < b'.windowLen ∧ b'.position = b.position := by
  have hfound := hb.area.underflow h
  have hnext : b.next < 2 ^ 64 := Nat.mod_lt _ (by decide)
  have hload : ∀ {ok : Bool} {b' : S3Streambuf} {w' : World},
      loadWindow env w b b.next = .ok (ok, b', w') →
      Shows O b' ∧ w'.cache.enabled = false ∧
        (ok = true → b'.windowLen = 0 → O.length ≤ b.next) ∧
        (b'.gptr < b'.windowLen → b'.position = b.next) :=
    fun h ↦ shows_of_loadWindow hserver hoff hb.readAhead_pos hnext hb.start_lt h
  rcases h with ⟨hlt, -⟩ | ⟨-, -⟩ | ⟨hle, heof, hfails⟩ | ⟨hle, heof, hfinds, hempty⟩ |
    ⟨hle, heof, hloads, hpos, hget⟩
  · exact ⟨hb, hoff, fun _ _ ↦ ⟨hb.area.egptr_eq ▸ hlt, rfl⟩⟩
  · exact ⟨hb, hoff, nofun⟩
  · obtain ⟨hb', hoff', -, -⟩ := hload hfails
    exact ⟨hb', hoff', nofun⟩
  · obtain ⟨⟨harea, hra, hstart, hfits, -⟩, hoff', -, -⟩ := hload hfinds
    refine ⟨⟨⟨harea.egptr_eq, harea.gptr_le, harea.window⟩, hra, hstart, hfits, fun hlen ↦ ?_⟩,
      hoff', nofun⟩
    exact absurd hempty hlen.ne'
  · obtain ⟨hb', hoff', -, hposition⟩ := hload hloads
    refine ⟨hb', hoff', fun c hc ↦ ?_⟩
    have hlt := (hfound.2 c hc).1
    rw [hb'.area.egptr_eq] at hlt
    exact ⟨hlt, (hposition hlt).trans (hb.next_eq hO hle).1⟩

theorem Shows.advance (hb : Shows O b) (hlt : b.gptr < b.windowLen) :
    Shows O { b with gptr := b.gptr + 1 } :=
  ⟨⟨hb.area.egptr_eq, hlt, hb.area.window⟩, hb.readAhead_pos, hb.start_lt, hb.fits, hb.eof⟩

/-- Where there is no room for a window there never was one, and clearing it changes nothing. -/
theorem Shows.cleared (hb : Shows O b) (hra : maxSize < b.readAhead) :
    Shows O { b with window := [] } :=
  ⟨⟨hb.area.egptr_eq, hb.area.gptr_le, fun hpos ↦ absurd (hb.fits hpos).1 (not_le.mpr hra)⟩,
    hb.readAhead_pos, hb.start_lt, hb.fits, hb.eof⟩

theorem Shows.sbumpc (hb : Shows O b) (hserver : AnswersTruly env O) (hO : O.length < 2 ^ 64)
    (hoff : w.cache.enabled = false) {c : UInt8} (h : sbumpc env w b = .ok (some c, b', w')) :
    Shows O b' ∧ w'.cache.enabled = false ∧ b'.position = b.position + 1 ∧
      b.position < O.length := by
  rw [S3Streambuf.sbumpc] at h
  split at h
  · cases h
  · cases h
  · next c' b₁ w₁ hsome =>
    cases h
    obtain ⟨hb₁, hoff₁, hfound⟩ := hb.underflow hserver hO hoff (underflows hsome)
    obtain ⟨hlt, hposition⟩ := hfound c rfl
    have hfits := (hb₁.fits (Nat.zero_lt_of_lt hlt)).2
    refine ⟨hb₁.advance hlt, hoff₁, ?_, ?_⟩
    · rw [← hposition, position, position, Nat.add_assoc]
    · rw [← hposition, position]
      omega

/-! ## What can go wrong in a copy -/

/-- A window that the next byte needs cannot be had, though it was asked for. -/
def NextGetFails (env : Outside) (w : World) (b : S3Streambuf) : Prop :=
  b.egptr ≤ b.gptr ∧ b.reachedEof = false ∧
    ∃ b' w', loadWindow env w b b.next = .ok (false, b', w') ∧ w'.sent ≠ w.sent

/-- This is so for one of the next `n` bytes. -/
def GetFails (env : Outside) : World → S3Streambuf → ℕ → Prop
  | _, _, 0 => False
  | w, b, n + 1 => NextGetFails env w b ∨
    ∃ c b' w', sbumpc env w b = .ok (some c, b', w') ∧ GetFails env w' b' n

/-- `P` holds where the next byte is taken at offset `p`, and so on for `n` bytes. -/
def Along (env : Outside) (P : World → S3Streambuf → ℕ → Prop) :
    World → S3Streambuf → ℕ → ℕ → Prop
  | _, _, _, 0 => True
  | w, b, p, n + 1 => P w b p ∧
    ∀ c b' w', sbumpc env w b = .ok (some c, b', w') → Along env P w' b' (p + 1) n

/-- The next byte is there, or its window can be had; or else the object ends here, and no GET
fails. After an exception the caller is back at `back`, if anywhere. -/
structure NextSound (env : Outside) (O : Bytes) (back : Option ℕ) (w : World) (b : S3Streambuf)
    (p : ℕ) : Prop where
  flag : b.egptr ≤ b.gptr → b.reachedEof = true → O.length ≤ p
  fetch : b.egptr ≤ b.gptr → b.reachedEof = false →
    ∀ b' w', loadWindow env w b b.next = .ok (false, b', w') →
      w'.sent = w.sent ∧ O.length ≤ p
  room : b.egptr ≤ b.gptr → b.reachedEof = false →
    loadWindow env w b b.next = .error .lengthError → O.length ≤ back.getD p

/-- A window without bytes is behind the end of the object. -/
def NextFilled (env : Outside) (O : Bytes) (w : World) (b : S3Streambuf) (p : ℕ) : Prop :=
  b.egptr ≤ b.gptr → b.reachedEof = false →
    ∀ b' w', loadWindow env w b b.next = .ok (true, b', w') → b'.windowLen = 0 → O.length ≤ p

theorem underflow_eq_lengthError (h : S3Streambuf.underflow env w b = .error .lengthError) :
    b.egptr ≤ b.gptr ∧ b.reachedEof = false ∧
      loadWindow env w b b.next = .error .lengthError := by
  rw [S3Streambuf.underflow] at h
  split at h
  · rw [current] at h
    split at h <;> cases h
  · next hlt =>
    split at h
    · cases h
    · next heof =>
      refine ⟨not_lt.mp hlt, by simpa using heof, ?_⟩
      split at h
      · next hload =>
        rw [next, hload, Except.error.inj h]
      · cases h
      · split at h
        · cases h
        · rw [current] at h
          split at h <;> cases h

theorem underflow_of_sbumpc_error {f : Fault} (h : S3Streambuf.sbumpc env w b = .error f) :
    S3Streambuf.underflow env w b = .error f := by
  rw [S3Streambuf.sbumpc] at h
  split at h
  · next hunderflow => rw [hunderflow, Except.error.inj h]
  · cases h
  · cases h

theorem underflow_of_sbumpc_none (h : S3Streambuf.sbumpc env w b = .ok (none, b', w')) :
    S3Streambuf.underflow env w b = .ok (none, b', w') := by
  rw [S3Streambuf.sbumpc] at h
  split at h
  · cases h
  · next hunderflow =>
    cases h
    exact hunderflow
  · cases h

/-- Without the cache, a load that does not return throws, for want of room. -/
theorem error_of_loadWindow (hoff : w.cache.enabled = false) {f : Fault}
    (h : loadWindow env w b target = .error f) : f = .lengthError ∧ maxSize < b.readAhead := by
  have hra : maxSize < b.readAhead := by
    rcases loadWindow_ends env w b target with ⟨hnever, -⟩ | ⟨ok, b', w', hok, -⟩
    · rcases answer_of_disabled env b hoff target with hfailed | ⟨-, hra⟩ | ⟨-, cred, w₀, hlast⟩
      · rw [hnever] at hfailed
        cases hfailed
      · exact hra
      · rw [hnever, Transfer.answer] at hlast
        split_ifs at hlast
    · rw [hok] at h
      cases h
  have htry := World.tryLoad_of_disabled hoff env
  refine ⟨?_, hra⟩
  rw [loadWindow] at h
  split at h
  · cases h
  · dsimp only at h
    rw [htry] at h
    dsimp only at h
    rw [fetch, if_pos hra] at h
    split at h
    · cases h
    · exact (Except.error.inj h).symm

section

variable {p : ℕ} {back : Option ℕ}

/-- Where the copying ends, nothing is wrong if no GET fails and the object ends there. -/
theorem nextSound_iff_of_none (h : Underflows env w b none b' w') :
    NextSound env O back w b p ∧ NextFilled env O w b p ↔
      ¬NextGetFails env w b ∧ O.length ≤ p := by
  rcases h with _ | ⟨hle, heof⟩ | ⟨hle, heof, hfails⟩ | ⟨hle, heof, hfinds, hempty⟩ | _
  · have hclear : b.reachedEof ≠ false := by simp [heof]
    constructor
    · rintro ⟨hsound, -⟩
      exact ⟨fun hget ↦ hclear hget.2.1, hsound.flag hle heof⟩
    · rintro ⟨-, hend⟩
      exact ⟨⟨fun _ _ ↦ hend, fun _ hfalse ↦ absurd hfalse hclear,
        fun _ hfalse ↦ absurd hfalse hclear⟩, fun _ hfalse ↦ absurd hfalse hclear⟩
  · constructor
    · rintro ⟨hsound, -⟩
      obtain ⟨hsent, hend⟩ := hsound.fetch hle heof _ _ hfails
      refine ⟨?_, hend⟩
      rintro ⟨-, -, b₁, w₁, hload, hne⟩
      rw [hfails] at hload
      cases hload
      exact hne hsent
    · rintro ⟨hget, hend⟩
      refine ⟨⟨fun _ _ ↦ hend, fun _ _ b₁ w₁ hload ↦ ⟨?_, hend⟩, fun _ _ hthrows ↦ ?_⟩,
        fun _ _ _ _ _ _ ↦ hend⟩
      · by_contra hne
        exact hget ⟨hle, heof, b₁, w₁, hload, hne⟩
      · rw [hfails] at hthrows
        cases hthrows
  · constructor
    · rintro ⟨-, hfilled⟩
      refine ⟨?_, hfilled hle heof _ _ hfinds hempty⟩
      rintro ⟨-, -, b₁, w₁, hfails, -⟩
      rw [hfinds] at hfails
      cases hfails
    · rintro ⟨-, hend⟩
      refine ⟨⟨fun _ _ ↦ hend, fun _ _ b₁ w₁ hfails ↦ ?_, fun _ _ hthrows ↦ ?_⟩,
        fun _ _ _ _ _ _ ↦ hend⟩
      · rw [hfinds] at hfails
        cases hfails
      · rw [hfinds] at hthrows
        cases hthrows

theorem nextSound_iff_of_throw (h : S3Streambuf.underflow env w b = .error .lengthError) :
    NextSound env O back w b p ∧ NextFilled env O w b p ↔
      ¬NextGetFails env w b ∧ O.length ≤ back.getD p := by
  obtain ⟨hle, heof, hload⟩ := underflow_eq_lengthError h
  have hreturns : ∀ r, loadWindow env w b b.next ≠ .ok r := by
    intro r hr
    rw [hload] at hr
    cases hr
  constructor
  · rintro ⟨hsound, -⟩
    refine ⟨?_, hsound.room hle heof hload⟩
    rintro ⟨-, -, b₁, w₁, hfails, -⟩
    exact hreturns _ hfails
  · rintro ⟨-, hend⟩
    refine ⟨⟨fun _ hmet ↦ ?_, fun _ _ b₁ w₁ hfails ↦ absurd hfails (hreturns _), fun _ _ _ ↦ hend⟩,
      fun _ _ b₁ w₁ hfinds ↦ absurd hfinds (hreturns _)⟩
    rw [heof] at hmet
    cases hmet

theorem nextSound_of_some {c : UInt8} (h : Underflows env w b (some c) b' w') :
    (NextSound env O back w b p ∧ NextFilled env O w b p) ∧ ¬NextGetFails env w b := by
  rcases h with ⟨hlt, -⟩ | _ | _ | _ | ⟨hle, heof, hloads, hpos, -⟩
  · have hnot := not_le.mpr hlt
    exact ⟨⟨⟨fun hle ↦ absurd hle hnot, fun hle ↦ absurd hle hnot, fun hle ↦ absurd hle hnot⟩,
      fun hle ↦ absurd hle hnot⟩, fun hfails ↦ absurd hfails.1 hnot⟩
  · refine ⟨⟨⟨fun _ hmet ↦ ?_, fun _ _ b₁ w₁ hfails ↦ ?_, fun _ _ hthrows ↦ ?_⟩,
      fun _ _ b₁ w₁ hfinds hempty ↦ ?_⟩, ?_⟩
    · rw [heof] at hmet
      cases hmet
    · rw [hloads] at hfails
      cases hfails
    · rw [hloads] at hthrows
      cases hthrows
    · rw [hloads] at hfinds
      cases hfinds
      exact absurd hempty hpos.ne'
    · rintro ⟨-, -, b₁, w₁, hfails, -⟩
      rw [hloads] at hfails
      cases hfails

theorem along_succ_iff_of_stop {P : World → S3Streambuf → ℕ → Prop} (n : ℕ)
    (hstop : ∀ c b' w', S3Streambuf.sbumpc env w b ≠ .ok (some c, b', w')) :
    (Along env P w b p (n + 1) ↔ P w b p) ∧
      (GetFails env w b (n + 1) ↔ NextGetFails env w b) := by
  rw [Along, GetFails]
  refine ⟨and_iff_left fun c b' w' h ↦ absurd h (hstop c b' w'), or_iff_left ?_⟩
  rintro ⟨c, b', w', h, -⟩
  exact hstop c b' w' h

theorem along_succ_iff_of_some {P : World → S3Streambuf → ℕ → Prop} (n : ℕ) {c : UInt8}
    (h : S3Streambuf.sbumpc env w b = .ok (some c, b', w')) :
    (Along env P w b p (n + 1) ↔ P w b p ∧ Along env P w' b' (p + 1) n) ∧
      (GetFails env w b (n + 1) ↔ NextGetFails env w b ∨ GetFails env w' b' n) := by
  rw [Along, GetFails]
  constructor
  · refine and_congr_right fun _ ↦ ⟨fun hall ↦ hall c b' w' h, fun hrest c₁ b₁ w₁ h₁ ↦ ?_⟩
    rw [h] at h₁
    cases h₁
    exact hrest
  · refine or_congr_right ⟨?_, fun hrest ↦ ⟨c, b', w', h, hrest⟩⟩
    rintro ⟨c₁, b₁, w₁, h₁, hrest⟩
    rw [h] at h₁
    cases h₁
    exact hrest

end

theorem underflows_of_sbumpc_some {c : UInt8}
    (h : S3Streambuf.sbumpc env w b = .ok (some c, b', w')) :
    ∃ b₁, Underflows env w b (some c) b₁ w' := by
  rw [S3Streambuf.sbumpc] at h
  split at h
  · cases h
  · cases h
  · next hsome =>
    cases h
    exact ⟨_, underflows hsome⟩

theorem length_of_copy (n : ℕ) {data : Bytes} {stop : Stop}
    (h : b.copy env w n = .ok ((data, stop), b', w')) :
    (stop = .full → data.length = n) ∧ (stop ≠ .full → data.length < n) := by
  induction n generalizing w b data with
  | zero =>
    cases h
    exact ⟨fun _ ↦ rfl, fun hne ↦ absurd rfl hne⟩
  | succ n ih =>
    rw [copy] at h
    split at h
    · cases h
      exact ⟨nofun, fun _ ↦ Nat.succ_pos n⟩
    · cases h
    · cases h
      exact ⟨nofun, fun _ ↦ Nat.succ_pos n⟩
    · obtain ⟨⟨⟨data', stop'⟩, b₂, w₂⟩, hrest, heq⟩ := exists_of_map_eq_ok h
      cases heq
      obtain ⟨hfull, hshort⟩ := ih hrest
      rw [List.length_cons]
      exact ⟨fun hstop ↦ congrArg (· + 1) (hfull hstop),
        fun hstop ↦ Nat.succ_lt_succ (hshort hstop)⟩

/-- **A copy that returns** has met nothing wrong if no GET has failed and it has stopped for the
end of the object only; by induction on the bytes asked for. -/
theorem along_copy_iff (O : Bytes) {p : ℕ} {back : Option ℕ} (n : ℕ) {data : Bytes} {stop : Stop}
    (h : b.copy env w n = .ok ((data, stop), b', w')) :
    Along env (NextSound env O back) w b p n ∧ Along env (NextFilled env O) w b p n ↔
      ¬GetFails env w b n ∧ (stop = .eof → O.length ≤ p + data.length) ∧
        (stop = .threw → O.length ≤ back.getD (p + data.length)) := by
  induction n generalizing w b p data with
  | zero =>
    cases h
    exact iff_of_true ⟨trivial, trivial⟩ ⟨id, nofun, nofun⟩
  | succ n ih =>
    rw [copy] at h
    split at h
    · next hthrow =>
      cases h
      have hstop : ∀ c b' w', S3Streambuf.sbumpc env w b ≠ .ok (some c, b', w') := by simp [hthrow]
      rw [(along_succ_iff_of_stop n hstop).1, (along_succ_iff_of_stop n hstop).1,
        (along_succ_iff_of_stop (P := NextFilled env O) (p := p) n hstop).2,
        nextSound_iff_of_throw (underflow_of_sbumpc_error hthrow)]
      simp
    · cases h
    · next hnone =>
      cases h
      have hstop : ∀ c b' w', S3Streambuf.sbumpc env w b ≠ .ok (some c, b', w') := by simp [hnone]
      rw [(along_succ_iff_of_stop n hstop).1, (along_succ_iff_of_stop n hstop).1,
        (along_succ_iff_of_stop (P := NextFilled env O) (p := p) n hstop).2,
        nextSound_iff_of_none (underflows (underflow_of_sbumpc_none hnone))]
      simp
    · next c b₁ w₁ hsome =>
      obtain ⟨⟨⟨data', stop'⟩, b₂, w₂⟩, hrest, heq⟩ := exists_of_map_eq_ok h
      cases heq
      obtain ⟨b₀, hfound⟩ := underflows_of_sbumpc_some hsome
      have hnext : (NextSound env O back w b p ∧ NextFilled env O w b p) ∧
          ¬NextGetFails env w b := nextSound_of_some hfound
      obtain ⟨⟨hsound, hfilled⟩, hget⟩ := hnext
      have hlen : p + (c :: data').length = p + 1 + data'.length := by
        rw [List.length_cons]
        omega
      rw [(along_succ_iff_of_some n hsome).1, (along_succ_iff_of_some n hsome).1,
        (along_succ_iff_of_some (P := NextFilled env O) (p := p) n hsome).2, and_iff_right hsound,
        and_iff_right hfilled, or_iff_right hget, hlen]
      exact ih hrest

theorem not_getFails_of_full (n : ℕ) {data : Bytes}
    (h : b.copy env w n = .ok ((data, .full), b', w')) : ¬GetFails env w b n := by
  induction n generalizing w b data with
  | zero => exact id
  | succ n ih =>
    rw [copy] at h
    split at h
    · cases h
    · cases h
    · cases h
    · next c b₁ w₁ hsome =>
      obtain ⟨⟨⟨data', stop⟩, b₂, w₂⟩, hrest, heq⟩ := exists_of_map_eq_ok h
      cases heq
      obtain ⟨b₀, hfound⟩ := underflows_of_sbumpc_some hsome
      have hnext : (NextSound env [] none w b 0 ∧ NextFilled env [] w b 0) ∧
          ¬NextGetFails env w b := nextSound_of_some hfound
      rw [(along_succ_iff_of_some (P := NextFilled env []) (p := 0) n hsome).2,
        or_iff_right hnext.2]
      exact ih hrest

/-! ## Copies of an object -/

/-- Without the cache, windows without bytes are behind the end of the object; by induction on the
bytes asked for. -/
theorem along_filled (hserver : AnswersTruly env O) (hO : O.length < 2 ^ 64) (n : ℕ)
    (hb : Shows O b) (hoff : w.cache.enabled = false) :
    Along env (NextFilled env O) w b b.position n := by
  induction n generalizing w b with
  | zero => trivial
  | succ n ih =>
    refine ⟨fun hle _ b' w' hload hempty ↦ ?_, fun c b' w' hsome ↦ ?_⟩
    · obtain ⟨-, -, hend, -⟩ := shows_of_loadWindow hserver hoff hb.readAhead_pos
        (Nat.mod_lt _ (by decide) : b.next < 2 ^ 64) hb.start_lt hload
      exact (hb.next_eq hO hle).1 ▸ hend rfl hempty
    · obtain ⟨hb', hoff', hposition, -⟩ := hb.sbumpc hserver hO hoff hsome
      exact hposition ▸ ih hb' hoff'

/-- Without the cache, a copy that returns leaves a stream over the object, and has no byte that is
not of the object. -/
theorem shows_of_copy (hserver : AnswersTruly env O) (hO : O.length < 2 ^ 64) (n : ℕ)
    (hb : Shows O b) (hoff : w.cache.enabled = false) {data : Bytes} {stop : Stop}
    (h : b.copy env w n = .ok ((data, stop), b', w')) :
    Shows O b' ∧ (data ≠ [] → b.position + data.length ≤ O.length) := by
  induction n generalizing w b data with
  | zero =>
    cases h
    exact ⟨hb, fun hne ↦ absurd rfl hne⟩
  | succ n ih =>
    rw [copy] at h
    split at h
    · next hthrow =>
      cases h
      have hunderflow := underflow_of_sbumpc_error hthrow
      have hra := (error_of_loadWindow hoff (underflow_eq_lengthError hunderflow).2.2).2
      exact ⟨hb.cleared hra, fun hne ↦ absurd rfl hne⟩
    · cases h
    · next hnone =>
      cases h
      have hunderflows := underflows (underflow_of_sbumpc_none hnone)
      exact ⟨(hb.underflow hserver hO hoff hunderflows).1, fun hne ↦ absurd rfl hne⟩
    · next c b₁ w₁ hsome =>
      obtain ⟨⟨⟨data', stop'⟩, b₂, w₂⟩, hrest, heq⟩ := exists_of_map_eq_ok h
      cases heq
      obtain ⟨hb₁, hoff₁, hposition, hinside⟩ := hb.sbumpc hserver hO hoff hsome
      obtain ⟨hb', hdata⟩ := ih hb₁ hoff₁ hrest
      refine ⟨hb', fun _ ↦ ?_⟩
      rw [hposition] at hdata
      dsimp only
      rw [List.length_cons]
      rcases data' with _ | ⟨c', data'⟩
      · exact hinside
      · have hle := hdata (List.cons_ne_nil _ _)
        omega

/-- Without the cache, a copy comes to its end: it returns, or reads behind the window. -/
theorem copy_ne_hangs (hserver : AnswersTruly env O) (hO : O.length < 2 ^ 64) (n : ℕ)
    (hb : Shows O b) (hoff : w.cache.enabled = false) : b.copy env w n ≠ .error .hangs := by
  induction n generalizing w b with
  | zero => simp [copy]
  | succ n ih =>
    rw [copy]
    split
    · simp
    · next f hne hfault =>
      have hunderflow := underflow_of_sbumpc_error hfault
      rintro ⟨⟩
      rw [S3Streambuf.underflow] at hunderflow
      split at hunderflow
      · rw [current] at hunderflow
        split at hunderflow <;> cases hunderflow
      · split at hunderflow
        · cases hunderflow
        · split at hunderflow
          · next hload =>
            obtain rfl := Except.error.inj hunderflow
            cases (error_of_loadWindow hoff hload).1
          · cases hunderflow
          · split at hunderflow
            · cases hunderflow
            · rw [current] at hunderflow
              split at hunderflow <;> cases hunderflow
    · simp
    · next c b₁ w₁ hsome =>
      obtain ⟨hb₁, hoff₁, -⟩ := hb.sbumpc hserver hO hoff hsome
      exact fun h ↦ ih hb₁ hoff₁ (eq_error_of_map h)

theorem Shows.seekpos (hb : Shows O b) (hserver : AnswersTruly env O)
    (hoff : w.cache.enabled = false) {sp r : ℤ} {forInput : Bool}
    (h : Seeks env w b sp forInput r b' w') : Shows O b' ∧ w'.cache.enabled = false := by
  have htarget : toUint64 sp < 2 ^ 64 := by
    rw [toUint64]
    omega
  have harea := hb.area.seek h
  rcases h with _ | hin | ⟨-, hload⟩
  · exact ⟨hb, hoff⟩
  · exact ⟨⟨harea, hb.readAhead_pos, hb.start_lt, hb.fits, hb.eof⟩, hoff⟩
  · obtain ⟨hb', hoff', -⟩ := shows_of_loadWindow (w := { w with lastError := [] }) hserver hoff
      hb.readAhead_pos htarget hb.start_lt hload
    exact ⟨hb', hoff'⟩

theorem Shows.seekoff (hb : Shows O b) (hserver : AnswersTruly env O)
    (hoff : w.cache.enabled = false) {off r : ℤ} {dir : SeekDir} {forInput : Bool}
    (h : seekoff env w b off dir forInput = .ok (r, b', w')) :
    Shows O b' ∧ w'.cache.enabled = false := by
  obtain ⟨-, rfl, rfl⟩ | ⟨t, -, -, hseek⟩ := seekoff_cases h
  · exact ⟨hb, hoff⟩
  · exact hb.seekpos hserver hoff (seeks hseek)

theorem large_of_seekoff (hoff : w.cache.enabled = false) {off : ℤ} {dir : SeekDir}
    (h : S3Streambuf.seekoff env w b off dir true = .error .lengthError) :
    maxSize < b.readAhead := by
  rw [S3Streambuf.seekoff] at h
  split at h
  · cases h
  · dsimp only at h
    generalize (if dir = .cur then toInt64 b.curPos else 0) + off = t at h
    split at h
    · cases h
    · split at h
      · cases h
      · rw [S3Streambuf.seekpos, if_neg (by simp)] at h
        dsimp only at h
        split at h
        · cases h
        · exact (error_of_loadWindow (w := { w with lastError := [] }) hoff (eq_error_of_map h)).2

end

end S3Streambuf

namespace Reader

/-! ## Readers over an object -/

section

variable {env : Outside} {O : Bytes} {w w' : World} {r r' : Reader} {b : S3Streambuf}

/-- Every stream that a reader holds shows the object. -/
def ShowsObject (O : Bytes) (r : Reader) : Prop := ∀ b ∈ r.stream, Shows O b

theorem showsObject_some (hb : Shows O b) {eofbit failbit badbit : Bool} :
    ShowsObject O ⟨some b, eofbit, failbit, badbit⟩ := by
  rintro _ ⟨⟩
  exact hb

theorem showsObject_of_readSome (hserver : AnswersTruly env O) (hO : O.length < 2 ^ 64)
    (hr : ShowsObject O r) (hb : Shows O b) (hoff : w.cache.enabled = false) {n : ℕ} {data : Bytes}
    (h : r.readSome env w b n = .ok (data, r', w')) : ShowsObject O r' := by
  rw [readSome] at h
  split at h
  · cases h
    exact hr
  · split at h
    · cases h
    all_goals
      next hcopy =>
      cases h
      exact showsObject_some (shows_of_copy hserver hO n hb hoff hcopy).1

theorem showsObject_of_readAll (hserver : AnswersTruly env O) (hO : O.length < 2 ^ 64)
    (hb : Shows O b) (hoff : w.cache.enabled = false) {fuel : ℕ} {data : Bytes}
    (h : r.readAll env w b fuel = .ok (data, r', w')) : ShowsObject O r' := by
  rw [readAll] at h
  split at h
  · cases h
  · cases h
  · next hcopy =>
    cases h
    exact showsObject_some (shows_of_copy hserver hO fuel hb hoff hcopy).1

theorem showsObject_of_tellg (hserver : AnswersTruly env O) (hr : ShowsObject O r)
    (hb : Shows O b) (hoff : w.cache.enabled = false) {pos : ℤ}
    (h : r.tellg env w b = .ok (pos, r', w')) : ShowsObject O r' := by
  rw [tellg] at h
  split at h
  · cases h
    exact hr
  · split at h
    · next hthrow =>
      cases h
      exact showsObject_some (hb.cleared (large_of_seekoff hoff hthrow))
    · cases h
    · next hseek =>
      cases h
      exact showsObject_some (hb.seekoff hserver hoff hseek).1

theorem showsObject_of_tell (hserver : AnswersTruly env O) (hr : ShowsObject O r)
    (hoff : w.cache.enabled = false) {res : Except Bytes ℕ}
    (h : r.tell env w = .ok (res, r', w')) : ShowsObject O r' := by
  rw [tell] at h
  split at h
  · cases h
    exact hr
  · next b hstream =>
    obtain ⟨⟨pos, r₁, w₁⟩, htellg, heq⟩ := exists_of_map_eq_ok h
    cases heq
    exact showsObject_of_tellg hserver hr (hr b hstream) hoff htellg

theorem showsObject_of_seekg (hserver : AnswersTruly env O) (hr : ShowsObject O r)
    (hb : Shows O b) (hoff : w.cache.enabled = false) {offset : ℤ} {dir : SeekDir}
    (h : r.seekg env w b offset dir = .ok (r', w')) :
    ShowsObject O r' ∧ w'.cache.enabled = false := by
  rw [seekg] at h
  dsimp only at h
  split at h
  · cases h
    exact ⟨hr, hoff⟩
  · split at h
    · next hthrow =>
      cases h
      refine ⟨showsObject_some (hb.cleared (large_of_seekoff hoff hthrow)), ?_⟩
      rw [thrown, World.getCredentials,
        World.tryLoad_of_disabled (w := { w with lastError := [] }) hoff]
      exact hoff
    · cases h
    · next hseek =>
      cases h
      obtain ⟨hb', hoff'⟩ := hb.seekoff hserver hoff hseek
      exact ⟨showsObject_some hb', hoff'⟩

theorem showsObject_of_seek (hserver : AnswersTruly env O) (hr : ShowsObject O r)
    (hoff : w.cache.enabled = false) {offset whence : ℤ} {res : Except Bytes ℕ}
    (h : r.seek env w offset whence = .ok (res, r', w')) : ShowsObject O r' := by
  rw [seek] at h
  split at h
  · cases h
    exact hr
  · next b hstream =>
    dsimp only at h
    split at h
    · cases h
    · next r₁ w₁ hseekg =>
      obtain ⟨hr₁, hoff₁⟩ := showsObject_of_seekg hserver hr (hr b hstream) hoff hseekg
      split at h
      · cases h
        exact hr₁
      · exact showsObject_of_tell hserver hr₁ hoff₁ h

theorem showsObject_of_read (hserver : AnswersTruly env O) (hO : O.length < 2 ^ 64)
    (hr : ShowsObject O r) (hoff : w.cache.enabled = false) {fuel : ℕ} {size : Option ℤ}
    {res : Except Bytes Bytes} (h : r.read env w fuel size = .ok (res, r', w')) :
    ShowsObject O r' := by
  rw [read] at h
  split at h
  · cases h
    exact hr
  next b hstream =>
  have hb := hr b hstream
  have hall : ∀ {x : Except Bytes Bytes × Reader × World},
      (r.readAll env w b fuel).map (fun q ↦ (.ok q.1, q.2)) = .ok x → ShowsObject O x.2.1 := by
    intro x hx
    obtain ⟨⟨data, r₁, w₁⟩, hread, rfl⟩ := exists_of_map_eq_ok hx
    exact showsObject_of_readAll hserver hO hb hoff hread
  split at h
  · exact hall h
  · split at h
    · exact hall h
    · split at h
      · cases h
        exact hr
      · obtain ⟨⟨data, r₁, w₁⟩, hread, heq⟩ := exists_of_map_eq_ok h
        cases heq
        exact showsObject_of_readSome hserver hO hr hb hoff hread

/-- **A reader shows its object**, whatever calls it has been through. -/
theorem showsObject_of_reachable (hserver : AnswersTruly env O) (hO : O.length < 2 ^ 64)
    (hr : Reachable env r) : ShowsObject O r := by
  induction hr with
  | opened h =>
    rw [openReader] at h
    split at h
    · next hopen =>
      cases h
      obtain ⟨-, -, -, -, hreadAhead, hstart, hlen, hgptr, hegptr, heof⟩ := openStream_eq_some hopen
      have harea : Area _ := Area.of_reachable (.opened hopen)
      refine showsObject_some ⟨harea, ?_, by omega, fun h ↦ ?_, fun h ↦ ?_⟩
      · rw [hreadAhead]
        split <;> omega
      · omega
      · omega
    · cases h
  | read hr hoff h ih => exact showsObject_of_read hserver hO ih hoff h
  | seek hr hoff h ih => exact showsObject_of_seek hserver ih hoff h
  | tell hr hoff h ih => exact showsObject_of_tell hserver ih hoff h
  | close hr ih => exact nofun

end

end Reader

end Nanos3Reader
