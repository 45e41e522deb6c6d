import Nanos3Reader.Lib.Buffer
import Nanos3Reader.Retries

/-!
# Range reads in memory

`read_range` hands the caller's buffer to libcurl's write callback, which copies each piece of the
body behind the one before. This file follows the copies: the buffer is memory of a fixed size, a
copy that leaves it faults, and the numbers that guard the copies wrap around at 64 bits. No
sequence of responses, cut into pieces in whatever way, makes a copy fault, and a range read is true
exactly if the last response filled the buffer.
-/

open ByteText

namespace Nanos3Reader

/-- The difference of two `std::size_t`. -/
def sizeSub (a b : ℕ) : ℕ := (a + 2 ^ 64 - b) % 2 ^ 64

/-- `Sink` of a range read: the memory that `dst` points to and how many bytes are written to it. -/
structure DstSink where
  memory : Bytes
  dstLen : ℕ := 0
  text : Bytes := []
  overflow : Bool := false

/-- `sink_write` of a piece of a body, into memory; `none` when it writes outside. -/
def sinkWriteInto (dstCap code : ℕ) (s : DstSink) (chunk : Bytes) : Option DstSink :=
  if s.overflow then some s
  else if code = 206 then
    if sizeSub dstCap s.dstLen < chunk.length then some { s with overflow := true }
    else
      (Buffer.write s.memory s.dstLen chunk).map fun memory ↦
        { s with memory, dstLen := (s.dstLen + chunk.length) % 2 ^ 64 }
  else if kClientTextCap < s.text.length + chunk.length then some { s with overflow := true }
  else some { s with text := s.text ++ chunk }

/-- One attempt of a range read into `memory`. -/
def attemptInto (dstCap : ℕ) (memory : Bytes) (t : Transfer) : Option DstSink :=
  t.chunks.foldlM (sinkWriteInto dstCap t.code) { memory }

/-- Attempt after attempt, each with a sink of its own and into the same memory. -/
def attemptsInto (dstCap : ℕ) (memory : Bytes) (ts : List Transfer) : Option Bytes :=
  ts.foldlM (fun memory t ↦ (attemptInto dstCap memory t).map DstSink.memory) memory

/-! ## Pieces of a body -/

/-- `s` has written to `memory` what the sink `a` collects: no more than the buffer holds, from its
start on. -/
structure DstSink.Holds (memory : Bytes) (s : DstSink) (a : Sink) : Prop where
  memory_eq : s.memory = a.dst ++ memory.drop a.dst.length
  dstLen_eq : s.dstLen = a.dst.length
  dstLen_le : s.dstLen ≤ memory.length
  text_eq : s.text = a.text
  overflow_eq : s.overflow = a.overflow

theorem sizeSub_of_le {a b : ℕ} (ha : a < 2 ^ 64) (h : b ≤ a) : sizeSub a b = a - b := by
  rw [sizeSub, Nat.add_comm a, Nat.add_sub_assoc h, Nat.add_mod_left]
  exact Nat.mod_eq_of_lt (by omega)

theorem DstSink.holds_initial (memory : Bytes) : DstSink.Holds memory { memory } {} :=
  ⟨rfl, rfl, Nat.zero_le _, rfl, rfl⟩

/-- **No piece is written outside the buffer**, and each is written behind the one before. -/
theorem DstSink.Holds.write {memory : Bytes} (hcap : memory.length < 2 ^ 64) {s : DstSink}
    {a : Sink} (h : s.Holds memory a) (code : ℕ) (chunk : Bytes) :
    ∃ s', sinkWriteInto memory.length code s chunk = some s' ∧
      s'.Holds memory (sinkWrite (some memory.length) code a chunk) := by
  obtain ⟨written, dstLen, text, overflow⟩ := s
  obtain ⟨rfl, rfl, hle, rfl, rfl⟩ := h
  dsimp only at hle
  rw [sinkWriteInto, sinkWrite]
  dsimp only
  split
  · exact ⟨_, rfl, rfl, rfl, hle, rfl, rfl⟩
  · by_cases hcode : code = 206
    · have hfilter : (some memory.length).filter (fun _ ↦ decide (code = 206))
          = some memory.length := by
        simp [hcode]
      rw [if_pos hcode, hfilter]
      dsimp only
      -- `dst_len` is within the buffer, so the difference is what is left of it
      rw [sizeSub_of_le hcap hle]
      split
      · exact ⟨_, rfl, rfl, rfl, hle, rfl, rfl⟩
      · next hroom =>
        have hrest : chunk.length ≤ (memory.drop a.dst.length).length := by
          rw [List.length_drop]
          omega
        have hlen : (a.dst.length + chunk.length) % 2 ^ 64 = (a.dst ++ chunk).length := by
          rw [List.length_append]
          exact Nat.mod_eq_of_lt (by omega)
        rw [Buffer.write_append hrest]
        refine ⟨_, rfl, by simp, hlen, ?_, rfl, rfl⟩
        dsimp only
        rw [hlen, List.length_append]
        omega
    · have hfilter : (some memory.length).filter (fun _ ↦ decide (code = 206)) = none := by
        simp [hcode]
      rw [if_neg hcode, hfilter]
      dsimp only
      split
      · exact ⟨_, rfl, rfl, rfl, hle, rfl, rfl⟩
      · exact ⟨_, rfl, rfl, rfl, hle, rfl, rfl⟩

theorem DstSink.Holds.writes {memory : Bytes} (hcap : memory.length < 2 ^ 64) (code : ℕ)
    (chunks : List Bytes) {s : DstSink} {a : Sink} (h : s.Holds memory a) :
    ∃ s', chunks.foldlM (sinkWriteInto memory.length code) s = some s' ∧
      s'.Holds memory (chunks.foldl (sinkWrite (some memory.length) code) a) := by
  induction chunks generalizing s a with
  | nil => exact ⟨s, rfl, h⟩
  | cons chunk chunks ih =>
    obtain ⟨s₁, hwrite, hs₁⟩ := h.write hcap code chunk
    obtain ⟨s', hwrites, hs'⟩ := ih hs₁
    exact ⟨s', by rw [List.foldlM_cons, hwrite]; exact hwrites, hs'⟩

theorem length_of_holds {memory : Bytes} {s : DstSink} {a : Sink} (h : s.Holds memory a) :
    s.memory.length = memory.length := by
  have hle := h.dstLen_le
  rw [h.dstLen_eq] at hle
  rw [h.memory_eq, List.length_append, List.length_drop]
  omega

/-- An attempt leaves in memory what the reply counts as read, and the rest as it was. -/
theorem exists_attemptInto {memory : Bytes} (hcap : memory.length < 2 ^ 64) {call : Call}
    (hdst : call.dstCap = some memory.length) (t : Transfer) :
    ∃ s, attemptInto memory.length memory t = some s ∧ s.dstLen ≤ memory.length ∧
      s.memory.length = memory.length ∧ s.dstLen = (call.receive t).dst.length ∧
      s.memory = (call.receive t).dst ++ memory.drop (call.receive t).dst.length := by
  obtain ⟨s, hs, hholds⟩ := (DstSink.holds_initial memory).writes hcap t.code t.chunks
  rw [← hdst] at hholds
  exact ⟨s, hs, hholds.dstLen_le, length_of_holds hholds, hholds.dstLen_eq, hholds.memory_eq⟩

theorem exists_attemptsInto {call : Call} {n : ℕ} (hdst : call.dstCap = some n)
    (hcap : n < 2 ^ 64) (ts : List Transfer) {memory : Bytes} (hlen : memory.length = n) :
    ∃ memory', attemptsInto n memory ts = some memory' ∧ memory'.length = n ∧
      ∀ t ∈ ts.getLast?, (call.receive t).dst <+: memory' := by
  induction ts generalizing memory with
  | nil => exact ⟨memory, rfl, hlen, by simp⟩
  | cons t ts ih =>
    subst hlen
    obtain ⟨s, hs, -, hlength, -, hmemory⟩ := exists_attemptInto hcap hdst t
    obtain ⟨memory', hrest, hlength', hlast⟩ := ih hlength
    refine ⟨memory', ?_, hlength', fun u hu ↦ ?_⟩
    · rw [attemptsInto, List.foldlM_cons, hs]
      exact hrest
    · cases ts with
      | nil =>
        cases hrest
        cases hu
        exact ⟨_, hmemory.symm⟩
      | cons t' ts =>
        rw [List.getLast?_cons_cons] at hu
        exact hlast u hu

/-! ## Complete bodies -/

theorem foldl_sinkWrite_overflow {dstCap : Option ℕ} {code : ℕ} {a : Sink}
    (h : a.overflow = true) (chunks : List Bytes) :
    chunks.foldl (sinkWrite dstCap code) a = a := by
  induction chunks with
  | nil => rfl
  | cons chunk chunks ih => rw [List.foldl_cons, sinkWrite, if_pos h, ih]

theorem foldl_sinkWrite_206 {n : ℕ} (chunks : List Bytes) {a : Sink} (hover : a.overflow = false)
    (hle : a.dst.length ≤ n) :
    ((chunks.foldl (sinkWrite (some n) 206) a).overflow = false ↔
        a.dst.length + chunks.flatten.length ≤ n) ∧
      ((chunks.foldl (sinkWrite (some n) 206) a).overflow = false →
        (chunks.foldl (sinkWrite (some n) 206) a).dst = a.dst ++ chunks.flatten) := by
  induction chunks generalizing a with
  | nil => simpa [hover] using hle
  | cons chunk chunks ih =>
    have hwrite : sinkWrite (some n) 206 a chunk
        = if n - a.dst.length < chunk.length then { a with overflow := true }
          else { a with dst := a.dst ++ chunk } := by
      rw [sinkWrite, if_neg (by simp [hover])]
      rfl
    rw [List.foldl_cons, hwrite, List.flatten_cons, List.length_append]
    split
    · rw [foldl_sinkWrite_overflow rfl]
      refine ⟨iff_of_false (by simp) (by omega), by simp⟩
    · next hroom =>
      have hlen : (a.dst ++ chunk).length = a.dst.length + chunk.length := List.length_append
      obtain ⟨hiff, hdst⟩ := ih (a := { a with dst := a.dst ++ chunk }) hover (by
        dsimp only
        omega)
      rw [hiff]
      dsimp only at hdst ⊢
      rw [hlen]
      refine ⟨by omega, fun h ↦ ?_⟩
      rw [hdst (hiff.mpr (by dsimp only; omega)), List.append_assoc]

/-- The reply to a range read is complete exactly if the body fills the buffer. -/
theorem receive_complete {bucket key : Bytes} {offset n : ℕ} {t : Transfer} (hcode : t.code = 206) :
    (((readRangeCall bucket key offset n).receive t).overflow = false ∧
        ((readRangeCall bucket key offset n).receive t).dst.length = n ↔
      t.chunks.flatten.length = n) ∧
    (((readRangeCall bucket key offset n).receive t).overflow = false →
      ((readRangeCall bucket key offset n).receive t).dst = t.chunks.flatten) := by
  have hreceive : (readRangeCall bucket key offset n).receive t
      = { (readRangeCall bucket key offset n).receive t with
          overflow := (t.chunks.foldl (sinkWrite (some n) 206) {}).overflow
          dst := (t.chunks.foldl (sinkWrite (some n) 206) {}).dst } := by
    rw [← hcode]
    rfl
  obtain ⟨hfits, hdst⟩ := foldl_sinkWrite_206 (n := n) t.chunks (a := {}) rfl (Nat.zero_le _)
  rw [hreceive]
  dsimp only
  refine ⟨?_, by simpa using hdst⟩
  constructor
  · rintro ⟨hover, hlen⟩
    rw [← hlen, hdst hover]
    rfl
  · intro hlen
    have hover := hfits.mpr (by simp only [List.length_nil]; omega)
    exact ⟨hover, by rw [hdst hover]; exact hlen⟩

namespace ClientImpl

/-- `read_range` into memory; `none` when it writes outside. -/
def readRangeInto (im : ClientImpl) (env : Outside) (w : World) (uri : Bytes) (offset : ℕ)
    (memory : Bytes) : Option (Outcome Bytes × World) :=
  match im.readRangeStart uri offset memory.length true with
  | .error e => some (⟨false, memory, e⟩, w)
  | .ok none => some (⟨true, memory, []⟩, w)
  | .ok (some call) =>
    match im.run env w call with
    | (.error e, w') => some (⟨false, memory, e⟩, w')
    | (.ok r, w') =>
      let ts := (requestExchanges env im.cfg im.fixedCreds w call).map Exchange.outcome
      (attemptsInto memory.length memory ts).map fun memory' ↦
        let out := readRangeFinish env.strerror uri offset memory.length r
        (⟨out.ok, memory', out.error⟩, w')

/-- The outcome of the last attempt of a range read, if there was one. -/
def lastOutcome (im : ClientImpl) (env : Outside) (w : World) (uri : Bytes) (offset n : ℕ) :
    Option Transfer :=
  match im.readRangeStart uri offset n true with
  | .ok (some call) =>
    (requestExchanges env im.cfg im.fixedCreds w call).getLast?.map Exchange.outcome
  | _ => none

theorem ok_readRangeFinish {strerror : CurlCode → Bytes} {uri : Bytes} {offset n : ℕ} {r : Reply} :
    (readRangeFinish strerror uri offset n r).ok = true ↔
      r.overflow = false ∧ r.rc = .ok ∧ r.code = 206 ∧ r.dst.length = n := by
  rw [readRangeFinish]
  split
  · next hrc =>
    refine iff_of_false (by simp) fun h ↦ ?_
    simp [h.1, h.2.1] at hrc
  · next hrc =>
    obtain ⟨hover, hok⟩ := not_or.mp hrc
    split
    · next hcode => simp [hcode]
    · split
      · next hcode => simp [hcode]
      · split
        · next hlen => simp [hlen]
        · next hlen => simp_all

theorem out_readRangeFinish (strerror : CurlCode → Bytes) (uri : Bytes) (offset n : ℕ)
    (r : Reply) : (readRangeFinish strerror uri offset n r).out = r.dst := by
  rw [readRangeFinish]
  split
  · rfl
  · split
    · rfl
    · split
      · rfl
      · split <;> rfl

/-- A range read that starts asks for its bytes, and these have offsets of 64 bits. -/
theorem of_readRangeStart {im : ClientImpl} {uri : Bytes} {offset n : ℕ} {call : Call}
    (h : im.readRangeStart uri offset n true = .ok (some call)) (hn : n < 2 ^ 64) :
    offset + n - 1 < 2 ^ 64 ∧ ∃ bucket key, call = readRangeCall bucket key offset n := by
  rw [readRangeStart] at h
  split at h
  · cases h
  · split at h
    · cases h
    · split at h
      · cases h
      · split at h
        · cases h
        · next hfits =>
          cases h
          exact ⟨by omega, _, _, rfl⟩

theorem readRangeStart_ne_none {im : ClientImpl} {uri : Bytes} {offset n : ℕ} (hpos : 0 < n) :
    im.readRangeStart uri offset n true ≠ .ok none := by
  rw [readRangeStart]
  split
  · simp
  · rw [if_neg (Nat.ne_of_gt hpos), if_neg (by simp)]
    split <;> simp

/-- The memory of a range read is what its reply says, whatever the attempts before the last one
left there. -/
theorem exists_readRangeInto (im : ClientImpl) (env : Outside) (w : World) (uri : Bytes)
    (offset : ℕ) {memory : Bytes} (hn : memory.length < 2 ^ 64) :
    ∃ memory', im.readRangeInto env w uri offset memory
        = some (⟨(im.readRange env w uri offset memory.length true).1.ok, memory',
            (im.readRange env w uri offset memory.length true).1.error⟩,
          (im.readRange env w uri offset memory.length true).2) ∧
      memory'.length = memory.length ∧
      (im.readRange env w uri offset memory.length true).1.out <+: memory' := by
  rw [readRangeInto, readRange]
  cases hstart : im.readRangeStart uri offset memory.length true with
  | error e => exact ⟨memory, rfl, rfl, List.nil_prefix⟩
  | ok start =>
    cases start with
    | none => exact ⟨memory, rfl, rfl, List.nil_prefix⟩
    | some call =>
      obtain ⟨-, bucket, key, rfl⟩ := of_readRangeStart hstart hn
      dsimp only
      rcases hrun : im.run env w (readRangeCall bucket key offset memory.length) with ⟨e | r, w'⟩
      · exact ⟨memory, rfl, rfl, List.nil_prefix⟩
      · obtain ⟨memory', hinto, hlength, hlast⟩ := exists_attemptsInto
          (show (readRangeCall bucket key offset memory.length).dstCap = _ from rfl) hn
          ((requestExchanges env im.cfg im.fixedCreds w
            (readRangeCall bucket key offset memory.length)).map Exchange.outcome) rfl
        obtain ⟨x, hx, rfl⟩ := runRequest_eq_ok.mp (congrArg Prod.fst hrun)
        dsimp only
        rw [hinto]
        refine ⟨memory', rfl, hlength, ?_⟩
        rw [out_readRangeFinish]
        refine hlast x.outcome ?_
        rw [List.getLast?_map, Option.mem_def.mp hx]
        rfl

/-- **A range read is exact.** -/
theorem ok_readRange_iff (im : ClientImpl) {env : Outside} {w : World} {uri : Bytes}
    {offset n : ℕ} (hpos : 0 < n) (hn : n < 2 ^ 64) :
    ((im.readRange env w uri offset n true).1.ok = true ↔
        offset + n - 1 < 2 ^ 64 ∧ ∃ t ∈ im.lastOutcome env w uri offset n,
          t.rc = .ok ∧ t.code = 206 ∧ t.chunks.flatten.length = n) ∧
      ∀ t ∈ im.lastOutcome env w uri offset n,
        (im.readRange env w uri offset n true).1.ok = true →
        (im.readRange env w uri offset n true).1.out = t.chunks.flatten := by
  rw [lastOutcome, readRange]
  cases hstart : im.readRangeStart uri offset n true with
  | error e => simp
  | ok start =>
    cases start with
    | none => exact absurd hstart (readRangeStart_ne_none hpos)
    | some call =>
      obtain ⟨hfits, bucket, key, rfl⟩ := of_readRangeStart hstart hn
      dsimp only
      rcases hrun : im.run env w (readRangeCall bucket key offset n) with ⟨e | r, w'⟩
      · have hnone : (requestExchanges env im.cfg im.fixedCreds w
            (readRangeCall bucket key offset n)).getLast? = none := by
          rw [Option.eq_none_iff_forall_not_mem]
          intro x hx
          have hok := runRequest_eq_ok.mpr ⟨x, hx, rfl⟩
          rw [run] at hrun
          rw [hrun] at hok
          cases hok
        simp [hnone]
      · obtain ⟨x, hx, rfl⟩ := runRequest_eq_ok.mp (congrArg Prod.fst hrun)
        have hrc : ((readRangeCall bucket key offset n).receive x.outcome).rc = x.outcome.rc := rfl
        rw [Option.mem_def.mp hx]
        simp only [Option.map_some, Option.mem_def, Option.some.injEq, exists_eq_left', forall_eq',
          ok_readRangeFinish, out_readRangeFinish, hrc]
        constructor
        · constructor
          · rintro ⟨hover, hok, hcode, hlen⟩
            exact ⟨hfits, hok, hcode, (receive_complete hcode).1.mp ⟨hover, hlen⟩⟩
          · rintro ⟨-, hok, hcode, hlen⟩
            obtain ⟨hover, hlen'⟩ := (receive_complete hcode).1.mpr hlen
            exact ⟨hover, hok, hcode, hlen'⟩
        · rintro ⟨hover, -, hcode, -⟩
          exact (receive_complete hcode).2 hover

end ClientImpl

/-- **A range read is exact and in bounds.** No sequence of responses, however their bodies are cut
into pieces, makes `read_range` write outside its buffer or count more bytes than it has; and for at
least one byte it returns true exactly if the range ends within 64 bits, a request was made, and the
last attempt completed with a 206 whose body is as long as the buffer. The body is then what is in
the buffer. -/
theorem readRange_exact {im : ClientImpl} {env : Outside} {w : World} {uri : Bytes} {offset : ℕ}
    {memory : Bytes} (hn : memory.length < 2 ^ 64) :
    (∀ t, ∃ s, attemptInto memory.length memory t = some s ∧ s.dstLen ≤ memory.length ∧
      s.memory.length = memory.length) ∧
    (∀ ts, ∃ memory', attemptsInto memory.length memory ts = some memory' ∧
      memory'.length = memory.length) ∧
    ∃ out w', im.readRangeInto env w uri offset memory = some (out, w') ∧
      (0 < memory.length →
        (out.ok = true ↔ offset + memory.length - 1 < 2 ^ 64 ∧
          ∃ t ∈ im.lastOutcome env w uri offset memory.length,
            t.rc = .ok ∧ t.code = 206 ∧ t.chunks.flatten.length = memory.length) ∧
        ∀ t ∈ im.lastOutcome env w uri offset memory.length,
          out.ok = true → out.out = t.chunks.flatten) := by
  refine ⟨fun t ↦ ?_, fun ts ↦ ?_, ?_⟩
  · obtain ⟨s, hs, hle, hlength, -⟩ := exists_attemptInto hn
      (show (readRangeCall [] [] offset memory.length).dstCap = _ from rfl) t
    exact ⟨s, hs, hle, hlength⟩
  · obtain ⟨memory', hinto, hlength, -⟩ := exists_attemptsInto
      (show (readRangeCall [] [] offset memory.length).dstCap = _ from rfl) hn ts rfl
    exact ⟨memory', hinto, hlength⟩
  · obtain ⟨memory', hinto, hlength, hpre⟩ := im.exists_readRangeInto env w uri offset hn
    refine ⟨_, _, hinto, fun hpos ↦ ?_⟩
    obtain ⟨hiff, hbody⟩ := im.ok_readRange_iff hpos hn
    refine ⟨hiff, fun t ht hok ↦ ?_⟩
    -- the whole buffer is written
    obtain ⟨-, u, hu, -, -, hlen⟩ := hiff.mp hok
    obtain rfl := Option.mem_unique ht hu
    have heq := hpre.eq_of_length (by rw [hbody t ht hok, hlen, hlength])
    exact heq.symm.trans (hbody t ht hok)

/-- Five bytes of which a first attempt brings three. -/
theorem readRange_breaksOff : ∃ out w',
    ClientImpl.usEast.readRangeInto breaksOff { provider := .create [] } (utf8 "s3://b/k") 0
      [0, 0, 0, 0, 0] = some (out, w') ∧ out.ok = true ∧ out.out = utf8 "whole" := by
  obtain ⟨-, -, out, w', hinto, hexact⟩ := @readRange_exact ClientImpl.usEast breaksOff
    { provider := .create [] } (utf8 "s3://b/k") 0 [0, 0, 0, 0, 0] (by decide)
  obtain ⟨hiff, hbody⟩ := hexact (by decide)
  have hlast : (ClientImpl.usEast.lastOutcome breaksOff { provider := .create [] }
      (utf8 "s3://b/k") 0 5).map (fun t ↦ (t.rc, t.code, t.chunks.flatten))
      = some (.ok, 206, utf8 "whole") := by decide +kernel
  obtain ⟨t, ht, hwhole⟩ := Option.map_eq_some_iff.mp hlast
  simp only [Prod.mk.injEq] at hwhole
  obtain ⟨hrc, hcode, hbytes⟩ := hwhole
  have hok : out.ok = true := hiff.mpr ⟨by decide, t, ht, hrc, hcode, by rw [hbytes]; decide⟩
  exact ⟨out, w', hinto, hok, (hbody t ht hok).trans hbytes⟩

end Nanos3Reader
