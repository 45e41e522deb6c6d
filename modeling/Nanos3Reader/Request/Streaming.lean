import Nanos3Reader.Lib.Stdio
import Nanos3Reader.Request

/-!
# Bodies that are streamed

`upload_read` hands out a body piece by piece. It seeks a file once, before the first piece, and
then relies on where the reads have left it; by then the stream may stand anywhere, since the same
stream was read to hash the part, or by an attempt before. Here the stream is shown to be where it
should be at every read, and by `BodyFits.upload_eq` the callback without a stream that requests are
modelled with sends the same.
-/

open ByteText

namespace Nanos3Reader

/-- `struct Upload`, with its stream. What it counts are unsigned numbers of 64 bits. -/
structure StreamUpload where
  data : Bytes
  file : Option Stdio.File
  offset : UInt64
  len : UInt64
  pos : UInt64 := 0
  failed : Bool := false

/-- What the callback returns: some bytes, none at the end of the body, or `CURL_READFUNC_ABORT`. -/
inductive ReadResult
  | bytes (chunk : Bytes)
  | abort
deriving DecidableEq

def ReadResult.chunk : ReadResult → Bytes
  | bytes chunk => chunk
  | abort => []

namespace StreamUpload

/-- The stream a read uses. Only the first read seeks. -/
def stream (u : StreamUpload) (f : Stdio.File) (r : ReadCall) : Option Stdio.File :=
  if u.pos = 0 then f.seek u.offset.toNat r.seeks else some f

/-- `upload_read`. -/
def read (u : StreamUpload) (r : ReadCall) : ReadResult × StreamUpload :=
  let want := min r.capacity (u.len - u.pos).toNat
  if want = 0 then (.bytes [], u)
  else
    match u.file with
    | none =>
      (.bytes ((u.data.drop u.pos.toNat).take want), { u with pos := u.pos + UInt64.ofNat want })
    | some f =>
      match u.stream f r with
      | none => (.abort, { u with failed := true })
      | some f =>
        let (got, f) := f.read want r.short
        if got.length ≠ want then (.abort, { u with file := some f, failed := true })
        else (.bytes got, { u with file := some f, pos := u.pos + UInt64.ofNat got.length })

/-- The calls of one attempt, each with the state it leaves. An aborted transfer makes no more. -/
def attempt (u : StreamUpload) : List ReadCall → List (ReadResult × StreamUpload)
  | [] => []
  | r :: reads =>
    u.read r :: if (u.read r).1 = .abort then [] else (u.read r).2.attempt reads

/-- The state after an attempt. -/
def after (u : StreamUpload) : List ReadCall → StreamUpload
  | [] => u
  | r :: reads => if (u.read r).1 = .abort then (u.read r).2 else (u.read r).2.after reads

/-- The text from which the body is read. -/
def source (u : StreamUpload) : Bytes :=
  match u.file.map Stdio.File.content with
  | none => u.data
  | some content => content.drop u.offset.toNat

/-- The body. -/
def body (u : StreamUpload) : Bytes := u.source.take u.len.toNat

/-- What holds between two reads: `sent` is what has been handed out, the part of the body before
`pos`, and the stream stands behind it, unless nothing was read so far. -/
structure Streaming (u : StreamUpload) (sent : Bytes) : Prop where
  pos_le : u.pos.toNat ≤ u.len.toNat
  sent_eq : sent = u.source.take u.pos.toNat
  sent_length : sent.length = u.pos.toNat
  stands : ∀ f, u.file = some f → u.pos ≠ 0 → f.position = u.offset.toNat + u.pos.toNat
  memory : u.file = none → u.len.toNat ≤ u.data.length

/-- Two states read the same body. -/
structure SameBody (u v : StreamUpload) : Prop where
  data : v.data = u.data
  file : v.file.map Stdio.File.content = u.file.map Stdio.File.content
  offset : v.offset = u.offset
  len : v.len = u.len

theorem SameBody.refl (u : StreamUpload) : SameBody u u := ⟨rfl, rfl, rfl, rfl⟩

theorem SameBody.trans {u v w : StreamUpload} (h : SameBody u v) (h' : SameBody v w) :
    SameBody u w :=
  ⟨h'.data.trans h.data, h'.file.trans h.file, h'.offset.trans h.offset, h'.len.trans h.len⟩

theorem SameBody.source {u v : StreamUpload} (h : SameBody u v) : v.source = u.source := by
  rw [StreamUpload.source, StreamUpload.source, h.file, h.data, h.offset]

theorem SameBody.body {u v : StreamUpload} (h : SameBody u v) : v.body = u.body := by
  rw [StreamUpload.body, StreamUpload.body, h.source, h.len]

/-- A read of a file may fail: it cannot seek, the file is too short, or the read ends early. -/
def MayFail (u : StreamUpload) (r : ReadCall) : Prop :=
  r.seeks = false ∨ 2 ^ 63 ≤ u.offset.toNat ∨ r.short ≠ none ∨ u.source.length < u.len.toNat

theorem sub_pos_toNat {u : StreamUpload} (h : u.pos.toNat ≤ u.len.toNat) :
    (u.len - u.pos).toNat = u.len.toNat - u.pos.toNat :=
  UInt64.toNat_sub_of_le _ _ (UInt64.le_iff_toNat_le.mpr h)

theorem add_pos_toNat {u : StreamUpload} {n : ℕ} (h : u.pos.toNat + n ≤ u.len.toNat) :
    (u.pos + UInt64.ofNat n).toNat = u.pos.toNat + n := by
  have hlt := u.len.toNat_lt
  rw [UInt64.toNat_add, UInt64.toNat_ofNat_of_lt' (show n < 2 ^ 64 by omega),
    Nat.mod_eq_of_lt (by omega)]

theorem Streaming.advance {u v : StreamUpload} {sent chunk : Bytes} (h : u.Streaming sent) {n : ℕ}
    (hsame : SameBody u v) (hroom : u.pos.toNat + n ≤ u.len.toNat) (hlen : chunk.length = n)
    (hchunk : chunk = (u.source.drop u.pos.toNat).take n) (hpos : v.pos = u.pos + UInt64.ofNat n)
    (hstands : ∀ f, v.file = some f → f.position = u.offset.toNat + u.pos.toNat + n) :
    v.Streaming (sent ++ chunk) := by
  have hnat : v.pos.toNat = u.pos.toNat + n := hpos ▸ add_pos_toNat hroom
  refine ⟨by rw [hnat, hsame.len]; exact hroom, ?_, ?_, fun f hf _ ↦ ?_, fun hfile ↦ ?_⟩
  · rw [hnat, hsame.source, List.take_add, ← hchunk, ← h.sent_eq]
  · rw [List.length_append, h.sent_length, hnat, hlen]
  · rw [hstands f hf, hsame.offset, hnat, Nat.add_assoc]
  · have hnone : u.file = none := by
      have hcontent := hsame.file
      rw [hfile, Option.map_none, eq_comm, Option.map_eq_none_iff] at hcontent
      exact hcontent
    rw [hsame.len, hsame.data]
    exact h.memory hnone

theorem Streaming.stream_cases {u : StreamUpload} {sent : Bytes} (h : u.Streaming sent)
    {f : Stdio.File} (hfile : u.file = some f) (r : ReadCall) :
    (u.stream f r = none ∧ u.MayFail r) ∨
      u.stream f r = some ⟨f.content, u.offset.toNat + u.pos.toNat⟩ := by
  rw [stream]
  by_cases hfirst : u.pos = 0
  · rw [if_pos hfirst, Stdio.File.seek]
    split
    · exact .inr (by rw [hfirst]; rfl)
    · next hno =>
      rw [not_and_or, Bool.not_eq_true, Nat.not_lt] at hno
      exact .inl ⟨rfl, hno.elim .inl fun hbig ↦ .inr (.inl hbig)⟩
  · rw [if_neg hfirst, ← h.stands f hfile hfirst]
    exact .inr rfl

/-- **One read** ends the body, hands out more of it, or aborts. -/
theorem Streaming.read {u : StreamUpload} {sent : Bytes} (h : u.Streaming sent) {r : ReadCall}
    (hcap : 0 < r.capacity) :
    (u.pos = u.len ∧ u.read r = (.bytes [], u)) ∨
    (∃ chunk v, u.read r = (.bytes chunk, v) ∧ chunk ≠ [] ∧ v.Streaming (sent ++ chunk) ∧
      SameBody u v ∧ v.failed = u.failed) ∨
    ∃ v, u.read r = (.abort, v) ∧ v.failed = true ∧ v.pos = u.pos ∧ SameBody u v ∧
      u.MayFail r := by
  have hsub := sub_pos_toNat h.pos_le
  have hle := h.pos_le
  have hread := StreamUpload.read.eq_1 u r
  set want := min r.capacity (u.len - u.pos).toNat with hwant
  by_cases hzero : want = 0
  · rw [if_pos hzero] at hread
    exact .inl ⟨UInt64.toNat_inj.mp (by omega), hread⟩
  · rw [if_neg hzero] at hread
    have hroom : u.pos.toNat + want ≤ u.len.toNat := by omega
    refine .inr ?_
    cases hfile : u.file with
    | none =>
      rw [hfile] at hread
      have hsource : u.source = u.data := by rw [source, hfile, Option.map_none]
      have hlen : ((u.data.drop u.pos.toNat).take want).length = want := by
        have hmemory := h.memory hfile
        rw [List.length_take, List.length_drop]
        omega
      have hsame : SameBody u { u with file := none, pos := u.pos + UInt64.ofNat want } :=
        ⟨rfl, by rw [hfile], rfl, rfl⟩
      refine .inl ⟨_, _, hread, List.ne_nil_of_length_pos (by omega),
        h.advance hsame hroom hlen (by rw [hsource]) rfl ?_, hsame, rfl⟩
      intro f hf
      cases hf
    | some f =>
      rw [hfile] at hread
      have hsource : u.source = f.content.drop u.offset.toNat := by
        rw [source, hfile, Option.map_some]
      dsimp only at hread
      rcases h.stream_cases hfile r with ⟨hstream, hfail⟩ | hstream
      · rw [hstream] at hread
        exact .inr ⟨_, hread, rfl, rfl, ⟨rfl, by rw [hfile], rfl, rfl⟩, hfail⟩
      · rw [hstream] at hread
        dsimp only at hread
        set g : Stdio.File := ⟨f.content, u.offset.toNat + u.pos.toNat⟩ with hg
        have hsame (position : ℕ) (pos : UInt64) (failed : Bool) :
            SameBody u { u with file := some ⟨f.content, position⟩, pos, failed } :=
          ⟨rfl, by rw [hfile]; rfl, rfl, rfl⟩
        by_cases hgot : (g.read want r.short).1.length = want
        · rw [if_neg (by simpa using hgot)] at hread
          have hchunk := Stdio.File.read_of_length hgot
          refine .inl ⟨_, _, hread, List.ne_nil_of_length_pos (by omega),
            h.advance (hsame _ _ _) hroom hgot ?_ (by rw [hgot]) ?_, hsame _ _ _, rfl⟩
          · rw [hsource, List.drop_drop]
            exact hchunk
          · rintro f' hf'
            cases hf'
            rw [Stdio.File.position_read, hgot]
        · rw [if_pos hgot] at hread
          refine .inr ⟨_, hread, rfl, rfl, hsame _ _ _, ?_⟩
          by_contra hno
          simp only [MayFail, not_or, not_not, Nat.not_lt] at hno
          have hlong := hno.2.2.2
          rw [hsource, List.length_drop] at hlong
          refine hgot ((Stdio.File.length_read_eq_iff (by omega)).mpr ⟨?_, ?_⟩)
          · exact (show u.offset.toNat + u.pos.toNat + want ≤ f.content.length by omega)
          · exact fun n hn ↦ absurd (hno.2.2.1 ▸ hn) (by simp)

/-! ## Attempts -/

theorem length_attempt_le (u : StreamUpload) (reads : List ReadCall) :
    (u.attempt reads).length ≤ reads.length := by
  induction reads generalizing u with
  | nil => exact Nat.le_refl 0
  | cons r reads ih =>
    rw [attempt, List.length_cons, List.length_cons]
    split
    · exact Nat.succ_le_succ (Nat.zero_le _)
    · exact Nat.succ_le_succ (ih _)

/-- What has been handed out in a trace. -/
def chunks (trace : List (ReadResult × StreamUpload)) : Bytes :=
  (trace.map fun e ↦ e.1.chunk).flatten

/-- What the calls of an attempt do that go on from `u`, where `sent` has been handed out: they stay
within the body, hand out its beginning, and end only behind all of it. They note that they failed
just when they abort, which they do only if a read may fail; and enough of them come to an end. -/
structure Streamed (u : StreamUpload) (sent : Bytes) (reads : List ReadCall)
    (trace : List (ReadResult × StreamUpload)) : Prop where
  pos_le : ∀ e ∈ trace, e.2.pos ≤ u.len
  handed : sent ++ chunks trace <+: u.body
  whole : ∀ before v behind, trace = before ++ (.bytes [], v) :: behind →
    sent ++ chunks before = u.body ∧ u.body.length = u.len.toNat
  failed_iff : ∀ e ∈ trace, e.1 = .abort ↔ e.2.failed = true
  may_fail : ∀ e ∈ trace, e.1 = .abort → ∃ r ∈ reads, u.MayFail r
  ends : u.body.length < sent.length + reads.length →
    ∃ e ∈ trace, e.1 = .bytes [] ∨ e.1 = .abort
  same : ∀ e ∈ trace, SameBody u e.2

theorem SameBody.mayFail {u v : StreamUpload} (h : SameBody u v) {r : ReadCall}
    (hfail : v.MayFail r) : u.MayFail r := by
  rwa [MayFail, h.source, h.len, h.offset] at hfail

theorem Streaming.handed {u : StreamUpload} {sent : Bytes} (h : u.Streaming sent) :
    sent <+: u.body := by
  rw [h.sent_eq, body]
  exact List.take_prefix_take_left h.pos_le

theorem chunks_cons (e : ReadResult × StreamUpload) (trace : List (ReadResult × StreamUpload)) :
    chunks (e :: trace) = e.1.chunk ++ chunks trace := rfl

theorem chunks_append (trace more : List (ReadResult × StreamUpload)) :
    chunks (trace ++ more) = chunks trace ++ chunks more := by
  rw [chunks, List.map_append, List.flatten_append]
  rfl

theorem Streamed.cons {u v : StreamUpload} {sent chunk : Bytes} {r : ReadCall}
    {reads : List ReadCall} {trace : List (ReadResult × StreamUpload)}
    (h : v.Streamed (sent ++ chunk) reads trace) (hsame : SameBody u v) (hpos : v.pos ≤ u.len)
    (hok : v.failed = false) (hend : chunk = [] → sent = u.body ∧ u.body.length = u.len.toNat) :
    u.Streamed sent (r :: reads) ((.bytes chunk, v) :: trace) := by
  have hchunks : sent ++ chunks ((.bytes chunk, v) :: trace) = sent ++ chunk ++ chunks trace := by
    rw [chunks_cons, ReadResult.chunk, List.append_assoc]
  have hhanded : sent ++ chunk ++ chunks trace <+: u.body := hsame.body ▸ h.handed
  refine ⟨?_, hchunks ▸ hhanded, ?_, ?_, ?_, ?_, ?_⟩
  · rintro e he
    rcases List.mem_cons.mp he with rfl | he
    · exact hpos
    · exact hsame.len ▸ h.pos_le e he
  · rintro before w behind heq
    cases before with
    | nil =>
      have hbytes := congrArg Prod.fst (List.cons.inj heq).1
      rw [chunks, List.map_nil, List.flatten_nil, List.append_nil]
      exact hend (ReadResult.bytes.inj hbytes)
    | cons e before =>
      obtain ⟨rfl, htrace⟩ := List.cons.inj heq
      obtain ⟨hall, hlen⟩ := h.whole before w behind htrace
      rw [chunks_cons, ReadResult.chunk, ← List.append_assoc, ← hsame.body, ← hsame.len]
      exact ⟨hall, hlen⟩
  · rintro e he
    rcases List.mem_cons.mp he with rfl | he
    · simp [hok]
    · exact h.failed_iff e he
  · rintro e he habort
    rcases List.mem_cons.mp he with rfl | he
    · cases habort
    · obtain ⟨q, hq, hfail⟩ := h.may_fail e he habort
      exact ⟨q, List.mem_cons_of_mem _ hq, hsame.mayFail hfail⟩
  · intro hmany
    by_cases hnil : chunk = []
    · exact ⟨_, List.mem_cons_self, .inl (by rw [hnil])⟩
    · have hpositive := List.length_pos_of_ne_nil hnil
      rw [List.length_cons] at hmany
      obtain ⟨e, he, hends⟩ := h.ends (by rw [hsame.body, List.length_append]; omega)
      exact ⟨e, List.mem_cons_of_mem _ he, hends⟩
  · rintro e he
    rcases List.mem_cons.mp he with rfl | he
    · exact hsame
    · exact hsame.trans (h.same e he)

/-- **An attempt streams the body**, by induction on its calls. -/
theorem Streaming.streamed {u : StreamUpload} {sent : Bytes} (h : u.Streaming sent)
    (hfailed : u.failed = false) {reads : List ReadCall} (hcap : ∀ r ∈ reads, 0 < r.capacity) :
    u.Streamed sent reads (u.attempt reads) := by
  induction reads generalizing u sent with
  | nil =>
    refine ⟨by simp [StreamUpload.attempt], ?_, by simp [StreamUpload.attempt],
      by simp [StreamUpload.attempt], by simp [StreamUpload.attempt], fun hlt ↦ ?_,
      by simp [StreamUpload.attempt]⟩
    · simpa [StreamUpload.attempt, chunks] using h.handed
    · exact absurd h.handed.length_le (by simpa using hlt)
  | cons r reads ih =>
    have hcap' : ∀ r ∈ reads, 0 < r.capacity := fun q hq ↦ hcap q (List.mem_cons_of_mem _ hq)
    rw [StreamUpload.attempt]
    rcases h.read (hcap r List.mem_cons_self) with ⟨hend, hread⟩ |
      ⟨chunk, v, hread, hne, hv, hsame, hok⟩ | ⟨v, hread, hbad, hpos, hsame, hfail⟩
    · have hall : sent = u.body := by rw [h.sent_eq, hend, body]
      have hlen : u.body.length = u.len.toNat := by rw [← hall, h.sent_length, hend]
      rw [hread, if_neg (by simp)]
      have hrest := ih h hfailed hcap'
      rw [← List.append_nil sent] at hrest
      exact hrest.cons (.refl u) (hend ▸ UInt64.le_refl _) hfailed fun _ ↦ ⟨hall, hlen⟩
    · rw [hread, if_neg (by simp)]
      have hle : v.pos ≤ u.len := hsame.len ▸ UInt64.le_iff_toNat_le.mpr hv.pos_le
      exact (ih hv (hok.trans hfailed) hcap').cons hsame hle (hok.trans hfailed) fun hnil ↦
        absurd hnil hne
    · rw [hread, if_pos rfl]
      refine ⟨?_, ?_, ?_, ?_, ?_, ?_, ?_⟩
      · simpa [hpos] using UInt64.le_iff_toNat_le.mpr h.pos_le
      · simpa [chunks, ReadResult.chunk] using h.handed
      · rintro before w behind heq
        rcases List.cons_eq_append_iff.mp heq with ⟨-, hcons⟩ | ⟨rest, -, hnil⟩
        · cases hcons
        · simp at hnil
      · simpa using hbad
      · exact fun _ _ _ ↦ ⟨r, List.mem_cons_self, hfail⟩
      · exact fun _ ↦ ⟨_, List.mem_cons_self, .inr rfl⟩
      · simpa using hsame

/-! ## The callback without a stream -/

/-- The state without the stream. -/
def toUpload (u : StreamUpload) (sent : Bytes) : Upload :=
  { data := u.data
    file := u.file.map fun f ↦ ⟨f.content, u.offset.toNat, u.len.toNat⟩
    len := u.len.toNat
    pos := u.pos.toNat
    failed := u.failed
    sent }

/-- A seek to an offset that `off_t` cannot hold is one that fails. -/
def seekable (u : StreamUpload) (r : ReadCall) : ReadCall :=
  { r with seeks := r.seeks && decide (u.offset.toNat < 2 ^ 63) }

theorem stream_eq_none_iff (u : StreamUpload) (f : Stdio.File) (r : ReadCall) :
    u.stream f r = none ↔ u.pos.toNat = 0 ∧ (u.seekable r).seeks = false := by
  have hfirst : u.pos.toNat = 0 ↔ u.pos = 0 := UInt64.toNat_inj (b := 0)
  rw [stream, Stdio.File.seek, seekable, hfirst]
  split <;> simp_all

theorem uploadRead_toUpload {u : StreamUpload} {sent : Bytes} (h : u.Streaming sent)
    (hfailed : u.failed = false) (r : ReadCall) :
    uploadRead (u.toUpload sent) (u.seekable r)
      = (u.read r).2.toUpload (sent ++ (u.read r).1.chunk) := by
  have hsub := sub_pos_toNat h.pos_le
  have hread := StreamUpload.read.eq_1 u r
  rw [uploadRead]
  simp only [toUpload, hfailed, Bool.false_eq_true, false_or,
    show (u.seekable r).capacity = r.capacity from rfl]
  rw [hsub] at hread
  set want := min r.capacity (u.len.toNat - u.pos.toNat) with hwant
  by_cases hzero : want = 0
  · rw [if_pos hzero] at hread
    simp [hread, hzero, hfailed, ReadResult.chunk]
  · rw [if_neg hzero] at hread
    rw [if_neg hzero]
    have hroom : u.pos.toNat + want ≤ u.len.toNat := by omega
    cases hfile : u.file with
    | none =>
      rw [hfile] at hread
      simp [hread, ReadResult.chunk, add_pos_toNat hroom, hfailed]
    | some f =>
      rw [hfile] at hread
      dsimp only [Option.map_some] at hread ⊢
      rcases h.stream_cases hfile r with ⟨hstream, -⟩ | hstream
      · rw [if_pos ((u.stream_eq_none_iff f r).mp hstream)]
        rw [hstream] at hread
        simp [hread, ReadResult.chunk]
      · rw [if_neg fun hno ↦ by simp [(u.stream_eq_none_iff f r).mpr hno] at hstream]
        rw [hstream] at hread
        set got := Stdio.File.read ⟨f.content, u.offset.toNat + u.pos.toNat⟩ want r.short with hgot
        have hfread : fread (u.seekable r) f.content (u.offset.toNat + u.pos.toNat) want = got.1 :=
          rfl
        rw [hfread]
        dsimp only at hread
        rw [← hgot] at hread
        by_cases hwhole : got.1.length = want
        · rw [if_neg (not_not.mpr hwhole), hwhole] at hread
          rw [if_neg (not_not.mpr hwhole), hwhole]
          simp [hread, ReadResult.chunk, add_pos_toNat hroom, hfailed, hgot]
        · rw [if_pos hwhole] at hread
          rw [if_pos hwhole]
          simp [hread, ReadResult.chunk, hgot]

theorem foldl_uploadRead_of_failed {U : Upload} (h : U.failed = true) (reads : List ReadCall) :
    reads.foldl uploadRead U = U := by
  induction reads with
  | nil => rfl
  | cons r reads ih => rw [List.foldl_cons, uploadRead, if_pos (.inl h), ih]

/-- **The two callbacks agree over an attempt.** -/
theorem Streaming.foldl_uploadRead {u : StreamUpload} {sent : Bytes} (h : u.Streaming sent)
    (hfailed : u.failed = false) {reads : List ReadCall} (hcap : ∀ r ∈ reads, 0 < r.capacity) :
    (reads.map u.seekable).foldl uploadRead (u.toUpload sent)
      = (u.after reads).toUpload (sent ++ chunks (u.attempt reads)) := by
  induction reads generalizing u sent with
  | nil => simp [StreamUpload.after, StreamUpload.attempt, chunks]
  | cons r reads ih =>
    have hcap' : ∀ r ∈ reads, 0 < r.capacity := fun q hq ↦ hcap q (List.mem_cons_of_mem _ hq)
    rw [List.map_cons, List.foldl_cons, uploadRead_toUpload h hfailed, StreamUpload.after,
      StreamUpload.attempt]
    rcases h.read (hcap r List.mem_cons_self) with ⟨hend, hread⟩ |
      ⟨chunk, v, hread, -, hv, hsame, hok⟩ | ⟨v, hread, hbad, hpos, hsame, hfail⟩
    · rw [hread, if_neg (by simp), if_neg (by simp), chunks_cons]
      simpa [ReadResult.chunk] using ih h hfailed hcap'
    · have hseek : u.seekable = v.seekable := funext fun q ↦ by
        rw [seekable, seekable, hsame.offset]
      rw [hread, if_neg (by simp), if_neg (by simp), chunks_cons, hseek, ← List.append_assoc]
      exact ih hv (hok.trans hfailed) hcap'
    · rw [hread, if_pos rfl, if_pos rfl, chunks_cons]
      simp only [ReadResult.chunk, List.nil_append, chunks, List.map_nil, List.flatten_nil]
      exact foldl_uploadRead_of_failed hbad _

end StreamUpload

/-! ## The attempts of a request -/

namespace Call

/-- Its numbers are unsigned numbers of 64 bits. -/
structure BodyFits (call : Call) : Prop where
  bodyLen_lt : call.bodyLen < 2 ^ 64
  offset_lt : ∀ f, call.bodyFile = some f → f.offset < 2 ^ 64

/-- The fresh `Upload` of an attempt, on a stream that stands at `position`. -/
def streamUpload (call : Call) (position : ℕ) : StreamUpload :=
  { data := call.body
    file := call.bodyFile.map fun f ↦ ⟨f.content, position⟩
    offset := UInt64.ofNat (call.bodyFile.elim 0 BodyFile.offset)
    len := UInt64.ofNat call.bodyLen }

/-- The attempts of a request one after the other, on one stream. One that could not read the body
is the last. -/
def streams (call : Call) (position : ℕ) :
    List (List ReadCall) → List (List (ReadResult × StreamUpload))
  | [] => []
  | reads :: attempts =>
    let u := call.streamUpload position
    u.attempt reads ::
      if (u.after reads).failed then []
      else call.streams ((u.after reads).file.elim position Stdio.File.position) attempts

theorem BodyFits.len_toNat {call : Call} (h : call.BodyFits) (position : ℕ) :
    (call.streamUpload position).len.toNat = call.bodyLen :=
  UInt64.toNat_ofNat_of_lt' h.bodyLen_lt

theorem BodyFits.offset_toNat {call : Call} (h : call.BodyFits) {f : BodyFile}
    (hfile : call.bodyFile = some f) : (UInt64.ofNat f.offset).toNat = f.offset :=
  UInt64.toNat_ofNat_of_lt' (h.offset_lt f hfile)

/-- It reads the payload of the call, wherever the stream stands. -/
theorem BodyFits.body_eq {call : Call} (h : call.BodyFits) (position : ℕ) :
    (call.streamUpload position).body = call.payload := by
  rw [StreamUpload.body, h.len_toNat, StreamUpload.source, payload, bodyLen]
  cases hfile : call.bodyFile with
  | none => simp [streamUpload, hfile]
  | some f => simp [streamUpload, hfile, h.offset_toNat hfile]

theorem BodyFits.streaming {call : Call} (h : call.BodyFits) (position : ℕ) :
    (call.streamUpload position).Streaming [] := by
  refine ⟨Nat.zero_le _, rfl, rfl, fun f hf hpos ↦ absurd rfl hpos, fun hfile ↦ ?_⟩
  have hnone : call.bodyFile = none := by simpa [streamUpload] using hfile
  rw [h.len_toNat, bodyLen, hnone]
  exact Nat.le_refl _

theorem BodyFits.streamed_of_mem {call : Call} (h : call.BodyFits) {position : ℕ}
    {attempts : List (List ReadCall)} (hcap : ∀ reads ∈ attempts, ∀ r ∈ reads, 0 < r.capacity)
    {trace : List (ReadResult × StreamUpload)} (htrace : trace ∈ call.streams position attempts) :
    ∃ start, ∃ reads ∈ attempts, trace = (call.streamUpload start).attempt reads ∧
      (call.streamUpload start).Streamed [] reads trace := by
  induction attempts generalizing position with
  | nil => cases htrace
  | cons reads attempts ih =>
    rw [streams] at htrace
    rcases List.mem_cons.mp htrace with rfl | hmore
    · exact ⟨position, reads, List.mem_cons_self, rfl,
        (h.streaming position).streamed rfl (hcap reads List.mem_cons_self)⟩
    · split at hmore
      · cases hmore
      · obtain ⟨start, reads', hmem, hstreamed⟩ :=
          ih (fun q hq ↦ hcap q (List.mem_cons_of_mem _ hq)) hmore
        exact ⟨start, reads', List.mem_cons_of_mem _ hmem, hstreamed⟩

/-- **What is sent**, and whether the file failed, are those of a request that is modelled without a
stream. -/
theorem BodyFits.upload_eq {call : Call} (h : call.BodyFits) (hmethod : call.isPut || call.isPost)
    (position : ℕ) {reads : List ReadCall} (hcap : ∀ r ∈ reads, 0 < r.capacity) :
    call.upload (reads.map (call.streamUpload position).seekable)
      = ((call.streamUpload position).after reads).toUpload
          (StreamUpload.chunks ((call.streamUpload position).attempt reads)) := by
  have hagree := (h.streaming position).foldl_uploadRead rfl hcap
  rw [List.nil_append] at hagree
  rw [upload, if_pos hmethod, ← hagree]
  congr 1
  rw [StreamUpload.toUpload, h.len_toNat]
  cases hfile : call.bodyFile with
  | none => simp [streamUpload, hfile]
  | some f => simp [streamUpload, hfile, h.offset_toNat hfile, bodyLen]

/-- **Bodies are streamed whole or not at all.** In every attempt of a request, on a stream that
hashing or another attempt has left anywhere: no more is handed out than the body has, and what is
handed out is its beginning; the end is returned behind all of it only; a call that aborts notes
that the file failed, and none other does; and an attempt that calls often enough has either handed
out the whole body, in its full length, or aborted. -/
theorem streams_body {call : Call} (hfits : call.BodyFits) (position : ℕ)
    {attempts : List (List ReadCall)} (hcap : ∀ reads ∈ attempts, ∀ r ∈ reads, 0 < r.capacity) :
    ∀ trace ∈ call.streams position attempts,
      (∀ e ∈ trace, e.2.pos ≤ e.2.len ∧ e.2.len.toNat = call.bodyLen) ∧
      StreamUpload.chunks trace <+: call.payload ∧
      (∀ before v behind, trace = before ++ (.bytes [], v) :: behind →
        StreamUpload.chunks before = call.payload ∧ call.payload.length = call.bodyLen) ∧
      (∀ e ∈ trace, e.1 = .abort ↔ e.2.failed = true) ∧
      (call.payload.length < trace.length →
        (StreamUpload.chunks trace = call.payload ∧ call.payload.length = call.bodyLen) ∨
          ∃ e ∈ trace, e.1 = .abort ∧ e.2.failed = true) := by
  intro trace htrace
  obtain ⟨start, reads, -, heq, h⟩ := hfits.streamed_of_mem hcap htrace
  have hbody := hfits.body_eq start
  have hlen := hfits.len_toNat start
  have hhanded : StreamUpload.chunks trace <+: call.payload := hbody ▸ h.handed
  have hwhole := h.whole
  rw [hbody, hlen] at hwhole
  refine ⟨fun e he ↦ ?_, hhanded, hwhole, h.failed_iff, fun hmany ↦ ?_⟩
  · rw [(h.same e he).len]
    exact ⟨h.pos_le e he, hlen⟩
  · have hreads : trace.length ≤ reads.length := heq ▸ StreamUpload.length_attempt_le _ reads
    obtain ⟨e, he, hbytes | habort⟩ := h.ends (by rw [hbody, List.length_nil]; omega)
    · obtain ⟨before, behind, hsplit⟩ := List.append_of_mem he
      have hend : e = (.bytes [], e.2) := Prod.ext hbytes rfl
      obtain ⟨hall, hfull⟩ := hwhole before e.2 behind (hend ▸ hsplit)
      refine .inl ⟨hhanded.eq_of_length_le ?_, hfull⟩
      rw [← hall, List.nil_append, hsplit, StreamUpload.chunks_append, List.length_append]
      exact Nat.le_add_right _ _
    · exact .inr ⟨e, he, habort, (h.failed_iff e he).mp habort⟩

/-- Three bytes of a file, behind an attempt that got two of them. -/
def filePart : Call :=
  { method := utf8 "PUT", bucket := utf8 "b"
    bodyFile := some { content := [1, 2, 3, 4, 5], offset := 1, len := 3 } }

def filePartReads : List (List ReadCall) := [[⟨2, true, none⟩], [⟨2, true, none⟩, ⟨2, true, none⟩]]

theorem filePart_streamed :
    (filePart.streams 4 filePartReads).map StreamUpload.chunks = [[2, 3], [2, 3, 4]] ∧
    ∀ trace ∈ filePart.streams 4 filePartReads,
      StreamUpload.chunks trace <+: [2, 3, 4] ∧ ∀ e ∈ trace, e.2.pos ≤ e.2.len := by
  have hfits : filePart.BodyFits := ⟨by decide, by decide⟩
  have hcap : ∀ reads ∈ filePartReads, ∀ r ∈ reads, 0 < r.capacity := by decide
  refine ⟨by decide +kernel, fun trace htrace ↦ ?_⟩
  have h := streams_body hfits 4 hcap trace htrace
  exact ⟨h.2.1, fun e he ↦ (h.1 e he).1⟩

end Call

end Nanos3Reader
