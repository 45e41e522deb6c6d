import Nanos3Reader.Lib.Stdio
import Nanos3Reader.MultipartUpload
import Nanos3Reader.Sha256.Standard

/-!
# Hashing a file

A part of a file that is to be uploaded with a signed payload is read once before, to hash it. The
bundled back end takes it in chunks of 1 MiB, and no chunk boundary shows in the result.
-/

open ByteText

namespace Nanos3Reader

/-- The size of the buffer that `sha256_file_hex` reads into. -/
def kHashBuffer : ℕ := 1 <<< 20

namespace S3v4

/-- The loop of `sha256_file_hex`, with `left` bytes to go; `reads` tells which of its reads end
early. -/
def hashChunks (h : Sha256) (f : Stdio.File) (left : ℕ) (reads : ℕ → Option ℕ) :
    Option Sha256 × Stdio.File :=
  if _hleft : left = 0 then (some h, f)
  else
    let n := min kHashBuffer left
    let (got, f) := f.read n (reads 0)
    if got.length ≠ n then (none, f)
    else hashChunks (h.update got) f (left - n) fun i ↦ reads (i + 1)
termination_by left
decreasing_by
  simp only [kHashBuffer]
  omega

/-- `sha256_file_hex` of the bundled back end, on an open file. -/
def fileHex (f : Stdio.File) (offset len : ℕ) (seeks : Bool) (reads : ℕ → Option ℕ) :
    Option Bytes × Stdio.File :=
  (f.seek offset seeks).elim (none, f) fun f ↦
    let hashed := hashChunks .fresh f len reads
    (hashed.1.map fun h ↦ hexEncode h.finish, hashed.2)

theorem kHashBuffer_pos : 0 < kHashBuffer := by decide

/-- **The loop hashes the bytes before it**, by recursion over its chunks. -/
theorem hashChunks_of_readable {h : Sha256} {f : Stdio.File} {left : ℕ} {reads : ℕ → Option ℕ}
    (hread : f.Readable kHashBuffer left reads) :
    (hashChunks h f left reads).1 = some (h.update ((f.content.drop f.position).take left)) := by
  fun_induction hashChunks h f left reads with
  | case1 h f reads => rw [List.take_zero, Sha256.update_nil]
  | case2 h f left reads hleft n got g hgot hshort =>
    have hfirst := ((Stdio.File.readable_iff kHashBuffer_pos (Nat.pos_of_ne_zero hleft)).mp hread).1
    rw [hgot] at hfirst
    exact absurd hfirst hshort
  | case3 h f left reads hleft n got g hgot hwhole ih =>
    obtain ⟨hfirst, hrest⟩ :=
      (Stdio.File.readable_iff kHashBuffer_pos (Nat.pos_of_ne_zero hleft)).mp hread
    have hchunk := Stdio.File.read_of_length hfirst
    have hcontent := Stdio.File.content_read f n (reads 0)
    have hposition := Stdio.File.position_read f n (reads 0)
    rw [hfirst] at hposition
    rw [show f.read n (reads 0) = (got, g) from hgot] at hcontent hposition
    rw [hgot] at hchunk hrest
    have hsplit : got ++ (f.content.drop (f.position + n)).take (left - n)
        = (f.content.drop f.position).take left := by
      rw [show got = (f.content.drop f.position).take n from hchunk, ← List.drop_drop,
        ← List.take_add, Nat.add_sub_cancel' (Nat.min_le_right _ _)]
    rw [ih hrest, hcontent, hposition, ← Sha256.update_append, ← hsplit]

theorem hashChunks_of_not_readable {h : Sha256} {f : Stdio.File} {left : ℕ} {reads : ℕ → Option ℕ}
    (hread : ¬ f.Readable kHashBuffer left reads) : (hashChunks h f left reads).1 = none := by
  fun_induction hashChunks h f left reads with
  | case1 h f reads => exact absurd (f.readable_zero _ _) hread
  | case2 => rfl
  | case3 h f left reads hleft n got g hgot hwhole ih =>
    refine ih fun hrest ↦ hread ?_
    rw [Stdio.File.readable_iff kHashBuffer_pos (Nat.pos_of_ne_zero hleft),
      show f.read (min kHashBuffer left) (reads 0) = (got, g) from hgot]
    exact ⟨not_not.mp hwhole, hrest⟩

/-- `len` bytes can be read at `offset`: the stream can be set there, and brings them. -/
def CanRead (f : Stdio.File) (offset len : ℕ) (seeks : Bool) (reads : ℕ → Option ℕ) : Prop :=
  ∃ g, f.seek offset seeks = some g ∧ g.Readable kHashBuffer len reads

theorem fileHex_of_canRead {f : Stdio.File} {offset len : ℕ} {seeks : Bool} {reads : ℕ → Option ℕ}
    (h : CanRead f offset len seeks reads) : (fileHex f offset len seeks reads).1
      = some (sha256Hex sha256Raw ((f.content.drop offset).take len)) := by
  obtain ⟨g, hseek, hread⟩ := h
  obtain ⟨-, -, rfl⟩ := Stdio.File.seek_eq_some_iff.mp hseek
  rw [fileHex, hseek, Option.elim_some]
  dsimp only
  rw [hashChunks_of_readable hread]
  rfl

theorem fileHex_of_not_canRead {f : Stdio.File} {offset len : ℕ} {seeks : Bool}
    {reads : ℕ → Option ℕ} (h : ¬ CanRead f offset len seeks reads) :
    (fileHex f offset len seeks reads).1 = none := by
  rw [fileHex]
  cases hseek : f.seek offset seeks with
  | none => rfl
  | some g =>
    dsimp only [Option.elim_some]
    rw [hashChunks_of_not_readable fun hread ↦ h ⟨g, hseek, hread⟩]
    rfl

theorem length_of_canRead {f : Stdio.File} {offset len : ℕ} {seeks : Bool} {reads : ℕ → Option ℕ}
    (h : CanRead f offset len seeks reads) : ((f.content.drop offset).take len).length = len := by
  obtain ⟨g, hseek, hread⟩ := h
  obtain ⟨-, -, rfl⟩ := Stdio.File.seek_eq_some_iff.mp hseek
  rw [List.length_take, List.length_drop]
  rcases Nat.eq_zero_or_pos len with rfl | hpos
  · exact Nat.zero_min _
  · have hholds := hread.holds hpos
    dsimp only at hholds
    omega

theorem fileHex_refines (file : LocalFile) (position offset len : ℕ) (seeks : Bool)
    (reads : ℕ → Option ℕ) : ∃ works, (fileHex ⟨file.content, position⟩ offset len seeks reads).1
      = sha256FileHex sha256Raw file offset len works := by
  by_cases h : CanRead ⟨file.content, position⟩ offset len seeks reads
  · refine ⟨true, ?_⟩
    rw [fileHex_of_canRead h, sha256FileHex, if_pos ⟨rfl, length_of_canRead h⟩]
  · refine ⟨false, ?_⟩
    rw [fileHex_of_not_canRead h, sha256FileHex, if_neg fun hreads ↦ Bool.false_ne_true hreads.1]

/-- **The bundled SHA-256 is SHA-256 for every cut into pieces**, and a range of a file either
cannot be read or has the hash of its bytes. -/
theorem sha256_whole :
    (∀ (m : Bytes) (pieces : List Bytes), m.length < 2 ^ 61 → pieces.flatten = m →
      (pieces.foldl Sha256.update {}).finish = Sha2.digest m) ∧
    ∀ (f : Stdio.File) (offset len : ℕ) (seeks : Bool) (reads : ℕ → Option ℕ),
      let slice := (f.content.drop offset).take len
      let hashed := (fileHex f offset len seeks reads).1
      (hashed = none ∧ ¬ CanRead f offset len seeks reads) ∨
        (hashed = some (sha256Hex sha256Raw slice) ∧ slice.length = len) := by
  refine ⟨?_, fun f offset len seeks reads ↦ ?_⟩
  · rintro m pieces hm rfl
    exact Sha256.finish_pieces pieces hm
  · by_cases h : CanRead f offset len seeks reads
    · exact .inr ⟨fileHex_of_canRead h, length_of_canRead h⟩
    · exact .inl ⟨fileHex_of_not_canRead h, h⟩

/-- One byte, behind an update with nothing. -/
theorem sha256_letter : ([[], utf8 "a"].foldl Sha256.update {}).finish = Sha2.digest (utf8 "a") :=
  sha256_whole.1 (utf8 "a") [[], utf8 "a"] (by decide) (by decide)

end S3v4

end Nanos3Reader
