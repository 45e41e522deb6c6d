import Mathlib.Algebra.Order.Floor.Div
import Nanos3Reader.MultipartUpload

/-!
# The plan of a multipart upload

`put_file` decides from the size of the file and the part size asked for how many parts there are
and which bytes each of them has. All of it is 64-bit arithmetic, and one addition in it can wrap:
that of the two numbers just named, in the rounding up that gives the number of parts.
-/

open ByteText

namespace Nanos3Reader

/-! ## The part size -/

theorem kMiB_eq : kMiB = 1048576 := by decide

theorem max_le_partSizeFor (size requested : ℕ) :
    max requested kMinPartSize ≤ partSizeFor size requested := by
  rw [partSizeFor, kMiB_eq]
  split
  · omega
  · exact le_rfl

theorem partSizeFor_le (size requested : ℕ) :
    partSizeFor size requested ≤ max requested (2 ^ 62) := by
  rw [partSizeFor, kMinPartSize, kMiB_eq, kMaxParts]
  split <;> omega

theorem le_mul_partSizeFor {size : ℕ} (requested : ℕ) (h : size + kMaxParts < 2 ^ 64) :
    size ≤ kMaxParts * partSizeFor size requested := by
  rw [partSizeFor, kMinPartSize, kMiB_eq]
  rw [kMaxParts] at h ⊢
  split <;> omega

namespace FileUpload

variable (u : FileUpload)

/-- No 64-bit operation of the plan wraps: those of `part_size_for`, the number of parts, what a
worker computes for a part, and the number of threads to start. -/
structure NoWrap : Prop where
  needed : u.size + kMaxParts < 2 ^ 64
  rounded : (u.size + kMaxParts - 1) / kMaxParts + kMiB < 2 ^ 64
  raised : ((u.size + kMaxParts - 1) / kMaxParts + kMiB - 1) / kMiB * kMiB < 2 ^ 64
  count : u.size + u.partSize < 2 ^ 64
  offset : ∀ i < u.parts, i * u.partSize < 2 ^ 64
  left : ∀ i < u.parts, u.offset i ≤ u.size
  number : ∀ i < u.parts, i + 1 < 2 ^ 64
  started : 1 ≤ u.threads

/-- A plan as S3 wants it: no more than 10,000 parts, one after the other, of one size that is at
least 5 MiB except for the last. -/
structure GoodPlan : Prop where
  one_le : 1 ≤ u.parts
  le : u.parts ≤ kMaxParts
  starts : u.offset 0 = 0
  pos : ∀ i < u.parts, 0 < u.partLen i
  follows : ∀ i, i + 1 < u.parts → u.offset (i + 1) = u.offset i + u.partLen i
  ends : ∀ i, i + 1 = u.parts → u.offset i + u.partLen i = u.size
  equal : ∀ i, i + 1 < u.parts → u.partLen i = u.partSize ∧ kMinPartSize ≤ u.partLen i
  noWrap : u.NoWrap

variable {u}

theorem parts_eq_ceilDiv (h : u.size + u.partSize < 2 ^ 64) : u.parts = u.size ⌈/⌉ u.partSize := by
  rw [parts, Nat.ceilDiv_eq_add_pred_div, Nat.mod_eq_of_lt (by omega)]

theorem lt_parts_iff (h : u.size + u.partSize < 2 ^ 64) {i : ℕ} :
    i < u.parts ↔ u.offset i < u.size := by
  rw [parts_eq_ceilDiv h, ← not_le, ceilDiv_le_iff_le_mul u.partSize_pos, not_le, offset,
    Nat.mul_comm]

theorem goodPlan_of_lt (hpos : 1 ≤ u.size) (hlt : u.size < 2 ^ 63)
    (hsum : u.size + u.partSize < 2 ^ 64) : u.GoodPlan := by
  have hmax : kMaxParts = 10000 := rfl
  have hin : ∀ {i}, i < u.parts ↔ u.offset i < u.size := lt_parts_iff hsum
  have hle : u.parts ≤ kMaxParts := by
    rw [parts_eq_ceilDiv hsum, ceilDiv_le_iff_le_mul u.partSize_pos, Nat.mul_comm]
    exact le_mul_partSizeFor _ (by omega)
  have hone : 1 ≤ u.parts := hin.mpr (by rw [offset, Nat.zero_mul]; exact hpos)
  have hnext : ∀ i, u.offset (i + 1) = u.offset i + u.partSize := fun i ↦ Nat.succ_mul i u.partSize
  -- a part that another one follows is a whole one
  have hwhole : ∀ i, i + 1 < u.parts → u.partLen i = u.partSize := by
    intro i hi
    have hstart := hin.mp hi
    rw [hnext] at hstart
    rw [partLen]
    omega
  constructor
  case one_le => exact hone
  case le => exact hle
  case starts => exact Nat.zero_mul _
  case pos =>
    intro i hi
    have hstart := hin.mp hi
    have hsize := u.partSize_pos
    rw [partLen]
    omega
  case follows =>
    intro i hi
    rw [hnext, hwhole i hi]
  case ends =>
    intro i hi
    have hstart := hin.mp (show i < u.parts by omega)
    have hend := mt hin.mpr (show ¬i + 1 < u.parts by omega)
    rw [hnext] at hend
    rw [partLen]
    omega
  case equal =>
    intro i hi
    rw [hwhole i hi]
    exact ⟨rfl, (le_max_right _ _).trans (max_le_partSizeFor _ _)⟩
  case noWrap =>
    constructor
    case needed => omega
    case rounded => rw [hmax, kMiB_eq]; omega
    case raised => rw [hmax, kMiB_eq]; omega
    case count => exact hsum
    case offset =>
      intro i hi
      have hstart := hin.mp hi
      rw [FileUpload.offset] at hstart
      omega
    case left => exact fun i hi ↦ (hin.mp hi).le
    case number => intro i hi; omega
    case started => exact u.threads_pos hone

/-- **The part plan** is good exactly when the file's size and the part size asked for do not add up
to a number that 64 bits cannot hold. -/
theorem goodPlan_iff (hpos : 1 ≤ u.size) (hlt : u.size < 2 ^ 63) :
    u.GoodPlan ↔ u.size + u.options.partSize < 2 ^ 64 := by
  constructor
  · intro h
    -- the part size asked for is not lowered, so a sum that wraps with it wraps in the plan
    have hle : u.options.partSize ≤ u.partSize :=
      (le_max_left _ _).trans (max_le_partSizeFor _ _)
    have hcount := h.noWrap.count
    omega
  · intro h
    have hle : u.partSize ≤ max u.options.partSize (2 ^ 62) := partSizeFor_le _ _
    exact goodPlan_of_lt hpos hlt (by omega)

/-- Two bytes, to be sent in parts of at most `2 ^ 64 - 1`: there are no parts. -/
def twoBytes : FileUpload where
  im := .usEast
  uri := utf8 "s3://b/k"
  bucket := utf8 "b"
  key := utf8 "k"
  file := { path := utf8 "/f", content := [1, 2], size_lt := by decide }
  options := { multipartThreshold := 1, partSize := 2 ^ 64 - 1 }

theorem not_goodPlan_twoBytes : ¬ ∀ u : FileUpload, 1 ≤ u.size → u.size < 2 ^ 63 →
    u.options.partSize < 2 ^ 64 → u.GoodPlan := by
  intro hall
  have hone := (hall twoBytes (by decide) (by decide) (by decide)).one_le
  exact absurd hone (by decide)

theorem length_oneByteMore : (List.replicate (kMinPartSize + 1) 7 : Bytes).length < 2 ^ 64 := by
  rw [List.length_replicate]
  decide

/-- A file with one byte more than there is room for in a part. -/
def twoParts : FileUpload where
  im := .usEast
  uri := utf8 "s3://bucket/key"
  bucket := utf8 "bucket"
  key := utf8 "key"
  file := ⟨utf8 "/tmp/f", List.replicate (kMinPartSize + 1) 7, length_oneByteMore⟩
  options := { multipartThreshold := 1, partSize := 1 }

theorem size_twoParts : twoParts.size = kMinPartSize + 1 := List.length_replicate

theorem parts_twoParts : twoParts.parts = 2 := by
  rw [parts, partSize, size_twoParts]
  decide

theorem goodPlan_twoParts : twoParts.parts = 2 ∧ twoParts.GoodPlan := by
  have hsize := size_twoParts
  have hmin : kMinPartSize = 5242880 := by decide
  refine ⟨parts_twoParts, (goodPlan_iff (by omega) (by omega)).mpr ?_⟩
  rw [hsize]
  decide

end FileUpload

end Nanos3Reader
