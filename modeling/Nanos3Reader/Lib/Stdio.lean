import Nanos3Reader.Lib.ByteText

/-!
# Open files

A C stream remembers where the next read begins. Whoever shares it may have moved that place, so
that what a read returns is known only behind a seek, and behind the reads since.
-/

open ByteText

namespace Stdio

/-- What a file holds, and where the next read begins. -/
structure File where
  content : Bytes
  position : ℕ
deriving DecidableEq

namespace File

/-- `fseeko` from the start of the file. It does not take an offset that `off_t` cannot hold, and it
may not work at all. -/
def seek (f : File) (offset : ℕ) (works : Bool) : Option File :=
  if works ∧ offset < 2 ^ 63 then some { f with position := offset } else none

/-- `fread` of `want` bytes, which an error may end after `short` of them. -/
def read (f : File) (want : ℕ) (short : Option ℕ) : Bytes × File :=
  let available := (f.content.drop f.position).take want
  let got := match short with
    | none => available
    | some n => available.take n
  (got, { f with position := f.position + got.length })

theorem seek_eq_some_iff {f g : File} {offset : ℕ} {works : Bool} :
    f.seek offset works = some g
      ↔ works = true ∧ offset < 2 ^ 63 ∧ g = ⟨f.content, offset⟩ := by
  rw [seek]
  split
  · next h =>
    rw [Option.some.injEq]
    exact ⟨fun heq ↦ ⟨h.1, h.2, heq.symm⟩, fun heq ↦ heq.2.2.symm⟩
  · next h => exact iff_of_false (by simp) fun heq ↦ h ⟨heq.1, heq.2.1⟩

section Read

variable (f : File) (want : ℕ) (short : Option ℕ)

@[simp] theorem content_read : (f.read want short).2.content = f.content := rfl

@[simp] theorem position_read :
    (f.read want short).2.position = f.position + (f.read want short).1.length := rfl

theorem read_le_available :
    (f.read want short).1 <+: (f.content.drop f.position).take want := by
  cases short with
  | none => exact List.prefix_rfl
  | some n => exact List.take_prefix n _

variable {f want short}

/-- A read that brings all it was asked for brings what the file holds at this place. -/
theorem read_of_length (h : (f.read want short).1.length = want) :
    (f.read want short).1 = (f.content.drop f.position).take want := by
  have hle := f.read_le_available want short
  refine hle.eq_of_length (Nat.le_antisymm hle.length_le ?_)
  rw [h]
  exact List.length_take_le _ _

/-- It brings all of it just when the file holds as much and no error comes first. -/
theorem length_read_eq_iff (hpos : 0 < want) : (f.read want short).1.length = want ↔
    f.position + want ≤ f.content.length ∧ ∀ n, short = some n → want ≤ n := by
  have hheld : ((f.content.drop f.position).take want).length
      = min want (f.content.length - f.position) := by rw [List.length_take, List.length_drop]
  cases short with
  | none =>
    simp only [read, hheld, reduceCtorEq, false_implies, implies_true, and_true]
    omega
  | some n =>
    simp only [read, List.length_take, hheld, Option.some.injEq, forall_eq']
    omega

end Read

/-! ## Chunks -/

/-- `left` bytes can be read in chunks of `size`: the file holds them, and none of the reads is
ended early. -/
structure Readable (f : File) (size left : ℕ) (reads : ℕ → Option ℕ) : Prop where
  holds : 0 < left → f.position + left ≤ f.content.length
  whole : ∀ i n, size * i < left → reads i = some n → min size (left - size * i) ≤ n

theorem readable_zero (f : File) (size : ℕ) (reads : ℕ → Option ℕ) : f.Readable size 0 reads :=
  ⟨fun h ↦ absurd h (Nat.lt_irrefl 0), fun i _ h ↦ absurd h (Nat.not_lt_zero (size * i))⟩

theorem readable_iff {f : File} {size left : ℕ} {reads : ℕ → Option ℕ} (hsize : 0 < size)
    (hleft : 0 < left) : f.Readable size left reads ↔
      (f.read (min size left) (reads 0)).1.length = min size left ∧
      (f.read (min size left) (reads 0)).2.Readable size (left - min size left)
        fun i ↦ reads (i + 1) := by
  have hnext (i : ℕ) : left - min size left - size * i = left - size * (i + 1) := by
    rw [Nat.mul_succ]
    omega
  constructor
  · rintro ⟨hholds, hwhole⟩
    have hall := hholds hleft
    have hread : (f.read (min size left) (reads 0)).1.length = min size left :=
      (length_read_eq_iff (by omega)).mpr ⟨by omega, fun n hn ↦ hwhole 0 n hleft hn⟩
    refine ⟨hread, ⟨fun hmore ↦ ?_, fun i n hi hn ↦ ?_⟩⟩
    · rw [content_read, position_read, hread]
      omega
    · rw [hnext]
      exact hwhole (i + 1) n (by rw [Nat.mul_succ]; omega) hn
  · rintro ⟨hread, hholds, hwhole⟩
    rw [content_read, position_read, hread] at hholds
    rw [length_read_eq_iff (by omega)] at hread
    refine ⟨fun _ ↦ by omega, fun i n hi hn ↦ ?_⟩
    cases i with
    | zero => exact hread.2 n hn
    | succ i =>
      rw [← hnext]
      exact hwhole i n (by rw [Nat.mul_succ] at hi; omega) hn

end File

end Stdio
