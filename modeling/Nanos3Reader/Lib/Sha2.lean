import Mathlib.Data.Nat.NthRoot.Defs
import Mathlib.Data.Nat.Prime.Basic
import Nanos3Reader.Lib.ByteText

/-!
# The Secure Hash Standard

SHA-256 as FIPS 180-4 defines it, for messages of whole bytes: the functions and constants of
section 4, the padding and parsing of section 5, and the computation of section 6.2. The constants
are not listed but computed from the roots of primes the standard takes them from.
-/

open ByteText

namespace Sha2

/-! ## Functions and constants -/

/-- `ROTR`, of section 3.2. -/
def rotr (n x : UInt32) : UInt32 := (x >>> n) ||| (x <<< (32 - n))

def ch (x y z : UInt32) : UInt32 := (x &&& y) ^^^ (~~~x &&& z)

def maj (x y z : UInt32) : UInt32 := (x &&& y) ^^^ (x &&& z) ^^^ (y &&& z)

/-- `Σ₀`. -/
def bigSigma0 (x : UInt32) : UInt32 := rotr 2 x ^^^ rotr 13 x ^^^ rotr 22 x

/-- `Σ₁`. -/
def bigSigma1 (x : UInt32) : UInt32 := rotr 6 x ^^^ rotr 11 x ^^^ rotr 25 x

/-- `σ₀`. -/
def smallSigma0 (x : UInt32) : UInt32 := rotr 7 x ^^^ rotr 18 x ^^^ (x >>> 3)

/-- `σ₁`. -/
def smallSigma1 (x : UInt32) : UInt32 := rotr 17 x ^^^ rotr 19 x ^^^ (x >>> 10)

/-- The first sixty-four primes. -/
def primes : List ℕ := (List.range 312).filter Nat.Prime

/-- The first thirty-two bits of the fractional part of the `k`-th root of `p`. -/
def rootFraction (k p : ℕ) : UInt32 := UInt32.ofNat (Nat.nthRoot k (p * 2 ^ (32 * k)))

/-- `K_t`, from cube roots. -/
def roundConstant (t : ℕ) : UInt32 := rootFraction 3 (primes.getD t 0)

/-! ## Computation -/

/-- The eight words of a hash value, or of the working variables. -/
structure Words where
  a : UInt32
  b : UInt32
  c : UInt32
  d : UInt32
  e : UInt32
  f : UInt32
  g : UInt32
  h : UInt32
deriving DecidableEq

/-- `H^(0)`, from square roots. -/
def initialHash : Words :=
  let fraction (j : ℕ) := rootFraction 2 (primes.getD j 0)
  ⟨fraction 0, fraction 1, fraction 2, fraction 3, fraction 4, fraction 5, fraction 6, fraction 7⟩

/-- The message schedule of a block with the words `m`. -/
def schedule (m : ℕ → UInt32) (t : ℕ) : UInt32 :=
  if t < 16 then m t
  else
    smallSigma1 (schedule m (t - 2)) + schedule m (t - 7) + smallSigma0 (schedule m (t - 15))
      + schedule m (t - 16)
termination_by t

/-- Step 3, for one `t`. -/
def step (v : Words) (k w : UInt32) : Words :=
  let t1 := v.h + bigSigma1 v.e + ch v.e v.f v.g + k + w
  let t2 := bigSigma0 v.a + maj v.a v.b v.c
  ⟨t1 + t2, v.a, v.b, v.c, v.d + t1, v.e, v.f, v.g⟩

/-- The next hash value, from a block with the words `m`. -/
def compress (hash : Words) (m : ℕ → UInt32) : Words :=
  let v := (List.range 64).foldl (fun v t ↦ step v (roundConstant t) (schedule m t)) hash
  ⟨v.a + hash.a, v.b + hash.b, v.c + hash.c, v.d + hash.d, v.e + hash.e, v.f + hash.f,
    v.g + hash.g, v.h + hash.h⟩

/-- The number that bytes write, the first byte being the most significant. -/
def bigEndian (s : Bytes) : ℕ := s.foldl (fun n b ↦ 256 * n + b.toNat) 0

/-- The words of a block. -/
def blockWord (block : Bytes) (t : ℕ) : UInt32 :=
  UInt32.ofNat (bigEndian ((block.drop (4 * t)).take 4))

/-- The hash value after the first `n` blocks of `s`. -/
def hashBlocks (s : Bytes) (n : ℕ) : Words :=
  (List.range n).foldl (fun hash i ↦ compress hash (blockWord ((s.drop (64 * i)).take 64)))
    initialHash

/-! ## Padding -/

/-- How many zero bytes follow the one bit and its byte: the least number that leaves eight bytes in
the last block. -/
def zeros (n : ℕ) : ℕ := (119 - n % 64) % 64

/-- A number in eight bytes. -/
def eightBytes (n : ℕ) : Bytes := (List.range 8).map fun i ↦ UInt8.ofNat (n / 256 ^ (7 - i))

/-- A message of `n` bytes is padded with a one bit, zeros and its length in bits. -/
def padding (n : ℕ) : Bytes := 0x80 :: List.replicate (zeros n) 0 ++ eightBytes (8 * n)

/-- The bytes of a word, the most significant first. -/
def wordBytes (x : UInt32) : Bytes :=
  [(x >>> 24).toUInt8, (x >>> 16).toUInt8, (x >>> 8).toUInt8, x.toUInt8]

/-- The message digest. -/
def digest (m : Bytes) : Bytes :=
  let padded := m ++ padding m.length
  let hash := hashBlocks padded (padded.length / 64)
  [hash.a, hash.b, hash.c, hash.d, hash.e, hash.f, hash.g, hash.h].flatMap wordBytes

/-! ### Facts about the definitions -/

theorem zeros_least (n : ℕ) :
    (n + 1 + zeros n + 8) % 64 = 0 ∧ ∀ z, (n + 1 + z + 8) % 64 = 0 → zeros n ≤ z := by
  rw [zeros]
  exact ⟨by omega, fun z hz ↦ by omega⟩

theorem schedule_of_lt (m : ℕ → UInt32) {t : ℕ} (h : t < 16) : schedule m t = m t := by
  rw [schedule, if_pos h]

theorem schedule_of_ge (m : ℕ → UInt32) {t : ℕ} (h : 16 ≤ t) :
    schedule m t = smallSigma1 (schedule m (t - 2)) + schedule m (t - 7)
      + smallSigma0 (schedule m (t - 15)) + schedule m (t - 16) := by
  rw [schedule, if_neg (by omega)]

theorem hashBlocks_append {s : Bytes} {n : ℕ} (h : 64 * n ≤ s.length) (t : Bytes) :
    hashBlocks (s ++ t) n = hashBlocks s n := by
  rw [hashBlocks, hashBlocks]
  refine List.foldl_ext _ _ _ fun hash i hi ↦ ?_
  have hlt := List.mem_range.mp hi
  rw [List.drop_append_of_le_length (by omega),
    List.take_append_of_le_length (by rw [List.length_drop]; omega)]

theorem hashBlocks_succ (s : Bytes) (n : ℕ) :
    hashBlocks s (n + 1) = compress (hashBlocks s n) (blockWord ((s.drop (64 * n)).take 64)) := by
  rw [hashBlocks, List.range_succ, List.foldl_append, ← hashBlocks]
  rfl

theorem prime_iff_of_lt {p : ℕ} (h : p < 312) :
    p.Prime ↔ 2 ≤ p ∧ ∀ d < 18, 2 ≤ d → d < p → ¬d ∣ p := by
  constructor
  · intro hp
    obtain ⟨hle, hno⟩ := Nat.prime_def_lt'.mp hp
    exact ⟨hle, fun d _ h2 hlt ↦ hno d h2 hlt⟩
  · rintro ⟨hle, hno⟩
    refine Nat.prime_def_le_sqrt.mpr ⟨hle, fun d h2 hd ↦ ?_⟩
    have hsq : d * d ≤ p := Nat.le_sqrt.mp hd
    have hsmall : d < 18 := by
      by_contra hge
      have hbig : 18 * 18 ≤ d * d := Nat.mul_le_mul (by omega) (by omega)
      omega
    exact hno d hsmall h2 ((Nat.lt_mul_self_iff.mpr h2).trans_le hsq)

theorem primes_eq : primes
    = [2, 3, 5, 7, 11, 13, 17, 19, 23, 29, 31, 37, 41, 43, 47, 53, 59, 61, 67, 71, 73, 79, 83, 89,
      97, 101, 103, 107, 109, 113, 127, 131, 137, 139, 149, 151, 157, 163, 167, 173, 179, 181, 191,
      193, 197, 199, 211, 223, 227, 229, 233, 239, 241, 251, 257, 263, 269, 271, 277, 281, 283, 293,
      307, 311] := by
  have hfilter : primes = (List.range 312).filter fun p ↦
      2 ≤ p ∧ ∀ d < 18, 2 ≤ d → d < p → ¬d ∣ p := by
    refine List.filter_congr fun p hp ↦ ?_
    rw [decide_eq_decide]
    exact prime_iff_of_lt (List.mem_range.mp hp)
  rw [hfilter]
  decide +kernel

end Sha2
