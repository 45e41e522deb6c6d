import Mathlib.Data.List.GetD
import Nanos3Reader.Lib.Sha2
import Nanos3Reader.Sha256

/-!
# The bundled SHA-256 is the standard's

The back end keeps one block of the message at a time. After any pieces its state is the hash value
of the whole blocks they make up, and its buffer is what is left; the padding of the standard then
comes as one more piece.
-/

open ByteText

namespace Nanos3Reader

namespace S3v4

/-! ## Blocks -/

/-- The state in the standard's terms. -/
def Sha256Words.hash (s : Sha256Words) : Sha2.Words := ⟨s.a, s.b, s.c, s.d, s.e, s.f, s.g, s.h⟩

namespace Sha256

theorem hash_initial : ({} : Sha256).s.hash = Sha2.initialHash := by
  rw [Sha2.initialHash, Sha2.primes_eq]
  decide +kernel

theorem roundConstants_eq : roundConstants = (List.range 64).map Sha2.roundConstant := by
  have hconstant : Sha2.roundConstant = fun t ↦ Sha2.rootFraction 3 (Sha2.primes.getD t 0) := rfl
  rw [hconstant, Sha2.primes_eq]
  decide +kernel

theorem hash_round (v : Sha256Words) (k w : UInt32) : (round v k w).hash = Sha2.step v.hash k w :=
  rfl

theorem word_eq (p₀ p₁ p₂ p₃ : UInt8) :
    (p₀.toUInt32 <<< 24) ||| (p₁.toUInt32 <<< 16) ||| (p₂.toUInt32 <<< 8) ||| p₃.toUInt32
      = UInt32.ofNat (Sha2.bigEndian [p₀, p₁, p₂, p₃]) := by
  have hbyte (n : ℕ) (p : UInt8) : n <<< 8 ||| p.toNat = 256 * n + p.toNat := by
    rw [← Nat.shiftLeft_add_eq_or_of_lt p.toNat_lt, Nat.shiftLeft_eq, Nat.mul_comm]
  have hnat : p₀.toNat <<< 24 ||| p₁.toNat <<< 16 ||| p₂.toNat <<< 8 ||| p₃.toNat
      = Sha2.bigEndian [p₀, p₁, p₂, p₃] := by
    rw [show p₀.toNat <<< 24 = (p₀.toNat <<< 8) <<< 16 from Nat.shiftLeft_add _ 8 16,
      ← Nat.shiftLeft_or_distrib, hbyte, show ∀ n : ℕ, n <<< 16 = (n <<< 8) <<< 8 from fun n ↦
        Nat.shiftLeft_add n 8 8, ← Nat.shiftLeft_or_distrib, hbyte, hbyte]
    simp [Sha2.bigEndian]
  rw [← hnat]
  apply UInt32.toNat_inj.mp
  simp [Nat.shiftLeft_eq]

theorem blockWords_eq {n : ℕ} {p : Bytes} (h : p.length = 4 * n) :
    blockWords p = (List.range n).map (Sha2.blockWord p) := by
  induction n generalizing p with
  | zero =>
    obtain rfl := List.length_eq_zero_iff.mp h
    rfl
  | succ n ih =>
    obtain ⟨p₀, p₁, p₂, p₃, rest, rfl⟩ : ∃ p₀ p₁ p₂ p₃ rest, p = p₀ :: p₁ :: p₂ :: p₃ :: rest := by
      match p, h with
      | p₀ :: p₁ :: p₂ :: p₃ :: rest, _ => exact ⟨p₀, p₁, p₂, p₃, rest, rfl⟩
    have hnext (t : ℕ) : Sha2.blockWord (p₀ :: p₁ :: p₂ :: p₃ :: rest) (t + 1)
        = Sha2.blockWord rest t := by
      rw [Sha2.blockWord, Nat.mul_succ]
      rfl
    rw [blockWords, ih (by simpa [Nat.mul_add] using h), List.range_succ_eq_map, List.map_cons,
      List.map_map, word_eq]
    exact congrArg₂ List.cons rfl (List.map_congr_left fun t _ ↦ (hnext t).symm)

theorem extendWords_eq (m : ℕ → UInt32) {n : ℕ} (hn : 16 ≤ n) (k : ℕ) :
    extendWords k ((List.range n).map (Sha2.schedule m)).reverse
      = ((List.range (n + k)).map (Sha2.schedule m)).reverse := by
  induction k generalizing n with
  | zero => rfl
  | succ k ih =>
    have hword {j : ℕ} (hj : j < n) :
        ((List.range n).map (Sha2.schedule m)).reverse.getD j 0 = Sha2.schedule m (n - 1 - j) := by
      rw [List.getD_eq_getElem _ _ (by simpa using hj)]
      simp
    have hnew : Sha2.schedule m n
        = Sha2.schedule m (n - 1 - 15) + Sha2.smallSigma0 (Sha2.schedule m (n - 1 - 14))
          + Sha2.schedule m (n - 1 - 6) + Sha2.smallSigma1 (Sha2.schedule m (n - 1 - 1)) := by
      rw [Sha2.schedule_of_ge m hn]
      simp only [Nat.sub_sub, Nat.reduceAdd]
      ac_rfl
    rw [extendWords, hword (by omega), hword (by omega), hword (by omega), hword (by omega),
      Nat.add_succ, ← Nat.succ_add, ← ih (by omega), List.range_succ, List.map_append,
      List.reverse_append, List.map_singleton, List.reverse_singleton, List.singleton_append, hnew]
    rfl

/-- **One block is hashed as the standard says.** -/
theorem hash_block (s : Sha256Words) {p : Bytes} (h : p.length = 64) :
    (block s p).hash = Sha2.compress s.hash (Sha2.blockWord p) := by
  have hfirst : (List.range 16).map (Sha2.blockWord p)
      = (List.range 16).map (Sha2.schedule (Sha2.blockWord p)) :=
    List.map_congr_left fun t ht ↦ (Sha2.schedule_of_lt _ (List.mem_range.mp ht)).symm
  have hwords : (extendWords 48 (blockWords p).reverse).reverse
      = (List.range 64).map (Sha2.schedule (Sha2.blockWord p)) := by
    rw [blockWords_eq (n := 16) (by rw [h]), hfirst, extendWords_eq _ (by decide),
      List.reverse_reverse]
  have hrounds (l : List ℕ) (v : Sha256Words) :
      (((l.map Sha2.roundConstant).zip (l.map (Sha2.schedule (Sha2.blockWord p)))).foldl
        (fun v r ↦ round v r.1 r.2) v).hash
      = l.foldl (fun v t ↦ Sha2.step v (Sha2.roundConstant t)
          (Sha2.schedule (Sha2.blockWord p) t)) v.hash := by
    induction l generalizing v with
    | nil => rfl
    | cons t l ih => rw [List.map_cons, List.map_cons, List.zip_cons_cons, List.foldl_cons, ih,
        List.foldl_cons, hash_round]
  rw [block, hwords, roundConstants_eq, Sha2.compress, ← hrounds]
  simp only [Sha256Words.hash, UInt32.add_comm]

/-! ## Messages -/

/-- What has been hashed and what is in the buffer, after the message `m`. -/
structure Absorbed (h : Sha256) (m : Bytes) : Prop where
  hash : h.s.hash = Sha2.hashBlocks m (m.length / 64)
  buf : h.buf = m.drop (64 * (m.length / 64))
  total : h.total = UInt64.ofNat m.length

theorem absorbed_nil : Absorbed {} [] := ⟨hash_initial, rfl, rfl⟩

theorem Absorbed.length_buf {h : Sha256} {m : Bytes} (ha : Absorbed h m) :
    h.buf.length = m.length % 64 := by
  rw [ha.buf, List.length_drop]
  omega

theorem Absorbed.update_one {h : Sha256} {m : Bytes} (ha : Absorbed h m) (c : UInt8) :
    Absorbed (h.update [c]) (m ++ [c]) := by
  have hupdate : h.update [c]
      = { h.take [c] with total := h.total + UInt64.ofNat [c].length } := by
    rw [update, takeAll_eq_foldl, foldl_with_total, List.foldl_cons, List.foldl_nil]
  have hlen := ha.length_buf
  have hbuf : (m ++ [c]).drop (64 * (m.length / 64)) = h.buf ++ [c] := by
    rw [ha.buf, List.drop_append_of_le_length (by omega)]
  have htotal : h.total + UInt64.ofNat [c].length = UInt64.ofNat (m ++ [c]).length := by
    rw [ha.total, List.length_append, UInt64.ofNat_add]
  rw [hupdate]
  rcases Nat.lt_or_ge (h.buf.length + 1) 64 with hfits | hfull
  · have hblocks : (m ++ [c]).length / 64 = m.length / 64 := by
      rw [List.length_append, List.length_singleton]
      omega
    rw [take_of_lt (by simpa using hfits)]
    exact ⟨by rw [hblocks, Sha2.hashBlocks_append (by omega)]; exact ha.hash,
      by rw [hblocks, hbuf], htotal⟩
  · have hblocks : (m ++ [c]).length / 64 = m.length / 64 + 1 := by
      rw [List.length_append, List.length_singleton]
      omega
    have hblock : (h.buf ++ [c]).length = 64 := by
      rw [List.length_append, List.length_singleton]
      omega
    rw [take_of_eq (by rw [List.length_singleton]; omega)]
    refine ⟨?_, ?_, htotal⟩
    · rw [hblocks, Sha2.hashBlocks_succ, Sha2.hashBlocks_append (by omega), hbuf,
        List.take_of_length_le (by omega), ← ha.hash]
      exact hash_block h.s hblock
    · rw [hblocks, List.drop_of_length_le]
      rw [List.length_append, List.length_singleton]
      omega

/-- **Every piece is absorbed**, whatever its length. -/
theorem Absorbed.update {h : Sha256} {m : Bytes} (ha : Absorbed h m) (p : Bytes) :
    Absorbed (h.update p) (m ++ p) := by
  induction p generalizing h m with
  | nil =>
    rw [update_nil, List.append_nil]
    exact ha
  | cons c p ih =>
    have hfirst := ih (ha.update_one c)
    rwa [← update_append, List.append_assoc, List.singleton_append] at hfirst

theorem pad_eq (h : Sha256) : h.pad = h.update (List.replicate ((120 - h.buf.length) % 64) 0) := by
  fun_induction pad h with
  | case1 h hfull =>
    rw [hfull]
    exact h.update_nil.symm
  | case2 h hopen ih =>
    have hlt := h.n_lt
    have hcount : (120 - h.buf.length) % 64 = (120 - (h.buf.length + 1) % 64) % 64 + 1 := by omega
    rw [ih, length_update_one, ← update_append, hcount, List.replicate_succ]
    rfl

theorem lengthBytes_eq {n : ℕ} (h : n < 2 ^ 61) :
    ((List.range 8).map fun i ↦ ((UInt64.ofNat n * 8) >>> (56 - 8 * UInt64.ofNat i)).toUInt8)
      = Sha2.eightBytes (8 * n) := by
  refine List.map_congr_left fun i hi ↦ ?_
  have hbits : (UInt64.ofNat n * 8).toNat = 8 * n := by
    rw [UInt64.toNat_mul, UInt64.toNat_ofNat_of_lt' (h.trans (by decide)),
      show (8 : UInt64).toNat = 8 from rfl]
    omega
  have hshift : ∀ i < 8, (56 - 8 * UInt64.ofNat i).toNat % 64 = 56 - 8 * i ∧
      2 ^ (56 - 8 * i) = 256 ^ (7 - i) := by decide
  obtain ⟨hcount, hpow⟩ := hshift i (List.mem_range.mp hi)
  apply UInt8.toNat_inj.mp
  rw [UInt64.toNat_toUInt8, UInt64.toNat_shiftRight, hbits, hcount, Nat.shiftRight_eq_div_pow, hpow,
    UInt8.toNat_ofNat']

/-- **What has been absorbed has the digest of the standard.** -/
theorem Absorbed.finish {h : Sha256} {m : Bytes} (ha : Absorbed h m) (hm : m.length < 2 ^ 61) :
    h.finish = Sha2.digest m := by
  have hone : ((h.update [0x80]).pad) = (h.update [0x80]).update
      (List.replicate (Sha2.zeros m.length) 0) := by
    rw [pad_eq, length_update_one, ha.length_buf, Sha2.zeros]
    congr 2
    omega
  have hall : Absorbed (((h.update [0x80]).pad).update (Sha2.eightBytes (8 * m.length)))
      (m ++ Sha2.padding m.length) := by
    have hpieces := ((ha.update [0x80]).update (List.replicate (Sha2.zeros m.length) 0)).update
      (Sha2.eightBytes (8 * m.length))
    rw [← hone] at hpieces
    simpa [Sha2.padding] using hpieces
  rw [Sha256.finish, ha.total, lengthBytes_eq hm, Sha2.digest, ← hall.hash]
  rfl

/-- **The bundled hash is the standard's for every cut into pieces.** -/
theorem finish_pieces (pieces : List Bytes) (h : pieces.flatten.length < 2 ^ 61) :
    (pieces.foldl Sha256.update {}).finish = Sha2.digest pieces.flatten := by
  rw [finish_foldl_update, sha256Raw]
  exact (absorbed_nil.update pieces.flatten).finish h

end Sha256

end S3v4

end Nanos3Reader
