import Nanos3Reader.SigV4

/-!
# The bundled SHA-256

The back end that is compiled in when no system cryptography is linked. It takes the message in
pieces of any size and hashes block after block; the pieces do not matter, so that a file hashed one
buffer at a time has the digest of its bytes.
-/

open ByteText

namespace Nanos3Reader

namespace S3v4

/-- The eight words of the state. -/
structure Sha256Words where
  a : UInt32
  b : UInt32
  c : UInt32
  d : UInt32
  e : UInt32
  f : UInt32
  g : UInt32
  h : UInt32
deriving DecidableEq

/-- `struct Sha256`. The bytes of `buf` are those before `n`; a full buffer is hashed at once. -/
structure Sha256 where
  s : Sha256Words :=
    ⟨0x6a09e667, 0xbb67ae85, 0x3c6ef372, 0xa54ff53a, 0x510e527f, 0x9b05688c, 0x1f83d9ab, 0x5be0cd19⟩
  total : UInt64 := 0
  buf : Bytes := []
  n_lt : buf.length < 64 := by decide
deriving DecidableEq

namespace Sha256

/-- `K`. -/
def roundConstants : List UInt32 :=
  [0x428a2f98, 0x71374491, 0xb5c0fbcf, 0xe9b5dba5, 0x3956c25b, 0x59f111f1, 0x923f82a4, 0xab1c5ed5,
    0xd807aa98, 0x12835b01, 0x243185be, 0x550c7dc3, 0x72be5d74, 0x80deb1fe, 0x9bdc06a7, 0xc19bf174,
    0xe49b69c1, 0xefbe4786, 0x0fc19dc6, 0x240ca1cc, 0x2de92c6f, 0x4a7484aa, 0x5cb0a9dc, 0x76f988da,
    0x983e5152, 0xa831c66d, 0xb00327c8, 0xbf597fc7, 0xc6e00bf3, 0xd5a79147, 0x06ca6351, 0x14292967,
    0x27b70a85, 0x2e1b2138, 0x4d2c6dfc, 0x53380d13, 0x650a7354, 0x766a0abb, 0x81c2c92e, 0x92722c85,
    0xa2bfe8a1, 0xa81a664b, 0xc24b8b70, 0xc76c51a3, 0xd192e819, 0xd6990624, 0xf40e3585, 0x106aa070,
    0x19a4c116, 0x1e376c08, 0x2748774c, 0x34b0bcb5, 0x391c0cb3, 0x4ed8aa4a, 0x5b9cca4f, 0x682e6ff3,
    0x748f82ee, 0x78a5636f, 0x84c87814, 0x8cc70208, 0x90befffa, 0xa4506ceb, 0xbef9a3f7, 0xc67178f2]

def ror (x : UInt32) (c : UInt32) : UInt32 := (x >>> c) ||| (x <<< (32 - c))

/-- The words of a block, big end first. -/
def blockWords : Bytes → List UInt32
  | p₀ :: p₁ :: p₂ :: p₃ :: rest =>
    ((p₀.toUInt32 <<< 24) ||| (p₁.toUInt32 <<< 16) ||| (p₂.toUInt32 <<< 8) ||| p₃.toUInt32) ::
      blockWords rest
  | _ => []

/-- `k` more words of the message schedule; `w` are those so far, the last one first. -/
def extendWords : ℕ → List UInt32 → List UInt32
  | 0, w => w
  | k + 1, w =>
    let s0 := ror (w.getD 14 0) 7 ^^^ ror (w.getD 14 0) 18 ^^^ (w.getD 14 0 >>> 3)
    let s1 := ror (w.getD 1 0) 17 ^^^ ror (w.getD 1 0) 19 ^^^ (w.getD 1 0 >>> 10)
    extendWords k ((w.getD 15 0 + s0 + w.getD 6 0 + s1) :: w)

/-- One round with the constant `k` and the word `w`. -/
def round (v : Sha256Words) (k w : UInt32) : Sha256Words :=
  let S1 := ror v.e 6 ^^^ ror v.e 11 ^^^ ror v.e 25
  let ch := (v.e &&& v.f) ^^^ (~~~v.e &&& v.g)
  let t1 := v.h + S1 + ch + k + w
  let S0 := ror v.a 2 ^^^ ror v.a 13 ^^^ ror v.a 22
  let maj := (v.a &&& v.b) ^^^ (v.a &&& v.c) ^^^ (v.b &&& v.c)
  let t2 := S0 + maj
  ⟨t1 + t2, v.a, v.b, v.c, v.d + t1, v.e, v.f, v.g⟩

/-- The state after a block. -/
def block (s : Sha256Words) (p : Bytes) : Sha256Words :=
  let w := (extendWords 48 (blockWords p).reverse).reverse
  let v := (roundConstants.zip w).foldl (fun v r ↦ round v r.1 r.2) s
  ⟨s.a + v.a, s.b + v.b, s.c + v.c, s.d + v.d, s.e + v.e, s.f + v.f, s.g + v.g, s.h + v.h⟩

/-- One pass of the loop of `update`: as much of `p` as the buffer holds. -/
def take (h : Sha256) (p : Bytes) : Sha256 :=
  let buf := h.buf ++ p.take (64 - h.buf.length)
  if n_lt : buf.length < 64 then { h with buf, n_lt }
  else { h with s := block h.s buf, buf := [], n_lt := by decide }

/-- The loop of `update`. -/
def takeAll (h : Sha256) (p : Bytes) : Sha256 :=
  if _hp : p = [] then h else takeAll (h.take p) (p.drop (64 - h.buf.length))
termination_by p.length
decreasing_by
  have hpos := List.length_pos_iff.mpr _hp
  have hlt := h.n_lt
  rw [List.length_drop]
  omega

def update (h : Sha256) (p : Bytes) : Sha256 :=
  takeAll { h with total := h.total + UInt64.ofNat p.length } p

/-! ### The pieces do not matter -/

section

variable {h : Sha256} {p : Bytes}

theorem take_of_lt (hp : h.buf.length + p.length < 64) :
    h.take p = { h with buf := h.buf ++ p, n_lt := by simpa using hp } := by
  have hall : p.take (64 - h.buf.length) = p := List.take_of_length_le (by omega)
  simp only [take, hall]
  exact dif_pos (by simpa using hp)

theorem take_of_eq (hp : h.buf.length + p.length = 64) :
    h.take p = { h with s := block h.s (h.buf ++ p), buf := [], n_lt := by decide } := by
  have hall : p.take (64 - h.buf.length) = p := List.take_of_length_le (by omega)
  simp only [take, hall]
  exact dif_neg (by simp [hp])

theorem take_take (h : Sha256) (p : Bytes) : h.take (p.take (64 - h.buf.length)) = h.take p := by
  simp only [take, List.take_take, min_self]

theorem foldl_take {p : Bytes} (hne : p ≠ []) {h : Sha256} (hp : p.length ≤ 64 - h.buf.length) :
    p.foldl (fun h c ↦ h.take [c]) h = h.take p := by
  induction p generalizing h with
  | nil => exact absurd rfl hne
  | cons c p ih =>
    have hlt := h.n_lt
    rw [List.length_cons] at hp
    rw [List.foldl_cons]
    by_cases hnil : p = []
    · rw [hnil, List.foldl_nil]
    · have hpos := List.length_pos_iff.mpr hnil
      have hone : h.take [c] = { h with buf := h.buf ++ [c], n_lt := by simp; omega } :=
        take_of_lt (by simp; omega)
      rw [hone, ih hnil (by simp; omega)]
      have hle : h.buf.length + (p.length + 1) ≤ 64 := by omega
      rcases Nat.lt_or_eq_of_le hle with hfits | hfull
      · rw [take_of_lt (by simp; omega), take_of_lt (by simpa using hfits)]
        simp
      · rw [take_of_eq (by simp; omega), take_of_eq (by simpa using hfull)]
        simp

theorem takeAll_eq_foldl (h : Sha256) (p : Bytes) :
    h.takeAll p = p.foldl (fun h c ↦ h.take [c]) h := by
  fun_induction takeAll h p with
  | case1 h => rfl
  | case2 h p hne ih =>
    have hlt := h.n_lt
    have hpos := List.length_pos_iff.mpr hne
    have hfirst : (p.take (64 - h.buf.length)).foldl (fun h c ↦ h.take [c]) h = h.take p := by
      rw [foldl_take _ (List.length_take_le _ _), take_take]
      refine List.ne_nil_of_length_pos ?_
      rw [List.length_take]
      omega
    rw [ih, ← hfirst, ← List.foldl_append, List.take_append_drop]

theorem take_with_total (h : Sha256) (p : Bytes) (n : UInt64) :
    { h with total := n }.take p = { h.take p with total := n } := by
  simp only [take]
  split <;> rfl

theorem foldl_with_total (h : Sha256) (p : Bytes) (n : UInt64) :
    p.foldl (fun h c ↦ h.take [c]) { h with total := n }
      = { p.foldl (fun h c ↦ h.take [c]) h with total := n } := by
  induction p generalizing h with
  | nil => rfl
  | cons c p ih => rw [List.foldl_cons, take_with_total, ih, List.foldl_cons]

/-- **The pieces do not matter.** -/
theorem update_append (h : Sha256) (p q : Bytes) : h.update (p ++ q) = (h.update p).update q := by
  have htotal : h.total + UInt64.ofNat (p ++ q).length
      = h.total + UInt64.ofNat p.length + UInt64.ofNat q.length := by
    rw [List.length_append, UInt64.ofNat_add, UInt64.add_assoc]
  simp only [update, takeAll_eq_foldl, foldl_with_total, List.foldl_append, htotal]

theorem update_nil (h : Sha256) : h.update [] = h := by
  rw [update, takeAll_eq_foldl, foldl_with_total]
  simp

theorem length_update_one (h : Sha256) (c : UInt8) :
    (h.update [c]).buf.length = (h.buf.length + 1) % 64 := by
  have hlt := h.n_lt
  rw [update, takeAll_eq_foldl, foldl_with_total, List.foldl_cons, List.foldl_nil]
  dsimp only
  by_cases hfull : h.buf.length + 1 = 64
  · rw [take_of_eq (by simpa using hfull), hfull]
    rfl
  · rw [take_of_lt (by simp; omega), Nat.mod_eq_of_lt (by omega)]
    simp

end

/-! ### Digests -/

/-- Zeros, up to eight bytes before the end of a block. -/
def pad (h : Sha256) : Sha256 :=
  if _hn : h.buf.length = 56 then h else pad (h.update [0])
termination_by (120 - h.buf.length) % 64
decreasing_by
  have hlt := h.n_lt
  rw [length_update_one]
  omega

def finish (h : Sha256) : Bytes :=
  let bits := h.total * 8
  let h := (h.update [0x80]).pad
  let len := (List.range 8).map fun i ↦ (bits >>> (56 - 8 * UInt64.ofNat i)).toUInt8
  let h := h.update len
  [h.s.a, h.s.b, h.s.c, h.s.d, h.s.e, h.s.f, h.s.g, h.s.h].flatMap fun (x : UInt32) ↦
    [(x >>> 24).toUInt8, (x >>> 16).toUInt8, (x >>> 8).toUInt8, x.toUInt8]

end Sha256

/-- `sha256_raw` of the bundled back end. -/
def sha256Raw (data : Bytes) : Bytes := (({} : Sha256).update data).finish

theorem length_sha256Raw (data : Bytes) : (sha256Raw data).length = 32 := rfl

/-- A hash of nothing so far. -/
def Sha256.fresh : Sha256 := {}

/-- **A file read one buffer at a time has the digest of its bytes.** -/
theorem finish_foldl_update (buffers : List Bytes) :
    (buffers.foldl Sha256.update {}).finish = sha256Raw buffers.flatten := by
  have hfold : ∀ h : Sha256, buffers.foldl Sha256.update h = h.update buffers.flatten := by
    induction buffers with
    | nil => exact fun h ↦ h.update_nil.symm
    | cons p buffers ih =>
      exact fun h ↦ by rw [List.foldl_cons, ih, List.flatten_cons, Sha256.update_append]
  rw [hfold, sha256Raw]

/-- The digest of nothing, which S3 uses for empty payloads. -/
example : sha256Hex sha256Raw []
    = utf8 "e3b0c44298fc1c149afbf4c8996fb92427ae41e4649b934ca495991b7852b855" := by
  decide +kernel

end S3v4

end Nanos3Reader
