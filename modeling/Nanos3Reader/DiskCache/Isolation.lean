import Nanos3Reader.DiskCache.Evict
import Mathlib.Data.Set.Function

/-!
# Which blocks the cache keeps apart

The cache finds a block by its file name, and the file name has the chunk's start in full but only
a 64-bit hash of the URI. Blocks are therefore kept apart exactly as far as that hash keeps their
URIs apart. The hash is additive, so URIs that collide are easy to write down: raising one
character by one and lowering the next by 33 leaves it unchanged.

What a user of the cache expects of a set of blocks is that they have different files, and that over
any history of calls a hit returns what was last stored for that very block. The main result is that
either holds of a set of blocks if and only if no two of them share both their chunk start and the
hash of their URIs.
-/

open ByteText

namespace Nanos3Reader

/-! ## Names determine the hash and the chunk start -/

private theorem hex16Loop_append (n : ℕ) (v : UInt64) (acc : Bytes) :
    hex16Loop n v acc = hex16Loop n v [] ++ acc := by
  induction n generalizing v acc with
  | zero => rfl
  | succ n ih =>
    rw [hex16Loop, hex16Loop, ih, ih (v >>> 4) [_], List.append_assoc, List.singleton_append]

private theorem hexDigit16_inj {a b : UInt64} (ha : a.toNat < 16) (hb : b.toNat < 16)
    (h : hexDigit16 a = hexDigit16 b) : a = b := by
  have key : ∀ i j : Fin 16, hexDigit16 (UInt64.ofNat i) = hexDigit16 (UInt64.ofNat j) → i = j := by
    decide
  have hij := key ⟨a.toNat, ha⟩ ⟨b.toNat, hb⟩ (by simpa using h)
  exact UInt64.toNat_inj.mp (Fin.mk.inj_iff.mp hij)

private theorem toNat_and_fifteen (v : UInt64) : (v &&& 0xF).toNat = v.toNat % 16 := by
  rw [UInt64.toNat_and]
  exact Nat.and_two_pow_sub_one_eq_mod v.toNat 4

private theorem toNat_shiftRight_four (v : UInt64) : (v >>> 4).toNat = v.toNat / 16 := by
  rw [UInt64.toNat_shiftRight]
  exact Nat.shiftRight_eq_div_pow v.toNat 4

/-- `n` hexadecimal digits determine the value modulo `16 ^ n`. -/
private theorem mod_eq_of_hex16Loop_eq {n : ℕ} {v w : UInt64}
    (h : hex16Loop n v [] = hex16Loop n w []) : v.toNat % 16 ^ n = w.toNat % 16 ^ n := by
  induction n generalizing v w with
  | zero => simp [Nat.mod_one]
  | succ n ih =>
    rw [hex16Loop, hex16Loop, hex16Loop_append, hex16Loop_append n (w >>> 4)] at h
    obtain ⟨hhigh, hlow⟩ := List.append_inj' h rfl
    have hlt : ∀ u : UInt64, (u &&& 0xF).toNat < 16 := by
      intro u
      rw [toNat_and_fifteen]
      exact Nat.mod_lt _ (by decide)
    have hdigit := congrArg UInt64.toNat
      (hexDigit16_inj (hlt v) (hlt w) (List.singleton_inj.mp hlow))
    rw [toNat_and_fifteen, toNat_and_fifteen] at hdigit
    have hih := ih hhigh
    rw [toNat_shiftRight_four, toNat_shiftRight_four] at hih
    rw [Nat.pow_succ', Nat.mod_mul, Nat.mod_mul, hdigit, hih]

theorem hex16_injective : Function.Injective hex16 := by
  intro v w h
  have hmod := mod_eq_of_hex16Loop_eq h
  rw [Nat.mod_eq_of_lt (by simpa using v.toNat_lt), Nat.mod_eq_of_lt (by simpa using w.toNat_lt)]
    at hmod
  exact UInt64.toNat_inj.mp hmod

/-- Two blocks have one file exactly when their chunk starts and the hashes of their URIs agree. -/
theorem pathFor_eq_iff {k k' : BlockKey} :
    pathFor k = pathFor k' ↔ djb2 k.uri = djb2 k'.uri ∧ k.chunkStart = k'.chunkStart := by
  constructor
  · intro h
    rw [pathFor, pathFor, List.append_cancel_right_eq, List.append_assoc, List.append_assoc] at h
    obtain ⟨hhash, hrest⟩ := List.append_inj h (by simp [hex16, DiskCache.length_hex16Loop])
    rw [List.append_cancel_left_eq] at hrest
    exact ⟨hex16_injective hhash, hex16_injective hrest⟩
  · rintro ⟨hhash, hstart⟩
    rw [pathFor, pathFor, hhash, hstart]

namespace DiskCache

/-! ## What was last stored under a block -/

/-- The contents `k` was last stored with: what the latest store of that very block which got its
file in place left on the disk. -/
def lastStored (k : BlockKey) : List (FileIo × Call) → Option Bytes
  | [] => none
  | (io, .store k' data) :: rest =>
    match lastStored k rest with
    | some d => some d
    | none => if k' = k ∧ io.places data then some (io.onDisk data) else none
  | (_, .tryLoad _) :: rest => lastStored k rest

/-- The blocks in `K` have different files. -/
def DistinctFiles (K : Set BlockKey) : Prop :=
  ∀ k ∈ K, ∀ k' ∈ K, k ≠ k' → pathFor k ≠ pathFor k'

/-- Over every history of calls about blocks in `K`, a hit delivers what was last stored under that
very block. -/
def OwnBytes (K : Set BlockKey) : Prop :=
  ∀ (dir : Bytes) (maxBlocks : ℤ) (history : List (FileIo × Call)) (c : DiskCache)
    (results : List (Option Bytes)),
    (∀ e ∈ history, e.2.key ∈ K) → (fresh dir maxBlocks).run history = some (results, c) →
      ∀ k ∈ K, ∀ (io : FileIo) (out : Bytes) (c' : DiskCache),
        c.tryLoad io k = (some out, c') → lastStored k history = some out

/-- The condition under which it holds: within `K`, the chunk start and the hash of the URI
identify a block. -/
def Separated (K : Set BlockKey) : Prop :=
  ∀ k ∈ K, ∀ k' ∈ K, djb2 k.uri = djb2 k'.uri → k.chunkStart = k'.chunkStart → k = k'

@[simp] theorem block_fresh (dir : Bytes) (maxBlocks : ℤ) (k : BlockKey) :
    (fresh dir maxBlocks).block k = none := by
  rw [fresh, configure]
  split <;> rfl

/-! ## Separated blocks are isolated -/

theorem Separated.eq_of_pathFor_eq {K : Set BlockKey} (hK : Separated K) {k k' : BlockKey}
    (hk : k ∈ K) (hk' : k' ∈ K) (h : pathFor k = pathFor k') : k = k' :=
  hK k hk k' hk' (pathFor_eq_iff.mp h).1 (pathFor_eq_iff.mp h).2

/-- Over a history, a block on disk is what was last stored under its key, or was there at the
start and has not been stored since. -/
theorem Separated.block_of_run {K : Set BlockKey} (hK : Separated K)
    {history : List (FileIo × Call)} {c c' : DiskCache} {results : List (Option Bytes)}
    (hmem : ∀ e ∈ history, e.2.key ∈ K) (hrun : c.run history = some (results, c'))
    {k : BlockKey} (hk : k ∈ K) {d : Bytes} (hd : c'.block k = some d) :
    lastStored k history = some d ∨ (lastStored k history = none ∧ c.block k = some d) := by
  induction history generalizing c results with
  | nil =>
    rw [run, Option.some.injEq, Prod.mk.injEq] at hrun
    exact Or.inr ⟨rfl, by rwa [hrun.2]⟩
  | cons e rest ih =>
    obtain ⟨io, call⟩ := e
    have hcall : call.key ∈ K := hmem (io, call) List.mem_cons_self
    rw [run] at hrun
    obtain ⟨⟨r, c₁⟩, hstep, hrest⟩ := Option.bind_eq_some_iff.mp hrun
    obtain ⟨⟨rs, c₂⟩, hrun', hpair⟩ := Option.map_eq_some_iff.mp hrest
    rw [Prod.mk.injEq] at hpair
    obtain rfl : c₂ = c' := hpair.2
    have hih := ih (fun e he ↦ hmem e (List.mem_cons_of_mem _ he)) hrun'
    cases call with
    | store k' data =>
      obtain ⟨c₃, hstore, hc₃⟩ := Option.map_eq_some_iff.mp hstep
      rw [Prod.mk.injEq] at hc₃
      obtain rfl : c₃ = c₁ := hc₃.2
      rcases hih with h | ⟨hnone, hblock⟩
      · exact Or.inl (by rw [lastStored, h])
      · have hb := block_of_store hstore hblock
        rw [lastStored, hnone]
        by_cases hplace : io.places data = true ∧ pathFor k = pathFor k'
        · rw [if_pos hplace] at hb
          have hkk' := hK.eq_of_pathFor_eq hcall hk hplace.2.symm
          exact Or.inl (by rw [if_pos ⟨hkk', hplace.1⟩, hb])
        · rw [if_neg hplace] at hb
          refine Or.inr ⟨if_neg ?_, hb⟩
          rintro ⟨rfl, hp⟩
          exact hplace ⟨hp, rfl⟩
    | tryLoad k' =>
      have hc₁ : c₁ = (c.tryLoad io k').2 := by
        have := Option.some.inj hstep
        rw [this]
      rw [hc₁, block_tryLoad] at hih
      exact hih

theorem Separated.ownBytes {K : Set BlockKey} (hK : Separated K) : OwnBytes K := by
  intro dir maxBlocks history c results hmem hrun k hk io out c' hload
  rcases hK.block_of_run hmem hrun hk (block_of_tryLoad hload) with h | ⟨-, h⟩
  · exact h
  · rw [block_fresh] at h
    cases h

/-! ## And no others -/

theorem distinctFiles_iff_separated (K : Set BlockKey) : DistinctFiles K ↔ Separated K := by
  constructor
  · intro hnames k hk k' hk' hhash hstart
    by_contra hne
    exact hnames k hk k' hk' hne (pathFor_eq_iff.mpr ⟨hhash, hstart⟩)
  · exact fun hK k hk k' hk' hne h ↦ hne (hK.eq_of_pathFor_eq hk hk' h)

private theorem store_fresh (dir : Bytes) (k : BlockKey) (data : Bytes) :
    ∃ c, (fresh dir 2).store { now := 0 } k data = some c ∧
      c.files.files = [⟨pathFor k, 0, data⟩] := by
  have hfiles : ((Directory.empty.remove (tmpFor k)).put ⟨pathFor k, 0, data⟩).files
      = [⟨pathFor k, 0, data⟩] := by
    simp [Directory.put, Directory.remove]
  refine ⟨{ fresh dir 2 with
    files := (Directory.empty.remove (tmpFor k)).put ⟨pathFor k, 0, data⟩ }, ?_, hfiles⟩
  rw [store_eq_evictIfNeeded]
  refine evictIfNeeded_of_le ?_ ?_
  · intro f hf
    rw [show (fresh dir 2).files = Directory.empty from rfl, hfiles] at hf
    rw [List.mem_singleton.mp hf]
    exact extension_pathFor k
  · rw [show (fresh dir 2).files = Directory.empty from rfl, hfiles]
    exact Nat.le_of_ble_eq_true rfl

/-- Storing one of two blocks with a common file makes the other one appear. -/
theorem OwnBytes.separated {K : Set BlockKey} (hK : OwnBytes K) : Separated K := by
  intro k hk k' hk' hhash hstart
  by_contra hne
  have hpath : pathFor k' = pathFor k := (pathFor_eq_iff.mpr ⟨hhash, hstart⟩).symm
  obtain ⟨c, hstore, hfiles⟩ := store_fresh [] k []
  have hfind : c.files.find? (pathFor k') = some ⟨pathFor k, 0, []⟩ := by
    rw [Directory.find?_eq_some_iff, hfiles, hpath]
    exact ⟨List.mem_singleton_self _, rfl⟩
  have hload : c.tryLoad { now := 1 } k' = (some [], (c.tryLoad { now := 1 } k').2) := by
    rw [tryLoad, hfind]
    rfl
  have hlast := hK [] 2 [({ now := 0 }, .store k [])] c [none] (by simpa [Call.key] using hk)
    (by simp [run, step, hstore]) k' hk' _ _ _ hload
  simp [lastStored, hne] at hlast

/-- **The cache keeps exactly the separated blocks apart**, in its file names and in what it
delivers over any history. -/
theorem isolated_iff_separated (K : Set BlockKey) :
    (DistinctFiles K ↔ Separated K) ∧ (OwnBytes K ↔ Separated K) :=
  ⟨distinctFiles_iff_separated K, OwnBytes.separated, Separated.ownBytes⟩

/-- Two objects of one bucket whose keys differ in their last two characters. -/
def collidingA : BlockKey := ⟨utf8 "s3://bucket/bC", 0⟩

def collidingB : BlockKey := ⟨utf8 "s3://bucket/c\"", 0⟩

/-- Their first blocks share a file, and a lookup of the second object delivers the bytes of the
first, which were never stored under it. -/
theorem collidingA_served_as_collidingB :
    collidingA ≠ collidingB ∧ pathFor collidingA = pathFor collidingB ∧
      (((fresh (utf8 "/var/tmp/n3r-cache") 100).run
        [({ now := 0 }, .store collidingA [1, 2, 3]), ({ now := 1 }, .tryLoad collidingB)]).map
          Prod.fst) = some [none, some [1, 2, 3]] ∧
      lastStored collidingB [({ now := 0 }, .store collidingA [1, 2, 3])] = none ∧
      ¬ DistinctFiles Set.univ ∧ ¬ OwnBytes Set.univ := by
  have hne : collidingA ≠ collidingB := by decide
  have hpath : pathFor collidingA = pathFor collidingB := by decide
  have hnot : ¬ Separated Set.univ := fun h ↦
    hne (h.eq_of_pathFor_eq (Set.mem_univ _) (Set.mem_univ _) hpath)
  exact ⟨hne, hpath, by decide, by decide, fun h ↦ hnot ((distinctFiles_iff_separated _).mp h),
    fun h ↦ hnot h.separated⟩

end DiskCache

end Nanos3Reader
