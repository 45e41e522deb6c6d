import Nanos3Reader.DiskCache

/-!
# A cache whose file operations succeed

What a store and the eviction behind it amount to when nothing fails: the block replaces the file of
its name, and if that takes the directory one file over capacity, the file with the least
modification time goes. The scan finds that file in whatever order the directory is listed, because
a strict minimum does not depend on the order.
-/

open ByteText

namespace Nanos3Reader

namespace DiskCache

/-! ## The scan -/

private theorem evictScan_eq {now : ℕ} {fs : List (DirFile Bytes Bytes)}
    (hblk : ∀ f ∈ fs, extension f.name = utf8 ".blk") (count : ℕ)
    (oldest : Option (DirFile Bytes Bytes)) :
    evictScan { now := now } fs false count oldest
      = some (count + fs.length, fs.foldl older oldest) := by
  induction fs generalizing count oldest with
  | nil => rfl
  | cons f fs ih =>
    have hf := hblk f List.mem_cons_self
    rw [evictScan, if_neg (by simp), if_neg (by simp [hf]), if_neg (by simp),
      ih fun g hg ↦ hblk g (List.mem_cons_of_mem _ hg), List.foldl_cons, List.length_cons,
      show count + 1 + fs.length = count + (fs.length + 1) from by omega]

private theorem foldl_older {o : DirFile Bytes Bytes} {fs : List (DirFile Bytes Bytes)}
    {oldest : Option (DirFile Bytes Bytes)} (hmem : o ∈ fs ∨ oldest = some o)
    (hfs : ∀ f ∈ fs, f = o ∨ o.mtime < f.mtime)
    (hold : ∀ g, oldest = some g → g = o ∨ o.mtime < g.mtime) :
    fs.foldl older oldest = some o := by
  induction fs generalizing oldest with
  | nil => exact hmem.resolve_left List.not_mem_nil
  | cons f fs ih =>
    have hf := hfs f List.mem_cons_self
    refine ih ?_ (fun g hg ↦ hfs g (List.mem_cons_of_mem _ hg)) ?_
    · rcases hmem with hmem | rfl
      · rcases List.mem_cons.mp hmem with rfl | hmem
        · right
          rcases oldest with _ | g
          · rfl
          · rcases hold g rfl with rfl | hlt
            · simp [older]
            · simp [older, hlt]
        · exact Or.inl hmem
      · right
        rcases hf with rfl | hlt
        · simp [older]
        · simp [older, not_lt_of_gt hlt]
    · intro g hg
      rcases oldest with _ | g'
      · obtain rfl : f = g := Option.some.inj hg
        exact hf
      · simp only [older] at hg
        split at hg
        · obtain rfl : f = g := Option.some.inj hg
          exact hf
        · obtain rfl : g' = g := Option.some.inj hg
          exact hold g' rfl

/-! ## The loop -/

theorem evictLoop_of_le {now n fuel : ℕ} {dir : Directory Bytes Bytes}
    (hblk : ∀ f ∈ dir.files, extension f.name = utf8 ".blk") (hle : dir.files.length ≤ n) :
    evictLoop { now := now } n (fuel + 1) dir = some dir := by
  rw [evictLoop, if_pos rfl, evictScan_eq hblk, Nat.zero_add]
  split
  · rfl
  · rfl
  · next h =>
    rw [Option.some.injEq, Prod.mk.injEq] at h
    rw [if_pos (h.1 ▸ hle)]

theorem evictLoop_of_oldest {now n fuel : ℕ} {dir : Directory Bytes Bytes}
    {o : DirFile Bytes Bytes} (hblk : ∀ f ∈ dir.files, extension f.name = utf8 ".blk")
    (hlen : dir.files.length = n + 1) (ho : o ∈ dir.files)
    (hold : ∀ f ∈ dir.files, f = o ∨ o.mtime < f.mtime) :
    evictLoop { now := now } n (fuel + 2) dir = some (dir.remove o.name) := by
  have hfold : dir.files.foldl older none = some o :=
    foldl_older (Or.inl ho) hold (fun g hg ↦ nomatch hg)
  have hless : (dir.remove o.name).files.length ≤ n := by
    have hlt : (dir.remove o.name).files.length < dir.files.length := by
      rw [Directory.remove]
      exact List.length_filter_lt_length_iff_exists.mpr ⟨o, ho, by simp⟩
    omega
  rw [evictLoop, if_pos rfl, evictScan_eq hblk, Nat.zero_add, hfold]
  simp only [hlen]
  rw [if_neg (by omega), if_pos trivial]
  exact evictLoop_of_le (fun f hf ↦ hblk f (Directory.mem_remove.mp hf).1) hless

/-! ## The store -/

/-- Writing the temporary file and renaming it is writing the block in place. -/
theorem store_eq_evictIfNeeded (c : DiskCache) (now : ℕ) (k : BlockKey) (data : Bytes) :
    c.store { now := now } k data
      = evictIfNeeded { now := now }
        { c with files := (c.files.remove (tmpFor k)).put ⟨pathFor k, now, data⟩ } := by
  rw [store, if_neg (by simp)]
  dsimp only
  rw [if_neg (by simp), if_neg (by simp), FileIo.onDisk, Directory.rename_put]

theorem evictIfNeeded_of_le {c : DiskCache} {now : ℕ}
    (hblk : ∀ f ∈ c.files.files, extension f.name = utf8 ".blk")
    (hle : c.files.files.length ≤ c.maxBlocks) : evictIfNeeded { now := now } c = some c := by
  rw [evictIfNeeded, evictLoop_of_le hblk hle, Option.map_some]

theorem evictIfNeeded_of_oldest {c : DiskCache} {now : ℕ} {o : DirFile Bytes Bytes}
    (hblk : ∀ f ∈ c.files.files, extension f.name = utf8 ".blk")
    (hlen : c.files.files.length = c.maxBlocks + 1) (ho : o ∈ c.files.files)
    (hold : ∀ f ∈ c.files.files, f = o ∨ o.mtime < f.mtime) :
    evictIfNeeded { now := now } c = some { c with files := c.files.remove o.name } := by
  rw [evictIfNeeded, hlen, evictLoop_of_oldest hblk hlen ho hold, Option.map_some]

end DiskCache

end Nanos3Reader
