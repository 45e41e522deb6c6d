import Nanos3Reader.DiskCache.Eviction
import Nanos3Reader.DiskCache.Evict

/-!
# What eviction spares

Eviction removes the oldest blocks until the directory is within capacity. So blocks written or
touched since some instant are safe as long as no more of them than fit have been, whatever else the
directory holds and however much of it there is.
-/

open ByteText

namespace Nanos3Reader

namespace DiskCache

/-- A block file with a time from `since` on. -/
def isRecent (since : ℕ) (f : DirFile Bytes Bytes) : Bool := isBlock f && since ≤ f.mtime

/-- The recent blocks of `c` are among those called `names`. -/
def RecentIn (since : ℕ) (names : List Bytes) (c : DiskCache) : Prop :=
  ∀ f ∈ c.files.files, isRecent since f = true → f.name ∈ names

variable {since now : ℕ} {names : List Bytes} {c c' : DiskCache}

theorem countP_isRecent_le (h : c.RecentIn since names) :
    c.files.files.countP (isRecent since) ≤ names.length := by
  have hdistinct : ((c.files.files.filter (isRecent since)).map DirFile.name).Nodup :=
    c.files.distinct.sublist (List.filter_sublist.map _)
  have hsub : (c.files.files.filter (isRecent since)).map DirFile.name ⊆ names := by
    intro name hname
    obtain ⟨f, hf, rfl⟩ := List.mem_map.mp hname
    obtain ⟨hmem, hrecent⟩ := List.mem_filter.mp hf
    exact h f hmem hrecent
  have hle := (hdistinct.subperm hsub).length_le
  rwa [List.length_map, ← List.countP_eq_length_filter] at hle

/-- The blocks in excess are older than a recent one, if the recent ones fit. -/
theorem not_evicts_of_isRecent {dir : Directory Bytes Bytes} {maxBlocks : ℕ}
    (hfits : dir.files.countP (isRecent since) ≤ maxBlocks) {f : DirFile Bytes Bytes}
    (hf : f ∈ dir.files) (hrecent : isRecent since f = true) :
    ¬Evicts { now := now } maxBlocks dir f.name := by
  rintro ⟨-, -, g, hg, hname⟩
  have hcandidates : candidates { now := now } dir = dir.files.filter isBlock := by
    simp [candidates]
  rw [excess, hcandidates] at hg
  obtain rfl : g = f :=
    dir.eq_of_name_eq (List.mem_of_mem_filter (Selection.mem_of_mem_taken hg)) hf hname
  have hless := Selection.countP_lt_of_mem_taken hg
  -- every block is recent or older than `g`
  have hcover : blockCount dir ≤ dir.files.countP (isRecent since) +
      (dir.files.filter isBlock).countP (fun b ↦ b.mtime < g.mtime) := by
    obtain ⟨-, hsince⟩ : isBlock g = true ∧ since ≤ g.mtime := by simpa [isRecent] using hrecent
    rw [blockCount, List.countP_eq_countP_filter_add _ isBlock fun b ↦ !decide (b.mtime < g.mtime)]
    refine Nat.add_le_add ?_ (le_of_eq ?_)
    · rw [List.countP_filter]
      refine List.countP_mono_left fun b _ hb ↦ ?_
      simp only [Bool.and_eq_true, Bool.not_eq_true', decide_eq_false_iff_not, not_lt] at hb
      simp [isRecent, hb.1, hsince.trans hb.2]
    · rw [List.countP_filter, List.countP_filter]
      simp [Bool.and_comm]
  omega

/-- The block of `k` is `data`, and recent. -/
def HasRecent (since : ℕ) (c : DiskCache) (k : BlockKey) (data : Bytes) : Prop :=
  ∃ f, c.files.find? (pathFor k) = some f ∧ since ≤ f.mtime ∧ f.data = data

theorem HasRecent.block_eq {k : BlockKey} {data : Bytes} (h : HasRecent since c k data) :
    c.block k = some data := by
  obtain ⟨f, hf, -, rfl⟩ := h
  rw [block, Directory.read?, hf, Option.map_some]

theorem isRecent_of_name {k : BlockKey} {f : DirFile Bytes Bytes} (hname : f.name = pathFor k)
    (hsince : since ≤ f.mtime) : isRecent since f = true := by
  simp [isRecent, isBlock, hname, extension_pathFor, hsince]

theorem recent_of_store (hsince : since ≤ now) (hnames : c.RecentIn since names)
    (hfits : names.length ≤ c.maxBlocks) {k : BlockKey} (hk : pathFor k ∈ names) {data : Bytes}
    (h : c.store { now := now } k data = some c') :
    c'.RecentIn since names ∧ c'.maxBlocks = c.maxBlocks ∧ HasRecent since c' k data ∧
      ∀ k' d, pathFor k' ≠ pathFor k → HasRecent since c k' d → HasRecent since c' k' d := by
  rw [store_eq_evictIfNeeded, evictIfNeeded] at h
  set placed : DiskCache :=
    { c with files := (c.files.remove (tmpFor k)).put ⟨pathFor k, now, data⟩ }
  obtain ⟨dir, hdir, rfl⟩ := Option.map_eq_some_iff.mp h
  have hin : placed.RecentIn since names := by
    intro f hf hrecent
    rcases Directory.mem_put.mp hf with ⟨hold, -⟩ | rfl
    · exact hnames f (Directory.mem_remove.mp hold).1 hrecent
    · exact hk
  have hkept : ∀ f ∈ placed.files.files, isRecent since f = true →
      dir.find? f.name = some f := by
    intro f hf hrecent
    rw [find?_of_evictLoop hdir, if_neg (not_evicts_of_isRecent
      ((countP_isRecent_le hin).trans hfits) hf hrecent), Directory.find?_eq_some_iff]
    exact ⟨hf, rfl⟩
  refine ⟨fun f hf ↦ hin f (evictLoop_subset hdir f hf), rfl, ?_, ?_⟩
  · refine ⟨⟨pathFor k, now, data⟩, ?_, hsince, rfl⟩
    exact hkept _ (Directory.mem_put.mpr (.inr rfl)) (isRecent_of_name rfl hsince)
  · rintro k' d hne ⟨f, hf, hle, rfl⟩
    obtain ⟨hmem, hname⟩ := Directory.find?_eq_some_iff.mp hf
    have hplace : f ∈ placed.files.files := by
      refine Directory.mem_put.mpr (.inl ⟨Directory.mem_remove.mpr ⟨hmem, ?_⟩, hname ▸ hne⟩)
      exact hname ▸ (tmpFor_ne_pathFor k k').symm
    exact ⟨f, hname ▸ hkept f hplace (isRecent_of_name hname hle), hle, rfl⟩

theorem tryLoad_of_none {k : BlockKey} (h : c.block k = none) (io : FileIo) :
    c.tryLoad io k = (none, c.miss) := by
  rw [block, Directory.read?, Option.map_eq_none_iff] at h
  rw [tryLoad, h]

theorem tryLoad_of_some {k : BlockKey} {data : Bytes} (h : c.block k = some data) :
    c.tryLoad { now := now } k
      = (some data,
        { c with hits := c.hits + 1, files := c.files.touch (pathFor k) now }) := by
  obtain ⟨f, hf, rfl⟩ := Option.map_eq_some_iff.mp h
  simp [tryLoad, hf]

theorem recent_of_tryLoad (hsince : since ≤ now) {k : BlockKey} {data : Bytes}
    (h : c.block k = some data) :
    HasRecent since (c.tryLoad { now := now } k).2 k data ∧
      (∀ k' d, HasRecent since c k' d → HasRecent since (c.tryLoad { now := now } k).2 k' d) ∧
      ∀ names, pathFor k ∈ names → c.RecentIn since names →
        (c.tryLoad { now := now } k).2.RecentIn since names := by
  rw [tryLoad_of_some h]
  refine ⟨?_, ?_, fun names hk hnames f hf hrecent ↦ ?_⟩
  · obtain ⟨f, hf, rfl⟩ := Option.map_eq_some_iff.mp h
    have hname := (Directory.find?_eq_some_iff.mp hf).2
    refine ⟨{ f with mtime := now }, ?_, hsince, rfl⟩
    rw [Directory.find?_touch, hf, Option.map_some, if_pos hname]
  · rintro k' d ⟨f, hf, hle, rfl⟩
    by_cases hname : f.name = pathFor k
    · refine ⟨{ f with mtime := now }, ?_, hsince, rfl⟩
      rw [Directory.find?_touch, hf, Option.map_some, if_pos hname]
    · refine ⟨f, ?_, hle, rfl⟩
      rw [Directory.find?_touch, hf, Option.map_some, if_neg hname]
  · obtain ⟨g, hg, rfl⟩ := List.mem_map.mp hf
    split at hrecent
    · next hname => rwa [if_pos hname, hname]
    · next hname =>
      rw [if_neg hname]
      exact hnames g hg hrecent

end DiskCache

end Nanos3Reader
