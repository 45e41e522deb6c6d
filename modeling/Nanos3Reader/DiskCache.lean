import Nanos3Reader.Lib.ByteText
import Nanos3Reader.Lib.Directory

/-!
# The disk-resident block cache

`DiskCache` keeps fetched blocks as flat files in one directory, named after a hash of the object's
URI and the chunk's start. The replacement order lives only in the files' modification times: a hit
touches its file, a store writes a new one, and a store then deletes the oldest `*.blk` files until
the directory is within capacity.

Every file operation can fail, and most failures are swallowed. `FileIo` records, for one call,
which of them succeed and what the file clock reads; the definitions below branch on it exactly
where the source tests a stream or an `error_code`. Calls run under one mutex, so a history of the
cache is a sequence of calls.

Two readings of the cache are developed from this model in other files: as a map from blocks to
bytes, and as an LRU list.
-/

open ByteText

namespace Nanos3Reader

/-! ## File names -/

/-- The djb2 hash of a URI, in 64-bit arithmetic. -/
def djb2 (uri : Bytes) : UInt64 :=
  uri.foldl (fun h c ↦ ((h <<< (5 : UInt64)) + h) + c.toUInt64) 5381

/-- `kHex[d]`. -/
def hexDigit16 (d : UInt64) : UInt8 := (if d < 10 then 48 + d else 87 + d).toUInt8

/-- The loop of `hex16`: `n` digits in front of `acc`, the last one first. -/
def hex16Loop : ℕ → UInt64 → Bytes → Bytes
  | 0, _, acc => acc
  | n + 1, v, acc => hex16Loop n (v >>> (4 : UInt64)) (hexDigit16 (v &&& (0xF : UInt64)) :: acc)

def hex16 (v : UInt64) : Bytes := hex16Loop 16 v []

/-- What a block is stored under: the object's URI and the offset its chunk starts at. -/
structure BlockKey where
  uri : Bytes
  chunkStart : UInt64
deriving DecidableEq

/-- The name of a block's file inside the cache directory. -/
def pathFor (k : BlockKey) : Bytes :=
  hex16 (djb2 k.uri) ++ utf8 "_" ++ hex16 k.chunkStart ++ utf8 ".blk"

/-- The temporary file a block is written to before it is renamed into place. -/
def tmpFor (k : BlockKey) : Bytes := pathFor k ++ utf8 ".tmp"

/-- `std::filesystem::path::extension` of a file name: from the last dot on, unless the name has
no dot or only a leading one. -/
def extension (name : Bytes) : Bytes :=
  let suffix := (name.reverse.takeWhile (· ≠ 46)).reverse
  if name.length ≤ suffix.length + 1 then [] else 46 :: suffix

/-! ## The file system under one call -/

/-- The outcomes of the file operations of one call, and the file clock during it. -/
structure FileIo where
  /-- What the file clock reads. -/
  now : ℕ
  /-- `try_load`: `file_size`, opening, reading, `last_write_time`. -/
  stat : Bool := true
  opened : Bool := true
  read : Bool := true
  touch : Bool := true
  /-- `store`: opening the temporary file, `write`, `rename`, removing the temporary file. -/
  create : Bool := true
  write : Bool := true
  rename : Bool := true
  unlink : Bool := true
  /-- How much of the block reaches the disk; `none` when all of it does. The stream buffers, and
  what it loses when it is closed on destruction is reported to nobody. -/
  kept : Option ℕ := none
  /-- `evict_if_needed`: opening the directory, and which files can be statted and removed. -/
  list : Bool := true
  statable : Bytes → Bool := fun _ ↦ true
  removable : Bytes → Bool := fun _ ↦ true

/-- Every file operation of the call succeeds. -/
def FileIo.Succeeds (io : FileIo) : Prop := io = { now := io.now }

/-- The bytes of `data` that reach the disk. -/
def FileIo.onDisk (io : FileIo) (data : Bytes) : Bytes :=
  match io.kept with
  | none => data
  | some n => data.take n

/-- A store of `data` gets as far as renaming its block into place. -/
def FileIo.places (io : FileIo) (data : Bytes) : Bool :=
  io.create && (data == [] || io.write) && io.rename

/-! ## The cache -/

/-- `DiskCache`, together with the contents of its directory. -/
structure DiskCache where
  enabled : Bool := false
  dir : Bytes := []
  maxBlocks : ℕ := 0
  hits : UInt64 := 0
  misses : UInt64 := 0
  files : Directory Bytes Bytes := .empty

namespace DiskCache

/-- `std::clamp(max_blocks, 2, 500)`. -/
def capacity (maxBlocks : ℤ) : ℕ := (max 2 (min maxBlocks 500)).toNat

/-- `configure`, given whether `create_directories` succeeds and what the directory then holds. -/
def configure (c : DiskCache) (dir : Bytes) (maxBlocks : ℤ) (created : Bool)
    (found : Directory Bytes Bytes) : Bool × DiskCache :=
  if maxBlocks ≤ 0 then (true, { c with enabled := false })
  else if !created then (false, { c with enabled := false })
  else
    (true, { c with enabled := true, dir := dir, maxBlocks := capacity maxBlocks, files := found })

def stats (c : DiskCache) : UInt64 × UInt64 := (c.hits, c.misses)

def miss (c : DiskCache) : DiskCache := { c with misses := c.misses + 1 }

/-- `try_load`: the block on a hit, whose file then becomes the most recently used. -/
def tryLoad (io : FileIo) (c : DiskCache) (k : BlockKey) : Option Bytes × DiskCache :=
  match c.files.find? (pathFor k) with
  | none => (none, c.miss)
  | some f =>
    if !io.stat || !io.opened then (none, c.miss)
    else if f.data ≠ [] ∧ io.read = false then (none, c.miss)
    else
      (some f.data,
        { c with
          hits := c.hits + 1
          files := if io.touch then c.files.touch (pathFor k) io.now else c.files })

/-! ### Eviction -/

/-- The candidate after `f` was seen. -/
def older (oldest : Option (DirFile Bytes Bytes)) (f : DirFile Bytes Bytes) :
    Option (DirFile Bytes Bytes) :=
  match oldest with
  | none => some f
  | some g => if f.mtime < g.mtime then some f else some g

/-- One scan of the directory: the number of blocks and the oldest of them that could be statted.
`ec` is the error code of the previous `last_write_time`, which ends the scan (`none`) when it is
still set at the next entry. -/
def evictScan (io : FileIo) : List (DirFile Bytes Bytes) → Bool → ℕ →
    Option (DirFile Bytes Bytes) → Option (ℕ × Option (DirFile Bytes Bytes))
  | [], _, count, oldest => some (count, oldest)
  | f :: fs, ec, count, oldest =>
    if ec then none
    else if extension f.name ≠ utf8 ".blk" then evictScan io fs false count oldest
    else if !io.statable f.name then evictScan io fs true (count + 1) oldest
    else evictScan io fs false (count + 1) (older oldest f)

/-- The loop of `evict_if_needed`, cut off after `fuel` rounds; `none` when it is still going. -/
def evictLoop (io : FileIo) (maxBlocks : ℕ) : ℕ → Directory Bytes Bytes →
    Option (Directory Bytes Bytes)
  | 0, _ => none
  | fuel + 1, dir =>
    match evictScan io (if io.list then dir.files else []) false 0 none with
    | none => some dir
    | some (_, none) => some dir
    | some (count, some oldest) =>
      if count ≤ maxBlocks then some dir
      else
        evictLoop io maxBlocks fuel
          (if io.removable oldest.name then dir.remove oldest.name else dir)

/-- `evict_if_needed`. A round that does not return removes a file or changes nothing at all, so
more rounds than there are files cannot help: `none` means that the loop never ends. -/
def evictIfNeeded (io : FileIo) (c : DiskCache) : Option DiskCache :=
  (evictLoop io c.maxBlocks (c.files.files.length + 1) c.files).map fun dir ↦
    { c with files := dir }

/-- `store`; `none` when its eviction never ends. -/
def store (io : FileIo) (c : DiskCache) (k : BlockKey) (data : Bytes) : Option DiskCache :=
  if !io.create then some c
  else
    let written := c.files.put ⟨tmpFor k, io.now, io.onDisk data⟩
    let cleaned := if io.unlink then written.remove (tmpFor k) else written
    if data ≠ [] ∧ io.write = false then some { c with files := cleaned }
    else if !io.rename then some { c with files := cleaned }
    else evictIfNeeded io { c with files := written.rename (tmpFor k) (pathFor k) }

/-! ### Histories -/

/-- A call of the cache. -/
inductive Call where
  | store (k : BlockKey) (data : Bytes)
  | tryLoad (k : BlockKey)

def Call.key : Call → BlockKey
  | .store k _ => k
  | .tryLoad k => k

/-- One call: what `try_load` delivers, and the cache after it. -/
def step (io : FileIo) (c : DiskCache) : Call → Option (Option Bytes × DiskCache)
  | .store k data => (c.store io k data).map fun c' ↦ (none, c')
  | .tryLoad k => some (c.tryLoad io k)

/-- A history of calls, with what each delivered; `none` when one of them never returned. -/
def run (c : DiskCache) : List (FileIo × Call) → Option (List (Option Bytes) × DiskCache)
  | [] => some ([], c)
  | (io, call) :: rest =>
    (c.step io call).bind fun p ↦ (p.2.run rest).map fun q ↦ (p.1 :: q.1, q.2)

/-- The cache after it was enabled on an empty directory. -/
def fresh (dir : Bytes) (maxBlocks : ℤ) : DiskCache :=
  (configure {} dir maxBlocks true .empty).2

/-! ### The cache as a map from names to bytes

What one call does to the contents of the block files, whichever of its file operations fail. -/

/-- The contents of the block file of `k`. -/
def block (c : DiskCache) (k : BlockKey) : Option Bytes := c.files.read? (pathFor k)

theorem length_hex16Loop (n : ℕ) (v : UInt64) (acc : Bytes) :
    (hex16Loop n v acc).length = n + acc.length := by
  induction n generalizing v acc with
  | zero => simp [hex16Loop]
  | succ n ih =>
    rw [hex16Loop, ih, List.length_cons]
    omega

/-- No temporary file is named like a block: it is four bytes longer than all of them. -/
theorem tmpFor_ne_pathFor (k k' : BlockKey) : tmpFor k ≠ pathFor k' := by
  intro h
  have htmp : (utf8 ".tmp").length = 4 := by decide
  have hlen := congrArg List.length h
  simp only [tmpFor, pathFor, hex16, List.length_append, length_hex16Loop, List.length_nil] at hlen
  omega

theorem extension_pathFor (k : BlockKey) : extension (pathFor k) = utf8 ".blk" := by
  have hblk : utf8 ".blk" = [46, 98, 108, 107] := by decide
  have hlen : (hex16 (djb2 k.uri)).length = 16 := length_hex16Loop 16 _ []
  have hlong : 4 < 16 + ((utf8 "_").length + ((hex16 k.chunkStart).length + 4)) := by omega
  simpa [extension, pathFor, hblk, hlen] using hlong

theorem evictLoop_subset {io : FileIo} {maxBlocks fuel : ℕ} {dir dir' : Directory Bytes Bytes}
    (h : evictLoop io maxBlocks fuel dir = some dir') : ∀ f ∈ dir'.files, f ∈ dir.files := by
  induction fuel generalizing dir with
  | zero => simp [evictLoop] at h
  | succ fuel ih =>
    rw [evictLoop] at h
    split at h
    · cases h
      exact fun f hf ↦ hf
    · cases h
      exact fun f hf ↦ hf
    · split at h
      · cases h
        exact fun f hf ↦ hf
      · intro f hf
        have hmem := ih h f hf
        split at hmem
        · exact (Directory.mem_remove.mp hmem).1
        · exact hmem

theorem block_of_evictIfNeeded {io : FileIo} {c c' : DiskCache} {k : BlockKey} {d : Bytes}
    (h : evictIfNeeded io c = some c') (hd : c'.block k = some d) : c.block k = some d := by
  obtain ⟨dir', hdir, rfl⟩ := Option.map_eq_some_iff.mp h
  obtain ⟨f, hf, rfl⟩ := Option.map_eq_some_iff.mp hd
  obtain ⟨hmem, hname⟩ := Directory.find?_eq_some_iff.mp hf
  have hfind : c.files.find? (pathFor k) = some f :=
    Directory.find?_eq_some_iff.mpr ⟨evictLoop_subset hdir f hmem, hname⟩
  rw [block, Directory.read?, hfind, Option.map_some]

/-- **What a store does.** A block present afterwards is the one just written, or was there before
and has another name. -/
theorem block_of_store {io : FileIo} {c c' : DiskCache} {k k' : BlockKey} {data d : Bytes}
    (h : c.store io k data = some c') (hd : c'.block k' = some d) :
    if io.places data ∧ pathFor k' = pathFor k then d = io.onDisk data
    else c.block k' = some d := by
  have hne := (tmpFor_ne_pathFor k k').symm
  rw [store] at h
  split at h
  · next hcreate =>
    cases h
    rwa [if_neg (by simp_all [FileIo.places])]
  -- A store that stops before the rename leaves every block file alone, temporary file or not.
  · have hclean : ∀ c'' : DiskCache, c''.files = (if io.unlink
        then (c.files.put ⟨tmpFor k, io.now, io.onDisk data⟩).remove (tmpFor k)
        else c.files.put ⟨tmpFor k, io.now, io.onDisk data⟩) → c''.block k' = c.block k' := by
      intro c'' hc
      rw [block, hc]
      split <;> simp [hne, block]
    dsimp only at h
    split at h
    · next hwrite =>
      cases h
      rw [if_neg (by simp [FileIo.places, hwrite.1, hwrite.2])]
      rwa [hclean _ rfl] at hd
    · split at h
      · next hrename =>
        cases h
        rw [if_neg (by simp_all [FileIo.places])]
        rwa [hclean _ rfl] at hd
      · next hcreate hwrite hrename =>
        have hb := block_of_evictIfNeeded h hd
        have hread : (c.files.put ⟨tmpFor k, io.now, io.onDisk data⟩).read? (tmpFor k)
            = some (io.onDisk data) := by simp
        rw [block, Directory.read?_rename hread, Directory.read?_put, if_neg hne] at hb
        have hplaces : io.places data = true := by
          simp only [not_and, Bool.not_eq_false, ne_eq] at hwrite
          by_cases hdata : data = []
          · simp_all [FileIo.places]
          · simp_all [FileIo.places]
        by_cases hk : pathFor k' = pathFor k
        · rw [if_pos hk, Option.some.injEq] at hb
          rw [if_pos ⟨hplaces, hk⟩, hb]
        · rw [if_neg hk, if_neg hne] at hb
          rwa [if_neg (fun hc ↦ hk hc.2)]

theorem block_of_tryLoad {io : FileIo} {c c' : DiskCache} {k : BlockKey} {out : Bytes}
    (h : c.tryLoad io k = (some out, c')) : c.block k = some out := by
  rw [tryLoad] at h
  split at h
  · simp at h
  · next f hf =>
    split at h
    · simp at h
    · split at h
      · simp at h
      · rw [Prod.mk.injEq, Option.some.injEq] at h
        rw [block, Directory.read?, hf, Option.map_some, h.1]

@[simp] theorem block_tryLoad (io : FileIo) (c : DiskCache) (k k' : BlockKey) :
    (c.tryLoad io k).2.block k' = c.block k' := by
  rw [tryLoad]
  split
  · rfl
  · split
    · rfl
    · split
      · rfl
      · dsimp only [block]
        split <;> simp

end DiskCache

end Nanos3Reader
