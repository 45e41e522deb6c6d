import Nanos3Reader.DiskCache
import Nanos3Reader.Lib.Runs
import Nanos3Reader.Lib.Selection

/-!
# When eviction ends

`evict_if_needed` runs until the directory is within capacity, whatever the directory holds and
whichever of its files the process can stat and remove. A round takes the oldest block it can see,
so the rounds take the blocks in the order of their modification times, and a block that cannot be
removed is taken in every round from then on: the error of `remove` is looked at by nobody. The
rounds that the model's `evict_if_needed` is given are enough whenever the loop ends, by
`evictIfNeeded_eq_none_iff`.
-/

open ByteText

namespace Nanos3Reader

namespace DiskCache

variable {io : FileIo} {maxBlocks : ℕ} {dir : Directory Bytes Bytes}

/-- A file that eviction counts. -/
def isBlock (f : DirFile Bytes Bytes) : Bool := extension f.name = utf8 ".blk"

def blockCount (dir : Directory Bytes Bytes) : ℕ := dir.files.countP isBlock

/-- The blocks whose time can be read. -/
def candidates (io : FileIo) (dir : Directory Bytes Bytes) : List (DirFile Bytes Bytes) :=
  dir.files.filter fun f ↦ isBlock f && io.statable f.name

/-- The scan does not get to the end: the error of a block whose time cannot be read is met at the
next file. -/
def breaksOff (io : FileIo) (dir : Directory Bytes Bytes) : Bool :=
  dir.files.dropLast.any fun f ↦ isBlock f && !io.statable f.name

/-! ## One round -/

/-- One round of `evict_if_needed`: the directory for the next one, or `none` to return. -/
def evictRound (io : FileIo) (maxBlocks : ℕ) (dir : Directory Bytes Bytes) :
    Option (Directory Bytes Bytes) :=
  match evictScan io (if io.list then dir.files else []) false 0 none with
  | none => none
  | some (_, none) => none
  | some (count, some oldest) =>
    if count ≤ maxBlocks then none
    else some (if io.removable oldest.name then dir.remove oldest.name else dir)

theorem evictLoop_succ (io : FileIo) (maxBlocks fuel : ℕ) (dir : Directory Bytes Bytes) :
    evictLoop io maxBlocks (fuel + 1) dir
      = match evictRound io maxBlocks dir with
        | none => some dir
        | some dir' => evictLoop io maxBlocks fuel dir' := by
  rw [evictLoop, evictRound]
  rcases evictScan io (if io.list then dir.files else []) false 0 none
    with _ | ⟨count, _ | oldest⟩
  · rfl
  · rfl
  · dsimp only
    split <;> rfl

theorem foldl_older_eq_argmin (fs : List (DirFile Bytes Bytes)) :
    fs.foldl older none = fs.argmin DirFile.mtime := by
  rw [List.argmin]
  congr 1
  funext oldest f
  cases oldest <;> rfl

theorem evictScan_error (io : FileIo) (fs : List (DirFile Bytes Bytes)) (count : ℕ)
    (oldest : Option (DirFile Bytes Bytes)) :
    evictScan io fs true count oldest = if fs = [] then some (count, oldest) else none := by
  cases fs <;> rfl

theorem evictScan_files (io : FileIo) (fs : List (DirFile Bytes Bytes)) (count : ℕ)
    (oldest : Option (DirFile Bytes Bytes)) :
    evictScan io fs false count oldest
      = if fs.dropLast.any (fun f ↦ isBlock f && !io.statable f.name) then none
        else some (count + fs.countP isBlock,
          (fs.filter fun f ↦ isBlock f && io.statable f.name).foldl older oldest) := by
  induction fs generalizing count oldest with
  | nil => rfl
  | cons f fs ih =>
    by_cases hlast : fs = []
    · subst hlast
      by_cases hblk : extension f.name = utf8 ".blk"
      · by_cases hstat : io.statable f.name = true
        · simp [evictScan, isBlock, hblk, hstat]
        · simp [evictScan, isBlock, hblk, hstat]
      · simp [evictScan, isBlock, hblk]
    · rw [evictScan, if_neg (by simp), List.dropLast_cons_of_ne_nil hlast, List.any_cons,
        List.countP_cons, List.filter_cons]
      by_cases hblk : extension f.name = utf8 ".blk"
      · have hisBlock : isBlock f = true := decide_eq_true hblk
        rw [if_neg (by simp [hblk]), hisBlock]
        by_cases hstat : io.statable f.name = true
        · rw [if_neg (by simp [hstat]), ih, hstat]
          simp [Nat.add_assoc, Nat.add_comm 1]
        · rw [if_pos (by simp [hstat]), evictScan_error, if_neg hlast]
          simp [hstat]
      · have hisBlock : isBlock f = false := decide_eq_false hblk
        rw [if_pos hblk, ih, hisBlock]
        simp

theorem evictRound_eq (io : FileIo) (maxBlocks : ℕ) (dir : Directory Bytes Bytes) :
    evictRound io maxBlocks dir
      = if io.list = false ∨ breaksOff io dir = true ∨ blockCount dir ≤ maxBlocks then none
        else ((candidates io dir).argmin DirFile.mtime).map fun oldest ↦
          if io.removable oldest.name then dir.remove oldest.name else dir := by
  rw [evictRound]
  cases hlist : io.list with
  | false => rfl
  | true =>
    rw [if_pos rfl, evictScan_files, ← breaksOff, ← candidates, foldl_older_eq_argmin, Nat.zero_add,
      ← blockCount]
    cases hbreaks : breaksOff io dir with
    | true => simp
    | false =>
      cases (candidates io dir).argmin DirFile.mtime with
      | none => simp
      | some oldest =>
        simp

/-! ## The rounds in order -/

/-- The blocks that bring the directory within capacity once they are gone, the oldest first: as
many as are in excess, if there are that many to choose from. -/
def excess (io : FileIo) (maxBlocks : ℕ) (dir : Directory Bytes Bytes) :
    List (DirFile Bytes Bytes) :=
  Selection.taken DirFile.mtime (blockCount dir - maxBlocks) (candidates io dir)

/-- Eviction gets through: it gives up at once, or each block in excess can be removed. -/
def GetsThrough (io : FileIo) (maxBlocks : ℕ) (dir : Directory Bytes Bytes) : Prop :=
  io.list = false ∨ breaksOff io dir = true ∨
    ∀ f ∈ excess io maxBlocks dir, io.removable f.name = true

instance : Decidable (GetsThrough io maxBlocks dir) := by
  unfold GetsThrough
  infer_instance

section Remove

variable {f : DirFile Bytes Bytes}

theorem files_remove (hf : f ∈ dir.files) : (dir.remove f.name).files = dir.files.erase f := by
  rw [(List.Nodup.of_map _ dir.distinct).erase_eq_filter, Directory.remove]
  refine List.filter_congr fun g hg ↦ ?_
  have hiff : g.name = f.name ↔ g = f := ⟨dir.eq_of_name_eq hg hf, congrArg _⟩
  rw [Bool.eq_iff_iff]
  simp [hiff]

theorem candidates_remove (hf : f ∈ candidates io dir) :
    candidates io (dir.remove f.name) = (candidates io dir).erase f := by
  have hmem : f ∈ dir.files := List.mem_of_mem_filter hf
  have hnodup : dir.files.Nodup := List.Nodup.of_map _ dir.distinct
  rw [candidates, files_remove hmem, hnodup.erase_eq_filter, candidates,
    (hnodup.filter _).erase_eq_filter, List.filter_filter, List.filter_filter]
  simp only [Bool.and_comm]

theorem blockCount_remove (hf : f ∈ candidates io dir) :
    blockCount (dir.remove f.name) + 1 = blockCount dir := by
  obtain ⟨hmem, hcandidate⟩ := List.mem_filter.mp hf
  have hblock : isBlock f = true := (Bool.and_eq_true _ _ ▸ hcandidate).1
  have hpos : 0 < dir.files.countP isBlock := List.countP_pos_iff.mpr ⟨f, hmem, hblock⟩
  rw [blockCount, files_remove hmem, List.countP_erase, if_pos ⟨hmem, hblock⟩, blockCount]
  omega

theorem breaksOff_remove (hf : f ∈ dir.files) (h : breaksOff io dir = false) :
    breaksOff io (dir.remove f.name) = false := by
  rw [breaksOff, List.any_eq_false] at h ⊢
  rw [files_remove hf]
  have hsub : (dir.files.erase f).dropLast.Sublist dir.files.dropLast := by
    simpa using (List.erase_sublist (a := f) (l := dir.files)).reverse.tail.reverse
  exact fun g hg ↦ h g (hsub.subset hg)

end Remove

theorem of_evictRound {dir' : Directory Bytes Bytes} (h : evictRound io maxBlocks dir = some dir') :
    ∃ oldest ∈ candidates io dir,
      (dir' = if io.removable oldest.name then dir.remove oldest.name else dir) ∧
      io.list = true ∧ breaksOff io dir = false ∧
      excess io maxBlocks dir = oldest :: excess io maxBlocks (dir.remove oldest.name) := by
  rw [evictRound_eq] at h
  split at h
  · cases h
  · next hgo =>
    obtain ⟨oldest, holdest, rfl⟩ := Option.map_eq_some_iff.mp h
    obtain ⟨hlist, hbreaks, hcount⟩ : io.list = true ∧ breaksOff io dir = false ∧
        maxBlocks < blockCount dir := by simpa using hgo
    have hmem := List.argmin_mem holdest
    refine ⟨oldest, hmem, rfl, hlist, hbreaks, ?_⟩
    have hless := blockCount_remove hmem
    rw [excess, show blockCount dir - maxBlocks
      = (blockCount (dir.remove oldest.name) - maxBlocks) + 1 from by omega,
      Selection.taken_succ_of_argmin holdest, excess, candidates_remove hmem]

theorem GetsThrough.round {dir' : Directory Bytes Bytes} (h : GetsThrough io maxBlocks dir)
    (hround : evictRound io maxBlocks dir = some dir') :
    GetsThrough io maxBlocks dir' ∧ blockCount dir' < blockCount dir := by
  obtain ⟨oldest, hmem, rfl, hlist, hbreaks, hexcess⟩ := of_evictRound hround
  rcases h with hfalse | htrue | hall
  · rw [hlist] at hfalse
    cases hfalse
  · rw [hbreaks] at htrue
    cases htrue
  · rw [hexcess, List.forall_mem_cons] at hall
    rw [if_pos hall.1]
    have hless := blockCount_remove hmem
    exact ⟨.inr (.inr hall.2), by omega⟩

theorem excess_eq_nil (hlist : io.list = true) (hbreaks : breaksOff io dir = false)
    (h : evictRound io maxBlocks dir = none) : excess io maxBlocks dir = [] := by
  rw [evictRound_eq] at h
  split at h
  · next hstop =>
    have hcount : blockCount dir ≤ maxBlocks := by simpa [hlist, hbreaks] using hstop
    simp [excess, Selection.taken, Nat.sub_eq_zero_of_le hcount]
  · have hnil := List.argmin_eq_none.mp (Option.map_eq_none_iff.mp h)
    rw [excess, hnil]
    exact List.take_nil

theorem getsThrough_of_none (h : evictRound io maxBlocks dir = none) :
    GetsThrough io maxBlocks dir := by
  by_cases hlist : io.list = false
  · exact .inl hlist
  by_cases hbreaks : breaksOff io dir = true
  · exact .inr (.inl hbreaks)
  refine .inr (.inr ?_)
  rw [excess_eq_nil (Bool.of_not_eq_false hlist) (Bool.of_not_eq_true hbreaks) h]
  exact List.forall_mem_nil _

/-- An eviction that does not get through has another round, and does not get through after it. -/
theorem exists_round (h : ¬GetsThrough io maxBlocks dir) :
    ∃ dir', evictRound io maxBlocks dir = some dir' ∧ ¬GetsThrough io maxBlocks dir' := by
  cases hround : evictRound io maxBlocks dir with
  | none => exact absurd (getsThrough_of_none hround) h
  | some dir' =>
    refine ⟨dir', rfl, fun hthrough ↦ h ?_⟩
    obtain ⟨oldest, hmem, rfl, hlist, hbreaks, hexcess⟩ := of_evictRound hround
    split at hthrough
    · next hremovable =>
      rcases hthrough with hfalse | htrue | hall
      · exact .inl hfalse
      · rw [breaksOff_remove (List.mem_of_mem_filter hmem) hbreaks] at htrue
        cases htrue
      · refine .inr (.inr ?_)
        rw [hexcess, List.forall_mem_cons]
        exact ⟨hremovable, hall⟩
    · exact hthrough

/-! ## The whole loop -/

theorem evictLoop_ne_none (h : GetsThrough io maxBlocks dir) {fuel : ℕ}
    (hfuel : blockCount dir < fuel) : evictLoop io maxBlocks fuel dir ≠ none := by
  induction fuel generalizing dir with
  | zero => omega
  | succ fuel ih =>
    rw [evictLoop_succ]
    cases hround : evictRound io maxBlocks dir with
    | none => simp
    | some dir' =>
      obtain ⟨hthrough, hless⟩ := h.round hround
      exact ih hthrough (by omega)

theorem evictLoop_eq_none (h : ¬GetsThrough io maxBlocks dir) (fuel : ℕ) :
    evictLoop io maxBlocks fuel dir = none := by
  induction fuel generalizing dir with
  | zero => rfl
  | succ fuel ih =>
    obtain ⟨dir', hround, hstuck⟩ := exists_round h
    rw [evictLoop_succ, hround]
    exact ih hstuck

/-- The rounds that `evict_if_needed` is given are enough if any are. -/
theorem evictIfNeeded_eq_none_iff {c : DiskCache} :
    evictIfNeeded io c = none ↔ ¬GetsThrough io c.maxBlocks c.files := by
  rw [evictIfNeeded, Option.map_eq_none_iff]
  constructor
  · intro hnone hthrough
    exact evictLoop_ne_none hthrough (Nat.lt_succ_of_le List.countP_le_length) hnone
  · exact fun h ↦ evictLoop_eq_none h _

theorem blockCount_of_none (hlist : io.list = true)
    (hstat : ∀ f ∈ dir.files, isBlock f = true → io.statable f.name = true)
    (h : evictRound io maxBlocks dir = none) : blockCount dir ≤ maxBlocks := by
  rw [evictRound_eq] at h
  split at h
  · next hstop =>
    have hbreaks : breaksOff io dir = false := by
      rw [breaksOff, List.any_eq_false]
      intro f hf
      by_cases hblock : isBlock f = true
      · simp [hstat f (List.dropLast_subset _ hf) hblock]
      · simp [hblock]
    simpa [hlist, hbreaks] using hstop
  · -- no candidate means no block
    have hnil := List.argmin_eq_none.mp (Option.map_eq_none_iff.mp h)
    have hzero : blockCount dir = 0 := by
      rw [blockCount, List.countP_eq_zero]
      intro f hf hblock
      have hmem : f ∈ candidates io dir :=
        List.mem_filter.mpr ⟨hf, by simp [hblock, hstat f hf hblock]⟩
      rw [hnil] at hmem
      cases hmem
    omega

theorem blockCount_of_evictLoop (hlist : io.list = true)
    (hstat : ∀ f ∈ dir.files, isBlock f = true → io.statable f.name = true) {fuel : ℕ}
    {dir' : Directory Bytes Bytes} (h : evictLoop io maxBlocks fuel dir = some dir') :
    blockCount dir' ≤ maxBlocks := by
  induction fuel generalizing dir with
  | zero => cases h
  | succ fuel ih =>
    rw [evictLoop_succ] at h
    cases hround : evictRound io maxBlocks dir with
    | none =>
      rw [hround] at h
      cases h
      exact blockCount_of_none hlist hstat hround
    | some dir₁ =>
      rw [hround] at h
      obtain ⟨oldest, hmem, rfl, -⟩ := of_evictRound hround
      refine ih (fun f hf ↦ hstat f ?_) h
      split at hf
      · exact (Directory.mem_remove.mp hf).1
      · exact hf

/-- Eviction of `dir` removes the file called `name`. -/
def Evicts (io : FileIo) (maxBlocks : ℕ) (dir : Directory Bytes Bytes) (name : Bytes) : Prop :=
  io.list = true ∧ breaksOff io dir = false ∧ ∃ f ∈ excess io maxBlocks dir, f.name = name

instance (name : Bytes) : Decidable (Evicts io maxBlocks dir name) := by
  unfold Evicts
  infer_instance

theorem not_evicts_of_none (h : evictRound io maxBlocks dir = none) (name : Bytes) :
    ¬Evicts io maxBlocks dir name := by
  rintro ⟨hlist, hbreaks, f, hf, -⟩
  rw [excess_eq_nil hlist hbreaks h] at hf
  exact List.not_mem_nil hf

/-- **What eviction leaves**: all but the blocks in excess. -/
theorem find?_of_evictLoop {fuel : ℕ} {dir' : Directory Bytes Bytes}
    (h : evictLoop io maxBlocks fuel dir = some dir') (name : Bytes) :
    dir'.find? name = if Evicts io maxBlocks dir name then none else dir.find? name := by
  induction fuel generalizing dir with
  | zero => cases h
  | succ fuel ih =>
    have hthrough : GetsThrough io maxBlocks dir := by
      by_contra hstuck
      rw [evictLoop_eq_none hstuck] at h
      cases h
    rw [evictLoop_succ] at h
    cases hround : evictRound io maxBlocks dir with
    | none =>
      rw [hround] at h
      cases h
      rw [if_neg (not_evicts_of_none hround name)]
    | some dir₁ =>
      rw [hround] at h
      obtain ⟨oldest, hmem, rfl, hlist, hbreaks, hexcess⟩ := of_evictRound hround
      have hremovable : io.removable oldest.name = true := by
        have hall : ∀ f ∈ excess io maxBlocks dir, io.removable f.name = true := by
          simpa [GetsThrough, hlist, hbreaks] using hthrough
        exact hall oldest (by simp [hexcess])
      have hbreaks' := breaksOff_remove (List.mem_of_mem_filter hmem) hbreaks
      have hiff : Evicts io maxBlocks dir name ↔
          name = oldest.name ∨ Evicts io maxBlocks (dir.remove oldest.name) name := by
        simp [Evicts, hlist, hbreaks, hbreaks', hexcess, eq_comm]
      rw [if_pos hremovable] at h
      rw [ih h, Directory.find?_remove]
      simp only [hiff]
      split <;> split <;> simp_all

/-- What is asked of eviction: it returns after finitely many rounds, each of which leaves fewer
blocks or is the last, and leaves no more of them than the capacity if it can read and remove all of
them. -/
structure EvictionEnds (io : FileIo) (c : DiskCache) : Prop where
  returns : ∃ fuel dir', evictLoop io c.maxBlocks fuel c.files = some dir'
  reduces : ∀ dir dir', Relation.ReflTransGen
    (fun d d' ↦ evictRound io c.maxBlocks d = some d') c.files dir →
    evictRound io c.maxBlocks dir = some dir' → blockCount dir' < blockCount dir
  fits : io.list = true → (∀ f ∈ c.files.files, isBlock f = true →
    io.statable f.name = true ∧ io.removable f.name = true) →
    ∀ fuel dir', evictLoop io c.maxBlocks fuel c.files = some dir' → blockCount dir' ≤ c.maxBlocks

/-- **When eviction ends**: exactly if it gives up at its first scan, or every block in excess, the
oldest first, can be removed. -/
theorem evictionEnds_iff_getsThrough (io : FileIo) (c : DiskCache) :
    EvictionEnds io c ↔ GetsThrough io c.maxBlocks c.files := by
  constructor
  · rintro ⟨⟨fuel, dir', hreturns⟩, -, -⟩
    by_contra hstuck
    rw [evictLoop_eq_none hstuck] at hreturns
    cases hreturns
  · intro hthrough
    refine ⟨?_, fun dir dir' hreached hround ↦ ?_, fun hlist hall fuel dir' hreturns ↦ ?_⟩
    · exact ⟨_, Option.ne_none_iff_exists'.mp
        (evictLoop_ne_none hthrough (Nat.lt_succ_self (blockCount c.files)))⟩
    · have hstill := Runs.invariant (I := GetsThrough io c.maxBlocks)
        (fun _ _ h hstep ↦ (h.round hstep).1) hthrough hreached
      exact (hstill.round hround).2
    · exact blockCount_of_evictLoop hlist (fun f hf hf' ↦ (hall f hf hf').1) hreturns

/-- A cache for two blocks, in a directory of three. -/
def overfull : DiskCache where
  enabled := true
  maxBlocks := 2
  files := ⟨[⟨utf8 "old.blk", 1, []⟩, ⟨utf8 "a.blk", 2, []⟩, ⟨utf8 "b.blk", 3, []⟩], by decide⟩

/-- The oldest of three blocks, which cannot be removed, is tried over and over again. -/
theorem not_evictionEnds_overfull :
    (∀ fuel, evictLoop { now := 4, removable := fun name ↦ name ≠ utf8 "old.blk" }
      overfull.maxBlocks fuel overfull.files = none) ∧
    ¬EvictionEnds { now := 4, removable := fun name ↦ name ≠ utf8 "old.blk" } overfull := by
  have hstuck : ¬GetsThrough { now := 4, removable := fun name ↦ name ≠ utf8 "old.blk" }
      overfull.maxBlocks overfull.files := by decide +kernel
  refine ⟨evictLoop_eq_none hstuck, ?_⟩
  rintro ⟨⟨fuel, dir', hreturns⟩, -, -⟩
  rw [evictLoop_eq_none hstuck] at hreturns
  cases hreturns

end DiskCache

end Nanos3Reader
