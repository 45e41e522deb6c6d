import Nanos3Reader.DiskCache.Eviction

/-!
# Torn blocks

A store writes its block to a temporary file and renames that into place, so that no reader meets a
block half written. What it does not see is the last of the writing: the stream holds bytes back
until it is destroyed, and a destructor reports no error. A block that lost bytes there is renamed
into place like any other.
-/

open ByteText

namespace Nanos3Reader

namespace DiskCache

/-- The directory after `store` has renamed its block into place. -/
def placed (io : FileIo) (c : DiskCache) (k : BlockKey) (data : Bytes) : Directory Bytes Bytes :=
  (c.files.remove (tmpFor k)).put ⟨pathFor k, io.now, io.onDisk data⟩

/-- What is asked of a store: the block is what it was, or absent, or exactly `data`. -/
def Intact (c c' : DiskCache) (k : BlockKey) (data : Bytes) : Prop :=
  c'.block k = c.block k ∨ c'.block k = none ∨ c'.block k = some data

/-- The store renames a block into place that has lost bytes, over one with other contents, and the
eviction that follows does not remove it. -/
def Tears (io : FileIo) (c : DiskCache) (k : BlockKey) (data : Bytes) : Prop :=
  io.places data = true ∧ io.onDisk data ≠ data ∧ c.block k ≠ some (io.onDisk data) ∧
    ¬Evicts io c.maxBlocks (placed io c k data) (pathFor k)

instance (io : FileIo) (c : DiskCache) (k : BlockKey) (data : Bytes) :
    Decidable (Tears io c k data) := by
  unfold Tears
  infer_instance

variable {io : FileIo} {c c' : DiskCache} {k k' : BlockKey} {data : Bytes}

/-- A store that gets as far as the rename is the eviction of what is then in the directory. -/
theorem store_of_places (h : io.places data = true) :
    c.store io k data = evictIfNeeded io { c with files := placed io c k data } := by
  obtain ⟨⟨hcreate, hwrite⟩, hrename⟩ : (io.create = true ∧ (data = [] ∨ io.write = true)) ∧
      io.rename = true := by simpa [FileIo.places] using h
  rw [store, if_neg (by simp [hcreate])]
  dsimp only
  rw [if_neg, if_neg (by simp [hrename]), Directory.rename_put, placed]
  rintro ⟨hdata, hfalse⟩
  rcases hwrite with hnil | htrue
  · exact hdata hnil
  · rw [htrue] at hfalse
    cases hfalse

theorem block_of_not_places (h : io.places data = false) (hstore : c.store io k data = some c') :
    c'.block k' = c.block k' := by
  have hne := (tmpFor_ne_pathFor k k').symm
  have hclean : ∀ c₁ : DiskCache, c₁.files = (if io.unlink
      then (c.files.put ⟨tmpFor k, io.now, io.onDisk data⟩).remove (tmpFor k)
      else c.files.put ⟨tmpFor k, io.now, io.onDisk data⟩) → c₁.block k' = c.block k' := by
    intro c₁ hc₁
    rw [block, hc₁]
    split <;> simp [hne, block]
  rw [store] at hstore
  split at hstore
  · cases hstore
    rfl
  · next hcreate =>
    dsimp only at hstore
    split at hstore
    · cases hstore
      exact hclean _ rfl
    · next hwrite =>
      split at hstore
      · cases hstore
        exact hclean _ rfl
      · next hrename =>
        -- nothing failed before the rename, so the block was placed
        refine absurd h ?_
        simp only [not_and, Bool.not_eq_false, ne_eq] at hwrite
        by_cases hdata : data = [] <;> simp_all [FileIo.places]

/-- **What a store leaves of its block.** -/
theorem block_store (h : c.store io k data = some c') :
    c'.block k
      = if io.places data = false then c.block k
        else if Evicts io c.maxBlocks (placed io c k data) (pathFor k) then none
        else some (io.onDisk data) := by
  cases hplaces : io.places data with
  | false => exact block_of_not_places hplaces h
  | true =>
    rw [store_of_places hplaces] at h
    obtain ⟨dir', hdir, rfl⟩ := Option.map_eq_some_iff.mp h
    rw [if_neg (by simp), block, Directory.read?, find?_of_evictLoop hdir]
    split
    · rfl
    · rw [placed, Directory.find?_put, if_pos rfl]
      rfl

theorem intact_iff (h : c.store io k data = some c') :
    Intact c c' k data ↔ ¬Tears io c k data := by
  rw [Intact, block_store h, Tears]
  cases io.places data with
  | false => simp
  | true =>
    by_cases hevicts : Evicts io c.maxBlocks (placed io c k data) (pathFor k)
    · simp [hevicts]
    · rw [if_neg (by simp), if_neg hevicts]
      simp only [reduceCtorEq, false_or, Option.some.injEq, true_and, hevicts, not_false_eq_true,
        and_true, not_and_or, not_not, ne_eq]
      exact ⟨fun h ↦ h.symm.imp id Eq.symm, fun h ↦ h.symm.imp Eq.symm id⟩

/-! ## Histories -/

/-- No store of the history tears its block. -/
def NothingTorn : DiskCache → List (FileIo × Call) → Prop
  | _, [] => True
  | c, (io, call) :: rest =>
    (∀ k data, call = .store k data → ¬Tears io c k data) ∧
      ∀ p, c.step io call = some p → p.2.NothingTorn rest

/-- `d` was in the file of `k` when the history began, or was stored there, all of it. -/
def Whole (c : DiskCache) (history : List (FileIo × Call)) (k : BlockKey) (d : Bytes) : Prop :=
  c.block k = some d ∨ ∃ io k', (io, .store k' d) ∈ history ∧ pathFor k' = pathFor k

theorem whole_of_step {call : Call} {p : Option Bytes × DiskCache} (hstep : c.step io call = some p)
    (htorn : ∀ k data, call = .store k data → ¬Tears io c k data) {d : Bytes}
    (hd : p.2.block k = some d) : Whole c [(io, call)] k d := by
  cases call with
  | tryLoad k' =>
    cases hstep
    rw [block_tryLoad] at hd
    exact .inl hd
  | store k' data =>
    obtain ⟨c', hstore, rfl⟩ := Option.map_eq_some_iff.mp hstep
    by_cases hsame : pathFor k = pathFor k'
    · -- the file that was stored to
      have hblock (c₁ : DiskCache) : c₁.block k = c₁.block k' := congrArg c₁.files.read? hsame
      rw [hblock] at hd
      rcases (intact_iff hstore).mpr (htorn k' data rfl) with hold | hnone | hnew
      · exact .inl (by rw [hblock, ← hold, hd])
      · rw [hnone] at hd
        cases hd
      · obtain rfl := Option.some.inj (hnew.symm.trans hd)
        exact .inr ⟨io, k', List.mem_singleton_self _, hsame.symm⟩
    · have hold := block_of_store hstore hd
      rw [if_neg fun h ↦ hsame h.2] at hold
      exact .inl hold

theorem whole_of_run {history : List (FileIo × Call)} {results : List (Option Bytes)}
    (hrun : c.run history = some (results, c')) (htorn : NothingTorn c history) {d : Bytes}
    (hd : c'.block k = some d) : Whole c history k d := by
  induction history generalizing c results with
  | nil =>
    cases hrun
    exact .inl hd
  | cons e rest ih =>
    obtain ⟨io, call⟩ := e
    rw [run] at hrun
    obtain ⟨p, hstep, hrest⟩ := Option.bind_eq_some_iff.mp hrun
    obtain ⟨q, hrun', hq⟩ := Option.map_eq_some_iff.mp hrest
    cases hq
    rcases ih hrun' (htorn.2 p hstep) with hmiddle | ⟨io', k', hmem, hpath⟩
    · rcases whole_of_step hstep htorn.1 hmiddle with hfirst | ⟨io', k', hmem, hpath⟩
      · exact .inl hfirst
      · exact .inr ⟨io', k', List.mem_cons.mpr (.inl (List.mem_singleton.mp hmem)), hpath⟩
    · exact .inr ⟨io', k', List.mem_cons_of_mem _ hmem, hpath⟩

/-- **When no torn block becomes visible.** A store leaves its block as it was, absent, or with
exactly the data, if and only if no bytes of it are lost when the stream is destroyed, or the block
does not change by that, or it is evicted at once. In a history of such stores every lookup delivers
a whole block. -/
theorem store_intact_iff (c : DiskCache) :
    (∀ (io : FileIo) (c' : DiskCache) (k : BlockKey) (data : Bytes),
      c.store io k data = some c' → (Intact c c' k data ↔ ¬Tears io c k data)) ∧
    ∀ (c' : DiskCache) (history : List (FileIo × Call)) (results : List (Option Bytes)),
      c.run history = some (results, c') → NothingTorn c history →
      ∀ (io : FileIo) (k : BlockKey) (out : Bytes) (c'' : DiskCache),
        c'.tryLoad io k = (some out, c'') → Whole c history k out := by
  refine ⟨fun io c' k data h ↦ intact_iff h, ?_⟩
  intro c' history results hrun htorn io k out c'' hload
  exact whole_of_run hrun htorn (block_of_tryLoad hload)

/-- The first block of an object. -/
def firstBlock : BlockKey := ⟨utf8 "s3://b/k", 0⟩

/-- A store of three bytes that all reach the disk. -/
theorem store_intact_firstBlock : ∃ c',
    (fresh [] 2).store { now := 1 } firstBlock [1, 2, 3] = some c' ∧
    Intact (fresh [] 2) c' firstBlock [1, 2, 3] ∧
    ∀ io out c'', c'.tryLoad io firstBlock = (some out, c'') →
      Whole (fresh [] 2) [({ now := 1 }, .store firstBlock [1, 2, 3])] firstBlock out := by
  have hwhole : ¬Tears { now := 1 } (fresh [] 2) firstBlock [1, 2, 3] := by decide +kernel
  obtain ⟨c', hstore⟩ := Option.isSome_iff_exists.mp
    (show ((fresh [] 2).store { now := 1 } firstBlock [1, 2, 3]).isSome = true by decide +kernel)
  refine ⟨c', hstore, ((store_intact_iff _).1 _ _ _ _ hstore).mpr hwhole, ?_⟩
  intro io out c'' hload
  have hrun : (fresh [] 2).run [({ now := 1 }, .store firstBlock [1, 2, 3])]
      = some ([none], c') := by
    rw [run, step, hstore]
    rfl
  refine (store_intact_iff _).2 _ _ _ hrun ⟨fun k data hcall ↦ ?_, fun _ _ ↦ trivial⟩ io _ out _
    hload
  cases hcall
  exact hwhole

/-- Three bytes of which two are lost when the stream is destroyed: the store returns, the block is
the first byte, and the next lookup delivers it. -/
theorem not_intact_firstBlock : ∃ c',
    (fresh [] 2).store { now := 1, kept := some 1 } firstBlock [1, 2, 3] = some c' ∧
    ¬Intact (fresh [] 2) c' firstBlock [1, 2, 3] ∧
    (c'.tryLoad { now := 2 } firstBlock).1 = some [1] := by
  have htry : ((fresh [] 2).store { now := 1, kept := some 1 } firstBlock [1, 2, 3]).map
      (fun c' ↦ (c'.block firstBlock, (c'.tryLoad { now := 2 } firstBlock).1))
      = some (some [1], some [1]) := by
    decide +kernel
  obtain ⟨c', hstore, hc'⟩ := Option.map_eq_some_iff.mp htry
  obtain ⟨hblock, hload⟩ := Prod.mk.inj hc'
  have hbefore : (fresh [] 2).block firstBlock = none := by decide +kernel
  exact ⟨c', hstore, by simp [Intact, hblock, hbefore], hload⟩

end DiskCache

end Nanos3Reader
