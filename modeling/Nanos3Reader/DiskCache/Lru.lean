import Nanos3Reader.DiskCache.Evict
import Nanos3Reader.DiskCache.Isolation
import Nanos3Reader.Lib.Recency
import Mathlib.Logic.Function.Basic

/-!
# The cache is an LRU list

When its file operations succeed, its clock advances between calls and its block names are
distinct, the cache implements a recency list of its capacity. The recency order is nowhere in the
program's memory: it is the order of the files' modification times. The simulation relation
therefore carries the time `τ k` at which each key was last used, and says that the directory lists,
in some order, the first `n` entries of the recency list, each stamped with its time.

Everything an operation does to that relation is in `Recency.take_promote_of_mem` and
`Recency.take_promote_of_notMem`: the second one is the case that evicts, and it evicts the last of
the first `n` entries, which is the file with the least time.
-/

open ByteText

namespace Nanos3Reader

namespace DiskCache

/-! ## The simulation relation -/

/-- The operation of the abstract cache a call stands for. -/
def Call.toOp : Call → Recency.Op BlockKey Bytes
  | .store k data => .put k data
  | .tryLoad k => .get k

/-- The file of an entry of the recency list, when `τ` is the time of each key's last use. -/
private def toFile (τ : BlockKey → ℕ) (p : BlockKey × Bytes) : DirFile Bytes Bytes :=
  ⟨pathFor p.1, τ p.1, p.2⟩

/-- The cache `c` of capacity `n` holds the first `n` entries of the recency list `l`, all used
before `now`; `τ` dates the uses and `K` is the set of keys in play. -/
private structure Holds (K : Set BlockKey) (n now : ℕ) (τ : BlockKey → ℕ)
    (l : List (BlockKey × Bytes)) (c : DiskCache) : Prop where
  capacity : c.maxBlocks = n
  files : c.files.files.Perm ((l.take n).map (toFile τ))
  nodup : (l.map Prod.fst).Nodup
  ordered : l.Pairwise fun p q ↦ τ q.1 < τ p.1
  before : ∀ p ∈ l, τ p.1 < now
  keys : ∀ p ∈ l, p.1 ∈ K

variable {K : Set BlockKey} {n now : ℕ} {τ : BlockKey → ℕ} {l : List (BlockKey × Bytes)}
  {c : DiskCache}

namespace Holds

private theorem nodup_take (h : Holds K n now τ l c) : ((l.take n).map Prod.fst).Nodup :=
  h.nodup.sublist ((List.take_sublist n l).map _)

private theorem extension (h : Holds K n now τ l c) :
    ∀ f ∈ c.files.files, Nanos3Reader.extension f.name = utf8 ".blk" := by
  intro f hf
  obtain ⟨p, -, rfl⟩ := List.mem_map.mp (h.files.mem_iff.mp hf)
  exact extension_pathFor p.1

private theorem remove_tmpFor (h : Holds K n now τ l c) (k : BlockKey) :
    c.files.remove (tmpFor k) = c.files := by
  refine Directory.remove_of_notMem fun f hf ↦ ?_
  obtain ⟨p, -, rfl⟩ := List.mem_map.mp (h.files.mem_iff.mp hf)
  exact (tmpFor_ne_pathFor k p.1).symm

/-- Within `K`, filtering files by name is filtering entries by key. -/
private theorem filter_files (h : Holds K n now τ l c)
    (hK : ∀ k ∈ K, ∀ k' ∈ K, pathFor k = pathFor k' → k = k') {k : BlockKey} (hk : k ∈ K) :
    (c.files.files.filter fun f ↦ decide (f.name ≠ pathFor k)).Perm
      (((l.take n).filter fun p ↦ decide (p.1 ≠ k)).map (toFile τ)) := by
  refine (h.files.filter _).trans (List.Perm.of_eq ?_)
  rw [List.filter_map]
  congr 1
  refine List.filter_congr fun p hp ↦ ?_
  have hpK : p.1 ∈ K := h.keys p ((List.take_sublist n l).subset hp)
  rw [Function.comp_apply, decide_eq_decide, not_iff_not]
  exact ⟨hK p.1 hpK k hk, fun hpk ↦ congrArg pathFor hpk⟩

private theorem find?_eq_some_iff (h : Holds K n now τ l c)
    (hK : ∀ k ∈ K, ∀ k' ∈ K, pathFor k = pathFor k' → k = k') {k : BlockKey} (hk : k ∈ K)
    {f : DirFile Bytes Bytes} :
    c.files.find? (pathFor k) = some f ↔ (k, f.data) ∈ l.take n ∧ f = toFile τ (k, f.data) := by
  rw [Directory.find?_eq_some_iff, h.files.mem_iff]
  constructor
  · rintro ⟨hf, hname⟩
    obtain ⟨p, hp, rfl⟩ := List.mem_map.mp hf
    have hpK : p.1 ∈ K := h.keys p ((List.take_sublist n l).subset hp)
    obtain rfl : p.1 = k := hK p.1 hpK k hk hname
    exact ⟨hp, rfl⟩
  · rintro ⟨hp, hf⟩
    rw [hf]
    exact ⟨List.mem_map_of_mem hp, rfl⟩

end Holds

/-! ## Dating a use -/

private theorem toFile_update_of_ne {k : BlockKey} {p : BlockKey × Bytes} (t : ℕ) (h : p.1 ≠ k) :
    toFile (Function.update τ k t) p = toFile τ p := by
  rw [toFile, Function.update_of_ne h, toFile]

private theorem map_toFile_filter (k : BlockKey) (t : ℕ) (l : List (BlockKey × Bytes)) :
    (l.filter fun p ↦ decide (p.1 ≠ k)).map (toFile (Function.update τ k t))
      = (l.filter fun p ↦ decide (p.1 ≠ k)).map (toFile τ) := by
  refine List.map_congr_left fun p hp ↦ toFile_update_of_ne t ?_
  simpa using (List.mem_filter.mp hp).2

private theorem ordered_promote {k : BlockKey} {d : Bytes} {t : ℕ}
    (hord : l.Pairwise fun p q ↦ τ q.1 < τ p.1) (hbefore : ∀ p ∈ l, τ p.1 < t) :
    (Recency.promote k d l).Pairwise
      fun p q ↦ Function.update τ k t q.1 < Function.update τ k t p.1 := by
  have hother : ∀ p ∈ l.filter fun p ↦ decide (p.1 ≠ k), Function.update τ k t p.1 = τ p.1 := by
    intro p hp
    exact Function.update_of_ne (by simpa using (List.mem_filter.mp hp).2) _ _
  rw [Recency.promote, List.pairwise_cons]
  refine ⟨fun p hp ↦ ?_, ?_⟩
  · rw [hother p hp, Function.update_self]
    exact hbefore p (List.mem_filter.mp hp).1
  · refine (hord.filter _).imp_of_mem fun {p q} hp hq hpq ↦ ?_
    rwa [hother p hp, hother q hq]

private theorem Holds.promote {n' now' : ℕ} {c' : DiskCache} (h : Holds K n now τ l c)
    {k : BlockKey} (hk : k ∈ K) (d : Bytes) {t : ℕ} (ht : now ≤ t) (ht' : t < now')
    (hcap : c'.maxBlocks = n')
    (hfiles : c'.files.files.Perm
      (((Recency.promote k d l).take n').map (toFile (Function.update τ k t)))) :
    Holds K n' now' (Function.update τ k t) (Recency.promote k d l) c' where
  capacity := hcap
  files := hfiles
  nodup := Recency.nodup_promote h.nodup
  ordered := ordered_promote h.ordered fun p hp ↦ (h.before p hp).trans_le ht
  before := by
    intro p hp
    rcases List.mem_cons.mp hp with rfl | hp
    · simpa using ht'
    · have hmem := List.mem_filter.mp hp
      rw [Function.update_of_ne (by simpa using hmem.2)]
      exact (h.before p hmem.1).trans (ht.trans_lt ht')
  keys := by
    intro p hp
    rcases List.mem_cons.mp hp with rfl | hp
    · exact hk
    · exact h.keys p (List.mem_filter.mp hp).1

/-! ## One call -/

private theorem Holds.perm_put (h : Holds K n now τ l c)
    (hK : ∀ k ∈ K, ∀ k' ∈ K, pathFor k = pathFor k' → k = k') {k : BlockKey} (hk : k ∈ K)
    (t : ℕ) (data : Bytes) :
    (c.files.put ⟨pathFor k, t, data⟩).files.Perm
      (((k, data) :: (l.take n).filter fun p ↦ decide (p.1 ≠ k)).map
        (toFile (Function.update τ k t))) := by
  have hnew : toFile (Function.update τ k t) (k, data) = ⟨pathFor k, t, data⟩ := by
    rw [toFile, Function.update_self]
  rw [List.map_cons, hnew, map_toFile_filter]
  exact (List.perm_append_singleton _ _).trans ((h.filter_files hK hk).cons _)

/-- A store is a use, and evicts the least recently used block if there is one too many. -/
private theorem Holds.store (h : Holds K (n + 1) now τ l c)
    (hK : ∀ k ∈ K, ∀ k' ∈ K, pathFor k = pathFor k' → k = k') {k : BlockKey} (hk : k ∈ K)
    {t : ℕ} (ht : now ≤ t) (data : Bytes) :
    ∃ c', c.store { now := t } k data = some c' ∧
      Holds K (n + 1) (t + 1) (Function.update τ k t) (Recency.promote k data l) c' := by
  have hput := h.perm_put hK hk t data
  rw [store_eq_evictIfNeeded, h.remove_tmpFor]
  have hblk : ∀ f ∈ (c.files.put ⟨pathFor k, t, data⟩).files,
      Nanos3Reader.extension f.name = utf8 ".blk" := by
    intro f hf
    obtain ⟨p, -, rfl⟩ := List.mem_map.mp (hput.mem_iff.mp hf)
    exact extension_pathFor p.1
  -- Where the recency list keeps its prefix within capacity, the directory needs no eviction.
  have hkeep : ∀ q : List (BlockKey × Bytes),
      (k, data) :: ((l.take (n + 1)).filter fun p ↦ decide (p.1 ≠ k)) = q →
      (Recency.promote k data l).take (n + 1) = q → q.length ≤ n + 1 →
      ∃ c', evictIfNeeded { now := t } { c with files := c.files.put ⟨pathFor k, t, data⟩ }
          = some c' ∧
        Holds K (n + 1) (t + 1) (Function.update τ k t) (Recency.promote k data l) c' := by
    intro q hq hq' hlen
    rw [hq] at hput
    refine ⟨_, evictIfNeeded_of_le hblk ?_, h.promote hk data ht (Nat.lt_succ_self t) h.capacity ?_⟩
    · rwa [hput.length_eq, List.length_map, h.capacity]
    · rwa [hq']
  by_cases hres : k ∈ (l.take (n + 1)).map Prod.fst
  · have htake := Recency.take_promote_of_mem (v := data) h.nodup hres
    exact hkeep _ rfl htake (htake ▸ List.length_take_le _ _)
  · have hfilter := Recency.filter_eq_self_of_notMem hres
    have htake := Recency.take_promote_of_notMem (v := data) hres
    by_cases hlen : l.length ≤ n
    · refine hkeep _ ?_ htake (htake ▸ List.length_take_le _ _)
      rw [hfilter, List.take_of_length_le hlen, List.take_of_length_le (by omega)]
    · -- The prefix is full: its last entry is the oldest file.
      have hlt : n < l.length := Nat.lt_of_not_le hlen
      have hsplit : l.take (n + 1) = l.take n ++ [l[n]] := List.take_succ_eq_append_getElem hlt
      have hlast : l[n].1 ≠ k := by
        intro hc
        exact hres (hc ▸ List.mem_map_of_mem (hsplit ▸ List.mem_append_right _ (by simp)))
      rw [hfilter, hsplit, ← List.cons_append, List.map_append, List.map_singleton,
        toFile_update_of_ne t hlast] at hput
      have hord := h.ordered.sublist (List.take_sublist (n + 1) l)
      rw [hsplit, List.pairwise_append] at hord
      have hmem : toFile τ l[n] ∈ (c.files.put ⟨pathFor k, t, data⟩).files :=
        hput.mem_iff.mpr (List.mem_append_right _ (List.mem_singleton_self _))
      refine ⟨_, evictIfNeeded_of_oldest hblk ?_ hmem ?_,
        h.promote hk data ht (Nat.lt_succ_self t) h.capacity ?_⟩
      · rw [hput.length_eq, h.capacity]
        simp [Nat.min_eq_left hlt.le]
      · intro f hf
        rcases List.mem_append.mp (hput.mem_iff.mp hf) with hf | hf
        · obtain ⟨p, hp, rfl⟩ := List.mem_map.mp hf
          right
          rcases List.mem_cons.mp hp with rfl | hp
          · simpa [toFile] using (h.before _ (List.getElem_mem hlt)).trans_le ht
          · have hpk : p.1 ≠ k := fun hc ↦ hres (hc ▸ List.mem_map_of_mem
              (hsplit ▸ List.mem_append_left _ hp))
            rw [toFile_update_of_ne t hpk]
            exact hord.2.2 p hp _ (by simp)
        · exact Or.inl (List.mem_singleton.mp hf)
      · rw [htake]
        exact Directory.perm_remove hput

/-- A lookup hits exactly the resident keys, delivers their data, and is a use if it hits. -/
private theorem Holds.tryLoad (h : Holds K n now τ l c)
    (hK : ∀ k ∈ K, ∀ k' ∈ K, pathFor k = pathFor k' → k = k') {k : BlockKey} (hk : k ∈ K)
    {t : ℕ} (ht : now ≤ t) :
    (c.tryLoad { now := t } k).1 = (Recency.step n l (.get k)).1 ∧
      ∃ τ', Holds K n (t + 1) τ' (Recency.step n l (.get k)).2 (c.tryLoad { now := t } k).2 := by
  rcases hv : Recency.value? k (l.take n) with _ | d
  · have hfind : c.files.find? (pathFor k) = none := by
      rcases hf : c.files.find? (pathFor k) with _ | f
      · rfl
      · have hmem := ((h.find?_eq_some_iff hK hk).mp hf).1
        rw [← Recency.value?_eq_some_iff h.nodup_take, hv] at hmem
        cases hmem
    rw [DiskCache.tryLoad, hfind, Recency.step, hv]
    exact ⟨rfl, τ, { h with before := fun p hp ↦ (h.before p hp).trans_le (by omega) }⟩
  · have hmem : (k, d) ∈ l.take n := (Recency.value?_eq_some_iff h.nodup_take).mp hv
    have hfind := (h.find?_eq_some_iff hK hk (f := toFile τ (k, d))).mpr ⟨hmem, rfl⟩
    have hload : c.tryLoad { now := t } k
        = (some d, { c with hits := c.hits + 1, files := c.files.touch (pathFor k) t }) := by
      rw [DiskCache.tryLoad, hfind]
      simp [toFile]
    rw [hload, Recency.step, hv]
    refine ⟨rfl, Function.update τ k t,
      h.promote hk d ht (Nat.lt_succ_self t) h.capacity ?_⟩
    rw [Recency.take_promote_of_mem h.nodup (List.mem_map_of_mem hmem)]
    -- Touching the file of `k` redates its entry and leaves the others alone.
    have htouch : ∀ p ∈ l.take n,
        (if (toFile τ p).name = pathFor k then { toFile τ p with mtime := t } else toFile τ p)
          = toFile (Function.update τ k t) p := by
      intro p hp
      by_cases hpk : p.1 = k
      · have hname : (toFile τ p).name = pathFor k := congrArg pathFor hpk
        rw [if_pos hname, toFile, toFile, hpk, Function.update_self]
      · have hname : (toFile τ p).name ≠ pathFor k := fun hc ↦
          hpk (hK _ (h.keys p ((List.take_sublist n l).subset hp)) k hk hc)
        rw [if_neg hname, toFile_update_of_ne t hpk]
    have hfiles : (c.files.touch (pathFor k) t).files.Perm
        ((l.take n).map (toFile (Function.update τ k t))) := by
      refine (h.files.map _).trans (List.Perm.of_eq ?_)
      rw [List.map_map]
      exact List.map_congr_left htouch
    exact hfiles.trans ((Recency.perm_cons_filter h.nodup_take hmem).map _)

/-! ## Histories -/

private theorem Holds.run (h : Holds K (n + 1) now τ l c)
    (hK : ∀ k ∈ K, ∀ k' ∈ K, pathFor k = pathFor k' → k = k') {history : List (FileIo × Call)}
    (hkeys : ∀ e ∈ history, e.2.key ∈ K) (hio : ∀ e ∈ history, e.1.Succeeds)
    (hclock : history.Pairwise fun e e' ↦ e.1.now < e'.1.now)
    (hnow : ∀ e ∈ history, now ≤ e.1.now) :
    ∃ c' now' τ', c.run history
        = some ((Recency.run (n + 1) l (history.map fun e ↦ e.2.toOp)).1, c') ∧
      Holds K (n + 1) now' τ' (Recency.run (n + 1) l (history.map fun e ↦ e.2.toOp)).2 c' := by
  induction history generalizing now τ l c with
  | nil => exact ⟨c, now, τ, rfl, h⟩
  | cons e rest ih =>
    obtain ⟨io, call⟩ := e
    have hsucc : io = { now := io.now } := hio (io, call) List.mem_cons_self
    have hle : now ≤ io.now := hnow (io, call) List.mem_cons_self
    have hk : call.key ∈ K := hkeys (io, call) List.mem_cons_self
    rw [List.pairwise_cons] at hclock
    -- One call, and then the rest of the history from the relation it leaves.
    obtain ⟨c₁, τ₁, hstep, h₁⟩ : ∃ c₁ τ₁,
        c.step io call = some ((Recency.step (n + 1) l call.toOp).1, c₁) ∧
          Holds K (n + 1) (io.now + 1) τ₁ (Recency.step (n + 1) l call.toOp).2 c₁ := by
      rw [hsucc]
      rcases call with ⟨k, data⟩ | k
      · have hk' : k ∈ K := hk
        obtain ⟨c₁, hstore, h₁⟩ := h.store hK hk' hle data
        exact ⟨c₁, _, by rw [step, hstore]; rfl, h₁⟩
      · have hk' : k ∈ K := hk
        obtain ⟨hres, τ₁, h₁⟩ := h.tryLoad hK hk' hle
        exact ⟨_, τ₁, by rw [step, Call.toOp, ← hres], h₁⟩
    obtain ⟨c', now', τ', hrun, h'⟩ := ih h₁
      (fun e he ↦ hkeys e (List.mem_cons_of_mem _ he))
      (fun e he ↦ hio e (List.mem_cons_of_mem _ he)) hclock.2 (fun e he ↦ hclock.1 e he)
    refine ⟨c', now', τ', ?_, h'⟩
    rw [DiskCache.run, hstep, Option.bind_some, hrun]
    rfl

/-- Every entry of the recency list carries the data its key was last stored with. -/
private theorem lastStored_of_mem_run {history : List (FileIo × Call)}
    (hio : ∀ e ∈ history, e.1.Succeeds) {l : List (BlockKey × Bytes)} {p : BlockKey × Bytes}
    (hp : p ∈ (Recency.run n l (history.map fun e ↦ e.2.toOp)).2) :
    lastStored p.1 history = some p.2 ∨ (lastStored p.1 history = none ∧ p ∈ l) := by
  induction history generalizing l with
  | nil => exact Or.inr ⟨rfl, hp⟩
  | cons e rest ih =>
    obtain ⟨io, call⟩ := e
    have hsucc : io = { now := io.now } := hio (io, call) List.mem_cons_self
    have hih := ih (fun e he ↦ hio e (List.mem_cons_of_mem _ he)) hp
    rcases call with ⟨k, data⟩ | k
    · rcases hih with hlast | ⟨hnone, hmem⟩
      · exact Or.inl (by rw [lastStored, hlast])
      · rw [lastStored, hnone, hsucc]
        rcases List.mem_cons.mp hmem with rfl | hmem
        · exact Or.inl (by simp [FileIo.places, FileIo.onDisk])
        · have hpk := List.mem_filter.mp hmem
          have hne : k ≠ p.1 := fun hc ↦ by simp [hc] at hpk
          exact Or.inr ⟨if_neg fun hc ↦ hne hc.1, hpk.1⟩
    · refine hih.imp_right fun hold ↦ ⟨hold.1, ?_⟩
      have hmem : p ∈ (Recency.step n l (.get k)).2 := hold.2
      rw [Recency.step] at hmem
      split at hmem
      · next d hd =>
        rcases List.mem_cons.mp hmem with rfl | hmem
        · obtain ⟨q, hq, rfl⟩ := Option.map_eq_some_iff.mp hd
          obtain rfl : q.1 = k := by simpa using List.find?_some hq
          exact (List.take_sublist n l).subset (List.mem_of_find?_eq_some hq)
        · exact (List.mem_filter.mp hmem).1
      · exact hmem

private theorem exists_capacity (maxBlocks : ℤ) : ∃ n, capacity maxBlocks = n + 1 :=
  ⟨capacity maxBlocks - 1, by rw [capacity]; omega⟩

/-- **The cache implements LRU.** If the file operations succeed, the file clock advances between
calls and the keys in use have distinct file names, then over every history the calls return and
deliver what a recency list of the configured capacity delivers, the files are those of the most
recently used keys, and each holds what its key was last stored with. -/
theorem run_fresh_eq_recency (dir : Bytes) (maxBlocks : ℤ) (hpos : 0 < maxBlocks)
    (history : List (FileIo × Call)) (hio : ∀ e ∈ history, e.1.Succeeds)
    (hclock : history.Pairwise fun e e' ↦ e.1.now < e'.1.now)
    (hnames : ∀ e ∈ history, ∀ e' ∈ history, pathFor e.2.key = pathFor e'.2.key →
      e.2.key = e'.2.key) :
    ∃ c, (fresh dir maxBlocks).run history
        = some ((Recency.run (capacity maxBlocks) [] (history.map fun e ↦ e.2.toOp)).1, c) ∧
      (∀ name d, (∃ f ∈ c.files.files, f.name = name ∧ f.data = d) ↔
        ∃ k, name = pathFor k ∧ (k, d) ∈
          (Recency.run (capacity maxBlocks) [] (history.map fun e ↦ e.2.toOp)).2.take
            (capacity maxBlocks)) ∧
      ∀ p ∈ (Recency.run (capacity maxBlocks) [] (history.map fun e ↦ e.2.toOp)).2,
        lastStored p.1 history = some p.2 := by
  obtain ⟨n, hn⟩ := exists_capacity maxBlocks
  have hfresh : Holds {k | ∃ e ∈ history, e.2.key = k} (n + 1) 0 (fun _ ↦ 0) []
      (fresh dir maxBlocks) := by
    have hconf : fresh dir maxBlocks
        = { enabled := true, dir := dir, maxBlocks := capacity maxBlocks } := by
      rw [fresh, configure, if_neg (by omega)]
      rfl
    rw [hconf]
    exact ⟨hn, List.Perm.nil, List.nodup_nil, List.Pairwise.nil, by simp, by simp⟩
  have hK : ∀ k ∈ {k | ∃ e ∈ history, e.2.key = k}, ∀ k' ∈ {k | ∃ e ∈ history, e.2.key = k},
      pathFor k = pathFor k' → k = k' := by
    rintro _ ⟨e, he, rfl⟩ _ ⟨e', he', rfl⟩ h
    exact hnames e he e' he' h
  obtain ⟨c, now', τ', hrun, h⟩ := hfresh.run hK (fun e he ↦ ⟨e, he, rfl⟩) hio hclock
    (fun e _ ↦ Nat.zero_le _)
  rw [hn]
  refine ⟨c, hrun, fun name d ↦ ?_, fun p hp ↦ ?_⟩
  · constructor
    · rintro ⟨f, hf, rfl, rfl⟩
      obtain ⟨p, hp, rfl⟩ := List.mem_map.mp (h.files.mem_iff.mp hf)
      exact ⟨p.1, rfl, hp⟩
    · rintro ⟨k, rfl, hp⟩
      exact ⟨toFile τ' (k, d), h.files.mem_iff.mpr (List.mem_map_of_mem hp), rfl, rfl⟩
  · exact (lastStored_of_mem_run hio hp).resolve_right fun hc ↦ List.not_mem_nil hc.2

/-- A cache of two blocks: the hit on chunk 0 makes chunk 8 the one that chunk 16 pushes out. -/
def threeChunks : List (FileIo × Call) :=
  [({ now := 1 }, .store ⟨utf8 "s3://bucket/key", 0⟩ [10]),
    ({ now := 2 }, .store ⟨utf8 "s3://bucket/key", 8⟩ [18]),
    ({ now := 3 }, .tryLoad ⟨utf8 "s3://bucket/key", 0⟩),
    ({ now := 4 }, .store ⟨utf8 "s3://bucket/key", 16⟩ [26]),
    ({ now := 5 }, .tryLoad ⟨utf8 "s3://bucket/key", 8⟩),
    ({ now := 6 }, .tryLoad ⟨utf8 "s3://bucket/key", 0⟩)]

theorem run_threeChunks : ∃ c, (fresh (utf8 "/var/tmp/n3r-cache") 1).run threeChunks
    = some ([none, none, some [10], none, none, some [10]], c) := by
  have hio : ∀ e ∈ threeChunks, e.1.Succeeds := by
    simp [threeChunks, FileIo.Succeeds]
  have hclock : threeChunks.Pairwise fun e e' ↦ e.1.now < e'.1.now := by
    simp [threeChunks]
  have hnames : ∀ e ∈ threeChunks, ∀ e' ∈ threeChunks, pathFor e.2.key = pathFor e'.2.key →
      e.2.key = e'.2.key := by
    simp [threeChunks, pathFor_eq_iff, Call.key]
  obtain ⟨c, hrun, -⟩ := run_fresh_eq_recency (utf8 "/var/tmp/n3r-cache") 1 (by decide)
    threeChunks hio hclock hnames
  exact ⟨c, hrun⟩

end DiskCache

end Nanos3Reader
