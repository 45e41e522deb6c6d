import Mathlib.Data.List.Basic
import Mathlib.Data.List.Nodup
import Mathlib.Tactic.Common

/-!
# A flat directory

The part of a file system that a program keeping one file per key in one directory can observe:
files with a name, a modification time and contents. That names are distinct is part of the type,
so a lookup is determined by membership and never depends on the order in which the directory is
listed. The order itself is kept, because a program that scans the directory sees one.
-/

/-- A regular file: its name, its modification time, its contents. -/
structure DirFile (N D : Type*) where
  name : N
  mtime : ℕ
  data : D
deriving DecidableEq

/-- A directory of regular files, in the order a scan lists them. -/
structure Directory (N D : Type*) where
  files : List (DirFile N D)
  /-- No two files share a name. -/
  distinct : (files.map DirFile.name).Nodup

namespace Directory

variable {N D : Type*}

def empty : Directory N D := ⟨[], List.nodup_nil⟩

@[simp] theorem files_empty : (empty : Directory N D).files = [] := rfl

theorem eq_of_name_eq (dir : Directory N D) {f g : DirFile N D} (hf : f ∈ dir.files)
    (hg : g ∈ dir.files) (h : f.name = g.name) : f = g :=
  List.inj_on_of_nodup_map dir.distinct hf hg h

variable [DecidableEq N]

/-! ## Operations -/

def find? (dir : Directory N D) (n : N) : Option (DirFile N D) :=
  dir.files.find? fun f ↦ decide (f.name = n)

/-- The contents of the file called `n`. -/
def read? (dir : Directory N D) (n : N) : Option D := (dir.find? n).map DirFile.data

def remove (dir : Directory N D) (n : N) : Directory N D where
  files := dir.files.filter fun f ↦ decide (f.name ≠ n)
  distinct := dir.distinct.sublist (List.filter_sublist.map _)

/-- Create `f`, replacing a file of its name. -/
def put (dir : Directory N D) (f : DirFile N D) : Directory N D where
  files := (dir.remove f.name).files ++ [f]
  distinct := by
    rw [List.map_append, List.map_singleton, List.nodup_append]
    refine ⟨(dir.remove f.name).distinct, List.nodup_singleton _, ?_⟩
    intro a ha b hb
    obtain ⟨g, hg, rfl⟩ := List.mem_map.mp ha
    rw [List.mem_singleton.mp hb]
    simpa using (List.mem_filter.mp hg).2

/-- Set the modification time of the file called `n`. -/
def touch (dir : Directory N D) (n : N) (t : ℕ) : Directory N D where
  files := dir.files.map fun f ↦ if f.name = n then { f with mtime := t } else f
  distinct := by
    rw [List.map_map, List.map_congr_left (g := DirFile.name)]
    · exact dir.distinct
    · intro f _
      rw [Function.comp_apply]
      split <;> rfl

/-- Rename `a` to `b`, replacing a file called `b`. -/
def rename (dir : Directory N D) (a b : N) : Directory N D :=
  match dir.find? a with
  | none => dir
  | some f => (dir.remove a).put { f with name := b }

/-! ## Membership -/

theorem mem_remove {dir : Directory N D} {n : N} {f : DirFile N D} :
    f ∈ (dir.remove n).files ↔ f ∈ dir.files ∧ f.name ≠ n := by
  simp [remove]

theorem mem_put {dir : Directory N D} {f g : DirFile N D} :
    g ∈ (dir.put f).files ↔ (g ∈ dir.files ∧ g.name ≠ f.name) ∨ g = f := by
  rw [put, List.mem_append, mem_remove, List.mem_singleton]

theorem find?_eq_some_iff {dir : Directory N D} {n : N} {f : DirFile N D} :
    dir.find? n = some f ↔ f ∈ dir.files ∧ f.name = n := by
  constructor
  · intro h
    exact ⟨List.mem_of_find?_eq_some h, by simpa using List.find?_some h⟩
  · rintro ⟨hf, rfl⟩
    obtain ⟨g, hg⟩ : ∃ g, dir.find? f.name = some g := by
      rw [← Option.isSome_iff_exists, find?, List.find?_isSome]
      exact ⟨f, hf, by simp⟩
    have hgn : g.name = f.name := by simpa using List.find?_some hg
    rw [hg, dir.eq_of_name_eq (List.mem_of_find?_eq_some hg) hf hgn]

theorem find?_eq_none_iff {dir : Directory N D} {n : N} :
    dir.find? n = none ↔ ∀ f ∈ dir.files, f.name ≠ n := by
  simp [find?, List.find?_eq_none]

/-! ## What an operation does to lookups -/

theorem find?_remove (dir : Directory N D) (n m : N) :
    (dir.remove n).find? m = if m = n then none else dir.find? m := by
  by_cases h : m = n
  · subst h
    rw [if_pos rfl, find?_eq_none_iff]
    exact fun f hf ↦ (mem_remove.mp hf).2
  · rw [if_neg h]
    ext f
    rw [find?_eq_some_iff, find?_eq_some_iff, mem_remove]
    constructor
    · rintro ⟨⟨hf, -⟩, hm⟩
      exact ⟨hf, hm⟩
    · rintro ⟨hf, rfl⟩
      exact ⟨⟨hf, h⟩, rfl⟩

theorem find?_put (dir : Directory N D) (f : DirFile N D) (m : N) :
    (dir.put f).find? m = if m = f.name then some f else dir.find? m := by
  by_cases h : m = f.name
  · rw [if_pos h, find?_eq_some_iff, mem_put]
    exact ⟨Or.inr rfl, h.symm⟩
  · rw [if_neg h]
    ext g
    rw [find?_eq_some_iff, find?_eq_some_iff, mem_put]
    constructor
    · rintro ⟨⟨hg, -⟩ | rfl, hm⟩
      · exact ⟨hg, hm⟩
      · exact absurd hm.symm h
    · rintro ⟨hg, rfl⟩
      exact ⟨Or.inl ⟨hg, h⟩, rfl⟩

@[simp] theorem read?_remove (dir : Directory N D) (n m : N) :
    (dir.remove n).read? m = if m = n then none else dir.read? m := by
  rw [read?, find?_remove, read?]
  split <;> rfl

@[simp] theorem read?_put (dir : Directory N D) (f : DirFile N D) (m : N) :
    (dir.put f).read? m = if m = f.name then some f.data else dir.read? m := by
  rw [read?, find?_put, read?]
  split <;> rfl

theorem find?_touch (dir : Directory N D) (n : N) (t : ℕ) (m : N) :
    (dir.touch n t).find? m
      = (dir.find? m).map fun f ↦ if f.name = n then { f with mtime := t } else f := by
  have hname : ((fun f ↦ decide (f.name = m)) ∘ fun f : DirFile N D ↦
      if f.name = n then { f with mtime := t } else f) = fun f ↦ decide (f.name = m) := by
    funext f
    rw [Function.comp_apply]
    split <;> rfl
  rw [find?, find?, touch, List.find?_map, hname]

@[simp] theorem read?_touch (dir : Directory N D) (n : N) (t : ℕ) (m : N) :
    (dir.touch n t).read? m = dir.read? m := by
  rw [read?, read?, find?_touch, Option.map_map]
  congr 1
  funext f
  rw [Function.comp_apply]
  split <;> rfl

/-- Writing a file under one name and renaming it into place is writing it there. -/
theorem rename_put (dir : Directory N D) (a b : N) (t : ℕ) (d : D) :
    (dir.put ⟨a, t, d⟩).rename a b = (dir.remove a).put ⟨b, t, d⟩ := by
  have hfind : (dir.put ⟨a, t, d⟩).find? a = some ⟨a, t, d⟩ := by
    rw [find?_put, if_pos rfl]
  have hremove : (dir.put ⟨a, t, d⟩).remove a = dir.remove a := by
    simp [put, remove]
  rw [rename, hfind, hremove]

theorem remove_of_notMem {dir : Directory N D} {n : N} (h : ∀ f ∈ dir.files, f.name ≠ n) :
    dir.remove n = dir := by
  obtain ⟨files, hd⟩ := dir
  simpa [remove, List.filter_eq_self] using h

theorem perm_remove {dir : Directory N D} {f : DirFile N D} {fs : List (DirFile N D)}
    (h : dir.files.Perm (fs ++ [f])) : (dir.remove f.name).files.Perm fs := by
  have hnd : ((fs ++ [f]).map DirFile.name).Nodup := (h.map _).nodup_iff.mp dir.distinct
  rw [List.map_append, List.nodup_append] at hnd
  have hfs : (fs.filter fun g ↦ decide (g.name ≠ f.name)) = fs := by
    rw [List.filter_eq_self]
    intro g hg
    simpa using hnd.2.2 g.name (List.mem_map_of_mem hg) f.name (by simp)
  refine (h.filter _).trans (List.Perm.of_eq ?_)
  rw [List.filter_append, hfs]
  simp

theorem read?_rename {dir : Directory N D} {a : N} {d : D} (h : dir.read? a = some d) (b m : N) :
    (dir.rename a b).read? m = if m = b then some d else if m = a then none else dir.read? m := by
  obtain ⟨f, hf, rfl⟩ := Option.map_eq_some_iff.mp h
  rw [rename, hf]
  simp only [read?_put, read?_remove]

end Directory
