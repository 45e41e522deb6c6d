import Mathlib.Data.List.Nodup
import Mathlib.Tactic.Common

/-!
# Conditional writes to one key

A key whose every write leaves a version behind, tagged with a value no other version has. A write
may be conditional: on the key being absent, or on the current version having a given tag. A
history, newest version first, is *lawful* if every version in it was written when its author's
condition held.

Lawfulness is what makes conditional writes a lock: in a lawful history at most one version stands
at the bottom and at most one directly on top of any other, so two authors whose conditions name the
same place cannot both be in it.
-/

namespace ConditionalWrite

/-- A version of the key. -/
structure Version (T B A : Type*) where
  tag : T
  body : B
  author : A

variable {T B A : Type*}

/-- The tag of the newest version, if there is one. -/
def current (history : List (Version T B A)) : Option T := history.head?.map Version.tag

/-- What a write asks of the key: that it is absent, that its current version has a tag. -/
structure Condition (T : Type*) where
  absent : Bool := false
  tag : Option T := none
deriving DecidableEq

namespace Condition

/-- A condition holds of a current version. -/
def Admits (c : Condition T) (cur : Option T) : Prop :=
  (c.absent = true → cur = none) ∧ (c.tag ≠ none → cur = c.tag)

instance [DecidableEq T] (c : Condition T) (cur : Option T) : Decidable (c.Admits cur) :=
  inferInstanceAs (Decidable (_ ∧ _))

theorem admits_unconditional (cur : Option T) : ({} : Condition T).Admits cur :=
  ⟨fun h ↦ (by cases h), fun h ↦ absurd rfl h⟩

end Condition

/-- Every version was written when its author's condition held, with a fresh tag. -/
inductive Lawful (cond : A → Condition T) : List (Version T B A) → Prop
  | nil : Lawful cond []
  | write {v : Version T B A} {history : List (Version T B A)} (h : Lawful cond history)
      (hadmits : (cond v.author).Admits (current history))
      (hfresh : v.tag ∉ history.map Version.tag) : Lawful cond (v :: history)

/-- The history `v` was written on top of is `older`. -/
def WrittenOn (history : List (Version T B A)) (v : Version T B A)
    (older : List (Version T B A)) : Prop := ∃ newer, history = newer ++ v :: older

theorem exists_writtenOn {history : List (Version T B A)} {v : Version T B A} (hv : v ∈ history) :
    ∃ older, WrittenOn history v older := by
  obtain ⟨newer, older, rfl⟩ := List.append_of_mem hv
  exact ⟨older, newer, rfl⟩

namespace Lawful

variable {cond : A → Condition T} {history : List (Version T B A)}

theorem nodup_tags (h : Lawful cond history) : (history.map Version.tag).Nodup := by
  induction h with
  | nil => exact List.nodup_nil
  | write _ _ hfresh ih => exact List.nodup_cons.mpr ⟨hfresh, ih⟩

theorem of_nodup (hcond : ∀ v ∈ history, cond v.author = {})
    (hnd : (history.map Version.tag).Nodup) : Lawful cond history := by
  induction history with
  | nil => exact .nil
  | cons v history ih =>
    obtain ⟨hfresh, hnd⟩ := List.nodup_cons.mp hnd
    refine .write (ih (fun u hu ↦ hcond u (List.mem_cons_of_mem _ hu)) hnd) ?_ hfresh
    rw [hcond v List.mem_cons_self]
    exact Condition.admits_unconditional _

theorem admits (h : Lawful cond history) {v : Version T B A} {older : List (Version T B A)}
    (hv : WrittenOn history v older) : (cond v.author).Admits (current older) := by
  obtain ⟨newer, rfl⟩ := hv
  induction newer with
  | nil =>
    cases h with
    | write _ hadmits _ => exact hadmits
  | cons u newer ih =>
    cases h with
    | write h _ _ => exact ih h

theorem writtenOn_nil (h : Lawful cond history) {v : Version T B A} (hv : v ∈ history)
    (habsent : (cond v.author).absent = true) : WrittenOn history v [] := by
  obtain ⟨older, hon⟩ := exists_writtenOn hv
  have hnone : current older = none := (h.admits hon).1 habsent
  have hnil : older = [] := by simpa [current] using hnone
  exact hnil ▸ hon

/-- A version whose author named a tag was written directly on the version with this tag. -/
theorem writtenOn_tag (h : Lawful cond history) {v : Version T B A} (hv : v ∈ history) {t : T}
    (htag : (cond v.author).tag = some t) :
    ∃ w older, WrittenOn history v (w :: older) ∧ w.tag = t := by
  obtain ⟨older, hon⟩ := exists_writtenOn hv
  have hcur : current older = some t := by
    rw [(h.admits hon).2 (by simp [htag]), htag]
  cases older with
  | nil => cases hcur
  | cons w older => exact ⟨w, older, hon, Option.some.inj hcur⟩

end Lawful

theorem eq_of_writtenOn_nil {history : List (Version T B A)} {v v' : Version T B A}
    (hv : WrittenOn history v []) (hv' : WrittenOn history v' []) : v = v' := by
  obtain ⟨newer, rfl⟩ := hv
  obtain ⟨newer', h⟩ := hv'
  simpa using (List.append_inj' h rfl).2

/-- **Only one version is written directly on another.** -/
theorem eq_of_writtenOn_tag {history : List (Version T B A)}
    (hnd : (history.map Version.tag).Nodup) {v v' w w' : Version T B A}
    {older older' : List (Version T B A)} (hv : WrittenOn history v (w :: older))
    (hv' : WrittenOn history v' (w' :: older')) (htag : w.tag = w'.tag) : v = v' := by
  obtain ⟨newer, rfl⟩ := hv
  obtain ⟨newer', h⟩ := hv'
  rw [List.append_cons newer, List.map_append, List.map_cons] at hnd
  -- tags occur once, so `w'` stands neither above nor below `w`
  have habove : w' ∉ newer ++ [v] := fun hw ↦
    List.disjoint_of_nodup_append hnd (List.mem_map_of_mem hw) (htag ▸ List.mem_cons_self)
  have hbelow : w' ∉ older := fun hw ↦
    (List.nodup_cons.mp hnd.of_append_right).1 (htag ▸ List.mem_map_of_mem hw)
  rw [List.append_cons newer, List.append_cons newer',
    List.append_cons_inj_of_notMem habove hbelow] at h
  simpa using (List.append_inj' h.1 rfl).2

end ConditionalWrite
