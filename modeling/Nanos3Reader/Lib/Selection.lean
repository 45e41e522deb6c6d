import Mathlib.Data.List.Count
import Mathlib.Data.List.MinMax
import Mathlib.Data.List.Sort

/-!
# Taking the least element, again and again

A loop that takes a least element out of a list, and of several the first, takes the elements in the
order of a stable sort. So what such a loop takes in its first rounds is known without running it.
-/

namespace Selection

variable {α β : Type*} [LinearOrder β] (key : α → β)

/-- The elements in the order of their keys, and equal ones in the order of the list. -/
def inOrder (l : List α) : List α := l.insertionSort fun a b ↦ key a ≤ key b

variable {key}

@[simp] theorem mem_inOrder {l : List α} {a : α} : a ∈ inOrder key l ↔ a ∈ l :=
  List.mem_insertionSort _

@[simp] theorem length_inOrder (l : List α) : (inOrder key l).length = l.length :=
  List.length_insertionSort _ l

/-- **The selection rule.** The first element in order is the least one of the list, and the others
follow in their own order. -/
theorem inOrder_of_argmin [DecidableEq α] {l : List α} {a : α} (h : a ∈ l.argmin key) :
    inOrder key l = a :: inOrder key (l.erase a) := by
  induction l with
  | nil => simp at h
  | cons b l ih =>
    rw [List.argmin_cons] at h
    cases hl : l.argmin key with
    | none =>
      obtain rfl := List.argmin_eq_none.mp hl
      rw [hl] at h
      cases h
      simp [inOrder]
    | some c =>
      rw [hl] at h
      dsimp only at h
      split at h
      · -- the least element lies behind `b`, which is sorted into what is left
        next hlt =>
        cases h
        have hne : b ≠ a := fun heq ↦ lt_irrefl _ (heq ▸ hlt)
        rw [List.erase_cons_tail (by simpa using hne), inOrder, inOrder, List.insertionSort_cons,
          List.insertionSort_cons, ← inOrder, ih hl, List.orderedInsert_cons,
          if_neg (not_le_of_gt hlt), inOrder]
      · next hle =>
        cases h
        rw [List.erase_cons_head]
        refine List.insertionSort_cons_of_forall_rel _ fun d hd ↦ ?_
        exact (not_lt.mp hle).trans (List.le_of_mem_argmin hd hl)

/-- What a loop of `n` rounds takes. -/
def taken (key : α → β) (n : ℕ) (l : List α) : List α := (inOrder key l).take n

theorem taken_succ_of_argmin [DecidableEq α] {l : List α} {a : α} (h : a ∈ l.argmin key) (n : ℕ) :
    taken key (n + 1) l = a :: taken key n (l.erase a) := by
  rw [taken, inOrder_of_argmin h, List.take_succ_cons, taken]

theorem mem_of_mem_taken {n : ℕ} {l : List α} {a : α} (h : a ∈ taken key n l) : a ∈ l :=
  mem_inOrder.mp (List.mem_of_mem_take h)

/-- An element is not among the first `n` taken if `n` elements or more have a smaller key. -/
theorem countP_lt_of_mem_taken [DecidableEq α] {n : ℕ} {l : List α} {a : α}
    (h : a ∈ taken key n l) : l.countP (fun b ↦ key b < key a) < n := by
  induction n generalizing l with
  | zero => simp [taken] at h
  | succ n ih =>
    cases hmin : l.argmin key with
    | none =>
      obtain rfl := List.argmin_eq_none.mp hmin
      exact absurd (mem_of_mem_taken h) List.not_mem_nil
    | some c =>
      rw [taken_succ_of_argmin hmin, List.mem_cons] at h
      rcases h with rfl | h
      · -- below the least element there is nothing
        have hzero : l.countP (fun b ↦ key b < key a) = 0 := by
          rw [List.countP_eq_zero]
          intro b hb
          simpa using List.le_of_mem_argmin hb hmin
        omega
      · have hrest := ih h
        rw [List.countP_erase] at hrest
        split at hrest <;> omega

end Selection
