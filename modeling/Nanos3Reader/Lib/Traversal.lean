import Mathlib.Data.Nat.Notation
import Mathlib.Order.Nat
import Mathlib.Tactic.Common

/-!
# Traversals of a tree of directories

A directory is given by what comes of reading it: entries, some of them directories themselves,
until the reading ends or fails. An iterator goes through the tree depth first and keeps the
directories it is in on a stack; when one of them cannot be read on, it is left at its end, with
the error.

A loop over the iterator is reasoned about along the walk, which is a list.
-/

namespace Traversal

variable {α ε : Type*}

/-- What comes of reading a directory. -/
inductive Listing (α ε : Type*) where
  | ended
  | failed (reason : ε)
  | entry (a : α) (rest : Listing α ε)
  /-- An entry that is a directory, and what comes of reading it. -/
  | directory (a : α) (inside rest : Listing α ε)

namespace Listing

/-- The entries of a directory and of those in it. -/
def entries : Listing α ε → List α
  | ended => []
  | failed _ => []
  | entry a rest => a :: rest.entries
  | directory a inside rest => a :: (inside.entries ++ rest.entries)

/-- Every directory can be read to its end. -/
def Readable : Listing α ε → Prop
  | ended => True
  | failed _ => False
  | entry _ rest => rest.Readable
  | directory _ inside rest => inside.Readable ∧ rest.Readable

/-- What is come upon depth first, a directory before what stands in it. -/
def walk : Listing α ε → List (Except ε α)
  | ended => []
  | failed reason => [.error reason]
  | entry a rest => .ok a :: rest.walk
  | directory a inside rest => .ok a :: (inside.walk ++ rest.walk)

def size : Listing α ε → ℕ
  | ended => 1
  | failed _ => 1
  | entry _ rest => rest.size + 1
  | directory _ inside rest => inside.size + rest.size + 1

theorem ok_mem_walk_iff {l : Listing α ε} {a : α} : .ok a ∈ l.walk ↔ a ∈ l.entries := by
  induction l with
  | ended => simp [walk, entries]
  | failed reason => simp [walk, entries]
  | entry b rest ih => simp [walk, entries, ih]
  | directory b inside rest ihinside ihrest => simp [walk, entries, ihinside, ihrest]

theorem readable_iff {l : Listing α ε} : l.Readable ↔ ∀ reason, .error reason ∉ l.walk := by
  induction l with
  | ended => simp [walk, Readable]
  | failed reason => simp [walk, Readable]
  | entry a rest ih => simp [walk, Readable, ih]
  | directory a inside rest ihinside ihrest =>
    simp [walk, Readable, ihinside, ihrest, forall_and]

end Listing

/-! ## The iterator -/

/-- Where an iterator stands: at an entry, with the directories it has still to read, the innermost
first; or at its end. The error is that of the last step. -/
structure Iterator (α ε : Type*) where
  position : Option (α × List (Listing α ε))
  error : Option ε

/-- Read on in the innermost directory; when it has ended, in the one it stands in. -/
def advance : List (Listing α ε) → Iterator α ε
  | [] => ⟨none, none⟩
  | .ended :: outer => advance outer
  | .failed reason :: _ => ⟨none, some reason⟩
  | .entry a rest :: outer => ⟨some (a, rest :: outer), none⟩
  | .directory a inside rest :: outer => ⟨some (a, inside :: rest :: outer), none⟩

/-- What a stack of directories amounts to. -/
def pending : List (Listing α ε) → ℕ
  | [] => 0
  | l :: outer => l.size + pending outer

@[simp] theorem pending_cons (l : Listing α ε) (outer : List (Listing α ε)) :
    pending (l :: outer) = l.size + pending outer := rfl

/-- What an iterator has before it. -/
def Iterator.left (it : Iterator α ε) : ℕ :=
  match it.position with
  | none => 0
  | some (_, stack) => pending stack + 1

theorem left_advance_le (stack : List (Listing α ε)) : (advance stack).left ≤ pending stack := by
  induction stack with
  | nil => exact le_rfl
  | cons l outer ih =>
    rcases l with _ | reason | ⟨a, rest⟩ | ⟨a, inside, rest⟩
    · rw [advance, pending_cons]
      exact ih.trans (Nat.le_add_left _ _)
    · exact Nat.zero_le _
    · simp only [advance, Iterator.left, pending_cons, Listing.size]
      omega
    · simp only [advance, Iterator.left, pending_cons, Listing.size]
      omega

theorem left_advance_lt (a : α) (stack : List (Listing α ε)) :
    (advance stack).left < (⟨some (a, stack), none⟩ : Iterator α ε).left :=
  Nat.lt_succ_of_le (left_advance_le stack)

/-- **Loops.** What a loop over the iterator does is shown along the walk: at the end, at an error,
whatever would come after it, and at an entry, where the loop goes on. -/
theorem advance_induction {P : Iterator α ε → List (Except ε α) → Prop}
    (hend : P ⟨none, none⟩ [])
    (hfailed : ∀ reason rest, P ⟨none, some reason⟩ (.error reason :: rest))
    (hentry : ∀ a stack, P (advance stack) (stack.flatMap Listing.walk) →
      P ⟨some (a, stack), none⟩ (.ok a :: stack.flatMap Listing.walk))
    (stack : List (Listing α ε)) : P (advance stack) (stack.flatMap Listing.walk) := by
  -- on what the stack amounts to: an entry leaves less, and so does a directory that has ended
  induction hn : pending stack using Nat.strongRec generalizing stack with
  | _ n ih =>
    subst hn
    rcases stack with _ | ⟨l, outer⟩
    · exact hend
    · rcases l with _ | reason | ⟨a, rest⟩ | ⟨a, inside, rest⟩
      · exact ih _ (by simp [Listing.size]) outer rfl
      · exact hfailed reason _
      · exact hentry a (rest :: outer) (ih _ (by simp [Listing.size]) _ rfl)
      · have hrest := ih _ (by simp only [pending_cons, Listing.size]; omega)
          (inside :: rest :: outer) rfl
        have hwalk : ((Listing.directory a inside rest) :: outer).flatMap Listing.walk
            = .ok a :: (inside :: rest :: outer).flatMap Listing.walk := by
          simp [Listing.walk]
        rw [hwalk]
        exact hentry a _ hrest

end Traversal
