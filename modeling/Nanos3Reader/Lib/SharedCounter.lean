import Mathlib.Data.Nat.Notation
import Mathlib.Tactic.Common

/-!
# Work handed out by a counter

Workers that draw the numbers of their tasks from one counter draw every number once, but a number
drawn is not yet a task done. What holds throughout is that each number handed out is settled or is
still owed by somebody; so when nobody owes anything, all of them are settled.
-/

namespace SharedCounter

variable {W : Type*} {next : ℕ} {owes owes' : W → ℕ → Prop} {settled settled' : ℕ → Prop}

/-- Every number handed out is settled or owed by a worker. -/
def Covered (next : ℕ) (owes : W → ℕ → Prop) (settled : ℕ → Prop) : Prop :=
  ∀ i < next, settled i ∨ ∃ w, owes w i

theorem covered_zero : Covered 0 owes settled := fun _ h ↦ absurd h (Nat.not_lt_zero _)

theorem Covered.draw (h : Covered next owes settled) {w : W} (hw : owes' w next)
    (hkeep : ∀ v i, owes v i → owes' v i) : Covered (next + 1) owes' settled := by
  intro i hi
  rcases Nat.lt_succ_iff_lt_or_eq.mp hi with hlt | rfl
  · exact (h i hlt).imp_right fun ⟨v, hv⟩ ↦ ⟨v, hkeep v i hv⟩
  · exact .inr ⟨w, hw⟩

theorem Covered.settle (h : Covered next owes settled) (w : W)
    (hw : ∀ i, owes w i → settled' i ∨ owes' w i) (hothers : ∀ v ≠ w, ∀ i, owes v i → owes' v i)
    (hsettled : ∀ i, settled i → settled' i) : Covered next owes' settled' := by
  intro i hi
  rcases h i hi with hdone | ⟨v, hv⟩
  · exact .inl (hsettled i hdone)
  · by_cases hvw : v = w
    · subst hvw
      exact (hw i hv).imp_right fun hv' ↦ ⟨v, hv'⟩
    · exact .inr ⟨v, hothers v hvw i hv⟩

/-- **When nobody owes anything, everything handed out is settled.** -/
theorem Covered.all_settled (h : Covered next owes settled) (hnone : ∀ w i, ¬owes w i) {i : ℕ}
    (hi : i < next) : settled i :=
  (h i hi).resolve_right fun ⟨w, hw⟩ ↦ hnone w i hw

end SharedCounter
