import Mathlib.Data.Nat.Notation
import Mathlib.Tactic.Common

/-!
# Loops that try again

A loop makes an attempt, and its outcome decides whether it stops or makes another one, in a state
of its own. Nothing is assumed of the outcomes. What is known of such a loop is what one decision
says: of the outcomes that are followed by another attempt, and of a budget that they use up.
-/

namespace Retry

variable {σ τ : Type*}

/-- The outcomes of a loop from the state `s` until it stops. `next` is the state for another
attempt, if there is one. -/
inductive Run (next : σ → τ → Option σ) : σ → List τ → Prop
  | stop {s : σ} {t : τ} (h : next s t = none) : Run next s [t]
  | again {s s' : σ} {t : τ} {ts : List τ} (h : next s t = some s') (hrest : Run next s' ts) :
      Run next s (t :: ts)

variable {next : σ → τ → Option σ} {s : σ} {ts : List τ}

theorem Run.ne_nil (h : Run next s ts) : ts ≠ [] := by
  cases h <;> exact List.cons_ne_nil _ _

/-- **The budget rule.** Outcomes that each use up some of a budget before another attempt are no
more than the budget. -/
theorem Run.countP_dropLast_le (p : τ → Bool) (budget : σ → ℕ)
    (hnext : ∀ s t s', next s t = some s' → budget s' + (if p t then 1 else 0) ≤ budget s)
    (h : Run next s ts) : ts.dropLast.countP p ≤ budget s := by
  induction h with
  | stop => simp
  | again hagain hrest ih =>
    rw [List.dropLast_cons_of_ne_nil hrest.ne_nil, List.countP_cons]
    have hstep := hnext _ _ _ hagain
    omega

theorem Run.length_le (budget : σ → ℕ)
    (hnext : ∀ s t s', next s t = some s' → budget s' < budget s) (h : Run next s ts) :
    ts.length ≤ budget s + 1 := by
  have hcount := h.countP_dropLast_le (fun _ ↦ true) budget (by simpa [Nat.succ_le_iff] using hnext)
  rw [List.countP_true, List.length_dropLast] at hcount
  omega

end Retry
