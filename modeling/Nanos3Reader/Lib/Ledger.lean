import Mathlib.Algebra.BigOperators.Fin
import Mathlib.Algebra.Order.BigOperators.Group.Finset
import Mathlib.Tactic.Abel

/-!
# What workers hold together

A stage of work is balanced when everything that has come in has gone out or is in somebody's hands.
Workers keep it so by taking things in and passing them on; and when all hands are empty, everything
that came in has gone out. What is counted may be numbers, multisets of tasks, or
anything else that can be added up and cancelled.
-/

namespace Ledger

variable {ι W M : Type*} [Fintype ι] [DecidableEq ι] [AddCancelCommMonoid M]
  {f : W → M} {workers : ι → W} {came went a b : M}

/-- What all workers hold. -/
def held (f : W → M) (workers : ι → W) : M := ∑ w, f (workers w)

theorem held_update (f : W → M) (workers : ι → W) (w : ι) (x : W) :
    held f (Function.update workers w x) + f (workers w) = held f workers + f x := by
  have hothers : ∑ v ∈ Finset.univ.erase w, f (Function.update workers w x v)
      = ∑ v ∈ Finset.univ.erase w, f (workers v) := by
    refine Finset.sum_congr rfl fun v hv ↦ ?_
    rw [Function.update_of_ne (Finset.ne_of_mem_erase hv)]
  rw [held, held, ← Finset.add_sum_erase _ _ (Finset.mem_univ w),
    ← Finset.add_sum_erase _ (fun v ↦ f (workers v)) (Finset.mem_univ w), hothers,
    Function.update_self]
  abel

omit [DecidableEq ι] in
theorem held_eq_zero (h : ∀ w, f (workers w) = 0) : held f workers = 0 :=
  Finset.sum_eq_zero fun w _ ↦ h w

/-- All that has come in has gone out or is held by a worker. -/
def Balanced (f : W → M) (workers : ι → W) (came went : M) : Prop := came = went + held f workers

theorem Balanced.move (h : Balanced f workers came went) {w : ι} {x : W}
    (hx : f x + b = f (workers w) + a) :
    Balanced f (Function.update workers w x) (came + a) (went + b) := by
  have hheld : b + held f (Function.update workers w x) = held f workers + a := by
    refine add_right_cancel (b := f x + f (workers w)) ?_
    calc b + held f (Function.update workers w x) + (f x + f (workers w))
        = held f (Function.update workers w x) + f (workers w) + (f x + b) := by abel
      _ = held f workers + f x + (f (workers w) + a) := by rw [held_update, hx]
      _ = held f workers + a + (f x + f (workers w)) := by abel
  rw [Balanced, add_assoc went, hheld, ← add_assoc, ← h]

theorem Balanced.keep (h : Balanced f workers came went) {w : ι} {x : W}
    (hx : f x = f (workers w)) : Balanced f (Function.update workers w x) came went := by
  have hmove := h.move (a := 0) (b := 0) (w := w) (x := x) (by rw [hx])
  rwa [add_zero, add_zero] at hmove

omit [DecidableEq ι] in
/-- **When all hands are empty**, what came in has gone out. -/
theorem Balanced.eq (h : Balanced f workers came went) (hnone : ∀ w, f (workers w) = 0) :
    came = went := by
  rw [h, held_eq_zero hnone, add_zero]

omit [DecidableEq ι] in
theorem balanced_zero (h : ∀ w, f (workers w) = 0) : Balanced f workers 0 0 := by
  rw [Balanced, held_eq_zero h, add_zero]

end Ledger
