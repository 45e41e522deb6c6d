import Mathlib.Data.Nat.Notation
import Mathlib.Order.Nat
import Mathlib.Order.Basic
import Mathlib.Tactic.Common

/-!
# A state and its log

A state that changes with the events of a log only: what it was at any time is read off the log.
What holds at some time and did not hold at first has come with one of the events before, and what
no event ends goes on to hold.
-/

namespace History

variable {σ ε : Type*} (next : σ → ε → σ)

/-- The state as the event at the place `n` of the log finds it. -/
def before (s : σ) (log : List ε) (n : ℕ) : σ := (log.take n).foldl next s

variable {next} {s : σ} {log more : List ε} {n : ℕ}

theorem before_append (hn : n ≤ log.length) :
    before next s (log ++ more) n = before next s log n := by
  rw [before, before, List.take_append_of_le_length hn]

theorem before_succ {e : ε} (h : log[n]? = some e) :
    before next s log (n + 1) = next (before next s log n) e := by
  rw [before, before, List.take_add_one, h, Option.toList_some, List.foldl_append]
  rfl

theorem before_succ_of_none (h : log[n]? = none) :
    before next s log (n + 1) = before next s log n := by
  rw [before, before, List.take_add_one, h, Option.toList_none, List.append_nil]

/-- **What holds has come with an event**, if it did not hold at first. -/
theorem exists_event {P : σ → Prop} (n : ℕ) (h : P (before next s log n)) :
    P s ∨ ∃ m < n, ∃ e, log[m]? = some e ∧ ¬P (before next s log m) ∧
      P (next (before next s log m) e) := by
  induction n with
  | zero => exact .inl h
  | succ n ih =>
    have hearlier (hn : P (before next s log n)) : P s ∨ ∃ m < n + 1, ∃ e, log[m]? = some e ∧
        ¬P (before next s log m) ∧ P (next (before next s log m) e) :=
      (ih hn).imp_right fun ⟨m, hm, hwhat⟩ ↦ ⟨m, Nat.lt_succ_of_lt hm, hwhat⟩
    rcases hevent : log[n]? with _ | e
    · rw [before_succ_of_none hevent] at h
      exact hearlier h
    · rw [before_succ hevent] at h
      by_cases hn : P (before next s log n)
      · exact hearlier hn
      · exact .inr ⟨n, Nat.lt_succ_self n, e, hevent, hn, h⟩

/-- **What no event ends goes on to hold.** -/
theorem kept {P : σ → Prop} {m : ℕ} (hmn : m ≤ n) (hm : P (before next s log m))
    (hkeeps : ∀ j e, m ≤ j → j < n → log[j]? = some e → P (before next s log j) →
      P (next (before next s log j) e)) : P (before next s log n) := by
  induction n, hmn using Nat.le_induction with
  | base => exact hm
  | succ n hmn ih =>
    have hn := ih fun j e hj hjn ↦ hkeeps j e hj (Nat.lt_succ_of_lt hjn)
    rcases hevent : log[n]? with _ | e
    · rw [before_succ_of_none hevent]
      exact hn
    · rw [before_succ hevent]
      exact hkeeps n e hmn (Nat.lt_succ_self n) hevent hn

end History
