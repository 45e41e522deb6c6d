import Mathlib.Data.Fintype.Card
import Mathlib.Data.Nat.Notation
import Mathlib.Data.Set.Finite.Basic
import Mathlib.Logic.Relation
import Mathlib.Order.WellFounded
import Mathlib.Order.Basic
import Mathlib.Tactic.Common

/-!
# Runs of a transition system

A system is a relation between states, and a run of it a chain of steps. Two rules carry what this
development shows about runs: what every step preserves holds in all states reached, and a measure
that every step lowers leaves no infinite run — so that every run can be taken to its end. A system
without such a measure, but with one step at most from each state and finitely many states, comes to
an end unless it runs into a cycle.
-/

namespace Runs

open Relation

variable {σ : Type*} {step : σ → σ → Prop}

/-- **The invariant rule.** -/
theorem invariant {I : σ → Prop} (hstep : ∀ s s', I s → step s s' → I s') {s s' : σ} (hs : I s)
    (h : ReflTransGen step s s') : I s' := by
  induction h with
  | refl => exact hs
  | tail _ hlast ih => exact hstep _ _ ih hlast

/-- No step is possible. -/
def Final (step : σ → σ → Prop) (s : σ) : Prop := ∀ s', ¬step s s'

section Measure

variable {I : σ → Prop} {μ : σ → ℕ}

/-- **The termination rule**: no run is infinite. -/
theorem not_infinite (hstep : ∀ s s', I s → step s s' → I s')
    (hμ : ∀ s s', I s → step s s' → μ s' < μ s) (f : ℕ → σ) (h0 : I (f 0)) :
    ¬∀ n, step (f n) (f (n + 1)) := by
  intro hrun
  have hI : ∀ n : ℕ, I (f n) := by
    intro n
    induction n with
    | zero => exact h0
    | succ n ih => exact hstep _ _ ih (hrun n)
  have hbound : ∀ n : ℕ, μ (f n) + n ≤ μ (f 0) := by
    intro n
    induction n with
    | zero => exact Nat.le_refl _
    | succ n ih =>
      have hlt := hμ _ _ (hI n) (hrun n)
      omega
  have htoo := hbound (μ (f 0) + 1)
  omega

theorem exists_final (hstep : ∀ s s', I s → step s s' → I s')
    (hμ : ∀ s s', I s → step s s' → μ s' < μ s) {s : σ} (hs : I s) :
    ∃ s', ReflTransGen step s s' ∧ Final step s' := by
  induction hn : μ s using Nat.strongRecOn generalizing s with
  | ind n ih =>
    subst hn
    by_cases hfinal : Final step s
    · exact ⟨s, .refl, hfinal⟩
    · obtain ⟨t, ht⟩ := not_forall_not.mp hfinal
      obtain ⟨s', hrun, hend⟩ := ih _ (hμ s t hs ht) (hstep s t hs ht) rfl
      exact ⟨s', .head ht hrun, hend⟩

end Measure

/-! ## Ends and cycles -/

/-- A run from `s` comes back to a state it has been in. -/
def Cycles (step : σ → σ → Prop) (s : σ) : Prop :=
  ∃ s', ReflTransGen step s s' ∧ TransGen step s' s'

/-- Among finitely many states, a run that never comes back to one comes to an end. -/
theorem exists_final_of_not_cycles {s : σ} (hfinite : {s' | ReflTransGen step s s'}.Finite)
    (h : ¬Cycles step s) : ∃ s', ReflTransGen step s s' ∧ Final step s' := by
  have hfin : Finite {s' // ReflTransGen step s s'} := hfinite
  let after (a b : {s' // ReflTransGen step s s'}) : Prop := TransGen step b.1 a.1
  have : IsTrans _ after := ⟨fun _ _ _ hab hbc ↦ hbc.trans hab⟩
  have : Std.Irrefl after := ⟨fun a ha ↦ h ⟨a.1, a.2, ha⟩⟩
  -- the last state in the order of the runs is one from which there is no step
  obtain ⟨⟨s', hs'⟩, -, hlast⟩ :=
    (Finite.wellFounded_of_trans_of_irrefl after).has_min Set.univ ⟨⟨s, .refl⟩, trivial⟩
  exact ⟨s', hs', fun t ht ↦ hlast ⟨t, hs'.tail ht⟩ trivial (.single ht)⟩

theorem cycle_step (hunique : Relator.RightUnique step) {s s' : σ} (hs : TransGen step s s)
    (hstep : step s s') : TransGen step s' s' := by
  obtain ⟨t, ht, hback⟩ := TransGen.head'_iff.mp hs
  obtain rfl := hunique hstep ht
  exact TransGen.tail' hback hstep

/-- With one step at most from each state, a run that comes to an end has no cycle. -/
theorem not_cycles_of_final (hunique : Relator.RightUnique step) {s s' : σ}
    (hrun : ReflTransGen step s s') (hfinal : Final step s') : ¬Cycles step s := by
  rintro ⟨c, hc, hcycle⟩
  have hto : TransGen step s' s' := by
    rcases ReflTransGen.total_of_right_unique hunique hc hrun with h | h
    · exact invariant (I := fun x ↦ TransGen step x x) (fun _ _ ↦ cycle_step hunique) hcycle h
    · rcases h.cases_head with rfl | ⟨t, ht, -⟩
      · exact hcycle
      · exact absurd ht (hfinal t)
  obtain ⟨t, ht, -⟩ := TransGen.head'_iff.mp hto
  exact hfinal t ht

/-- **The rule of the cycle.** -/
theorem exists_final_iff_not_cycles (hunique : Relator.RightUnique step) {s : σ}
    (hfinite : {s' | ReflTransGen step s s'}.Finite) :
    (∃ s', ReflTransGen step s s' ∧ Final step s') ↔ ¬Cycles step s :=
  ⟨fun ⟨_, hrun, hfinal⟩ ↦ not_cycles_of_final hunique hrun hfinal,
    exists_final_of_not_cycles hfinite⟩

end Runs
