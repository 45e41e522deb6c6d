import Mathlib.Data.List.Chain

/-!
# Runs with events

A machine that takes one input after another and now and then does something worth noting. What
holds of every input, and of every two events that follow each other, is shown on single steps.
-/

namespace Events

variable {State Input Event : Type*}

/-- `P` holds of every input of a run and the state that meets it. -/
def Throughout (step : State → Input → State) (P : State → Input → Prop) :
    State → List Input → Prop
  | _, [] => True
  | s, i :: is => P s i ∧ Throughout step P (step s i) is

theorem throughout_congr {step : State → Input → State} {P Q : State → Input → Prop}
    (h : ∀ s i, P s i ↔ Q s i) (s : State) (is : List Input) :
    Throughout step P s is ↔ Throughout step Q s is := by
  induction is generalizing s with
  | nil => exact Iff.rfl
  | cons i is ih => exact and_congr (h s i) (ih _)

/-- The events of a run, in order. -/
def events (step : State → Input → State × Option Event) : State → List Input → List Event
  | _, [] => []
  | s, i :: is => (step s i).2.toList ++ events step (step s i).1 is

/-- Consecutive events are related if the state remembers enough of the last event to relate the
next one to it. -/
theorem isChain_events {step : State → Input → State × Option Event} {R : Event → Event → Prop}
    {Remembers : State → Option Event → Prop}
    (hquiet : ∀ s i last, Remembers s last → (step s i).2 = none → Remembers (step s i).1 last)
    (hevent : ∀ s i last e, Remembers s last → (step s i).2 = some e →
      (∀ d ∈ last, R d e) ∧ Remembers (step s i).1 (some e))
    {s : State} {last : Option Event} (h : Remembers s last) (is : List Input) :
    (last.toList ++ events step s is).IsChain R := by
  induction is generalizing s last with
  | nil => cases last <;> simp [events]
  | cons i is ih =>
    rw [events]
    cases he : (step s i).2 with
    | none => exact ih (hquiet s i last h he)
    | some e =>
      obtain ⟨hrel, hnext⟩ := hevent s i last e h he
      have hchain := ih hnext
      cases last with
      | none => exact hchain
      | some d => exact List.isChain_cons_cons.mpr ⟨hrel d rfl, hchain⟩

end Events
