import Mathlib.Tactic

/-!
# Labelled paths

A list of labels leads from one point to another when each of them steps from where the one before
ended.
-/

namespace Crewquarters

variable {σ α : Type*}

/-- The labels lead from the first point to the last. -/
def Path (step : σ → α → σ → Prop) : σ → List α → σ → Prop
  | s, [], t => s = t
  | s, a :: as, t => ∃ u, step s a u ∧ Path step u as t

variable {step : σ → α → σ → Prop}

theorem path_append {as bs : List α} {s t : σ} :
    Path step s (as ++ bs) t ↔ ∃ u, Path step s as u ∧ Path step u bs t := by
  induction as generalizing s with
  | nil => simp [Path]
  | cons a as ih =>
    simp only [List.cons_append, Path, ih]
    constructor
    · rintro ⟨u, hu, v, hv, ht⟩
      exact ⟨v, ⟨u, hu, hv⟩, ht⟩
    · rintro ⟨v, ⟨u, hu, hv⟩, ht⟩
      exact ⟨u, hu, v, hv, ht⟩

end Crewquarters
