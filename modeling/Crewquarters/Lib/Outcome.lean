import Mathlib.Tactic

/-!
# Calls that return or raise

A call that can raise is an `Except`; these take a sequence of such calls that returned apart
into its parts, each of which returned, and carry an invariant through a loop of them.
-/

namespace Crewquarters

universe u

variable {ε : Type*} {α β : Type u}

theorem bind_eq_ok {x : Except ε α} {f : α → Except ε β} {b : β} :
    (x >>= f) = .ok b ↔ ∃ a, x = .ok a ∧ f a = .ok b := by
  rcases x with e | a
  · simp [bind, Except.bind]
  · simp [bind, Except.bind]

theorem map_eq_ok {f : α → β} {x : Except ε α} {b : β} :
    x.map f = .ok b ↔ ∃ a, x = .ok a ∧ f a = b := by
  rcases x with e | a
  · simp [Except.map]
  · simp [Except.map]

theorem ite_error_eq_ok {c : Prop} [Decidable c] {e : ε} {x : Except ε β} {b : β} :
    (if c then .error e else x) = .ok b ↔ ¬ c ∧ x = .ok b := by
  by_cases hc : c <;> simp [hc]

/-- A loop from what holds before its list to what holds when the list is used up. -/
theorem foldlM_consumes {P : List α → β → Prop} {f : β → α → Except ε β}
    (hf : ∀ {a l b b'}, P (a :: l) b → f b a = .ok b' → P l b') :
    ∀ {l : List α} {b b' : β}, P l b → l.foldlM f b = .ok b' → P [] b'
  | [], b, b', hb, h => by
    simp only [List.foldlM_nil, pure, Except.pure, Except.ok.injEq] at h
    exact h ▸ hb
  | a :: l, b, b', hb, h => by
    rw [List.foldlM_cons] at h
    obtain ⟨c, hc, h⟩ := bind_eq_ok.1 h
    exact foldlM_consumes hf (hf hb hc) h

/-- What a step keeps, a loop of them keeps. -/
theorem foldlM_keeps {P : β → Prop} {f : β → α → Except ε β}
    (hf : ∀ {b a b'}, P b → f b a = .ok b' → P b') {l : List α} {b b' : β} (hb : P b)
    (h : l.foldlM f b = .ok b') : P b' :=
  foldlM_consumes (P := fun _ => P) hf hb h

end Crewquarters
