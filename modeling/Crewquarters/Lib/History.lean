import Mathlib.Tactic

/-!
# Histories

The list of what happened, newest first. `Since x later history` says that `x` happened and then
exactly `later`; what it means for events to be added is said here once.
-/

namespace Crewquarters

open List

variable {α : Type*} {x y : α} {later new history : List α}

def Since (x : α) (later history : List α) : Prop := ∃ earlier, history = later ++ x :: earlier

theorem Since.mem (h : Since x later history) : x ∈ history := by
  obtain ⟨earlier, rfl⟩ := h
  simp

/-- One more event is after everything before it. -/
theorem since_cons : Since x later (y :: history)
    ↔ (later = [] ∧ y = x) ∨ ∃ l, later = y :: l ∧ Since x l history := by
  constructor
  · rintro ⟨earlier, h⟩
    cases later with
    | nil => exact .inl ⟨rfl, (cons.inj h).1⟩
    | cons z l =>
      obtain ⟨rfl, htail⟩ := cons.inj h
      exact .inr ⟨l, rfl, earlier, htail⟩
  · rintro (⟨rfl, rfl⟩ | ⟨l, rfl, earlier, rfl⟩)
    · exact ⟨history, rfl⟩
    · exact ⟨earlier, rfl⟩

/-- Events that are added and are not `x` are after it. -/
theorem Since.of_append (hx : x ∉ new) (h : Since x later (new ++ history)) :
    ∃ l, later = new ++ l ∧ Since x l history := by
  induction new generalizing later with
  | nil => exact ⟨later, rfl, h⟩
  | cons y new ih =>
    rcases since_cons.1 h with ⟨-, rfl⟩ | ⟨l, rfl, hsince⟩
    · exact absurd mem_cons_self hx
    · obtain ⟨l', rfl, hl'⟩ := ih (fun hm => hx (mem_cons_of_mem _ hm)) hsince
      exact ⟨l', rfl, hl'⟩

end Crewquarters
