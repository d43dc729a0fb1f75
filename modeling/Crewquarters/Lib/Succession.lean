import Mathlib.Tactic

/-!
# The next element of a set

A list in which each element is the next one of a set (`NextIn`) after the one before goes through
the set in order and leaves nothing out (`NextIn.mem_of_chain`). A search that goes from one element
to the next gets by with as many steps as there are elements to pass (`NextIn.encard_lt`).
-/

namespace Crewquarters

open List

variable {α : Type*} [LinearOrder α] {S : Set α} {a b c x : α} {l : List α}

/-- `b` is the first element of `S` after `a`. -/
def NextIn (S : Set α) (a b : α) : Prop := IsLeast {x | x ∈ S ∧ a < x} b

namespace NextIn

theorem mem (h : NextIn S a b) : b ∈ S := h.1.1

theorem lt (h : NextIn S a b) : a < b := h.1.2

theorem le (h : NextIn S a b) (hx : x ∈ S) (hax : a < x) : b ≤ x := h.2 ⟨hx, hax⟩

theorem unique (hb : NextIn S a b) (hc : NextIn S a c) : b = c := IsLeast.unique hb hc

/-- There is nothing between. -/
theorem lt_iff (h : NextIn S a b) (hx : x ∈ S) : x < b ↔ x ≤ a :=
  ⟨fun hxb => le_of_not_gt fun hax => absurd (h.le hx hax) (not_le.2 hxb),
    fun hxa => hxa.trans_lt h.lt⟩

theorem pairwise_of_chain (h : (a :: l).IsChain (NextIn S)) : (a :: l).Pairwise (· < ·) :=
  (h.imp fun _ _ => NextIn.lt).pairwise

theorem subset_of_chain : ∀ {l : List α} {a : α}, (a :: l).IsChain (NextIn S) → ∀ x ∈ l, x ∈ S
  | [], _, _, _, hx => absurd hx not_mem_nil
  | b :: l, _, h, x, hx => by
    rw [isChain_cons_cons] at h
    rcases mem_cons.1 hx with rfl | hx
    · exact h.1.mem
    · exact subset_of_chain h.2 x hx

theorem mem_of_chain : ∀ {l : List α} {a : α}, (a :: l).IsChain (NextIn S) →
    ∀ x ∈ S, a < x → ∀ last ∈ l.getLast?, x ≤ last → x ∈ l
  | [], _, _, _, _, _, _, hlast, _ => absurd hlast nofun
  | b :: l, a, h, x, hx, hax, last, hlast, hle => by
    rw [isChain_cons_cons] at h
    rcases (h.1.le hx hax).eq_or_lt with rfl | hlt
    · exact mem_cons_self
    · cases l with
      | nil =>
        obtain rfl := Option.some.inj hlast
        exact absurd hlt (not_lt.2 hle)
      | cons =>
        rw [List.getLast?_cons_cons] at hlast
        exact mem_cons_of_mem _ (mem_of_chain h.2 x hx hlt last hlast hle)

/-- One element less to pass. -/
theorem encard_lt {p : α → Prop} {n : ℕ} (h : NextIn S a b) (hb : p b)
    (hn : {x | x ∈ S ∧ a < x ∧ p x}.encard < (n + 1 : ℕ)) :
    {x | x ∈ S ∧ b < x ∧ p x}.encard < n := by
  have hsub : insert b {x | x ∈ S ∧ b < x ∧ p x} ⊆ {x | x ∈ S ∧ a < x ∧ p x} := by
    rintro x (rfl | ⟨hx, hbx, hp⟩)
    · exact ⟨h.mem, h.lt, hb⟩
    · exact ⟨hx, h.lt.trans hbx, hp⟩
  have hnot : b ∉ {x | x ∈ S ∧ b < x ∧ p x} := fun hmem => lt_irrefl b hmem.2.1
  have hle := Set.encard_le_encard hsub
  rw [Set.encard_insert_of_notMem hnot] at hle
  have hlt := hle.trans_lt hn
  rw [Nat.cast_add, Nat.cast_one] at hlt
  exact lt_of_add_lt_add_right hlt

end NextIn

end Crewquarters
