import Mathlib.Tactic

/-!
# Tasks that take turns

A list of tasks, one of which moves at a time (`List.set` at its place). A task holds the keys its
current state says it holds; that no two tasks hold one key (`Exclusive`) is kept as long as a task
only takes keys that are free.
-/

namespace Crewquarters

open List Option

namespace Tasks

variable {τ κ : Type*} {holds : τ → κ → Prop} {tasks : List τ} {n m : ℕ} {t t' u : τ} {k : κ}

/-- No task holds `k`. -/
def Free (holds : τ → κ → Prop) (k : κ) (tasks : List τ) : Prop := ∀ t ∈ tasks, ¬ holds t k

def Exclusive (holds : τ → κ → Prop) (tasks : List τ) : Prop :=
  ∀ ⦃n m : ℕ⦄ ⦃t u k⦄, tasks[n]? = some t → tasks[m]? = some u → holds t k → holds u k → n = m

/-- After a move, a task is the one that moved or one that stayed at another place. -/
theorem mem_set (h : u ∈ tasks.set n t') : u = t' ∨ ∃ m, m ≠ n ∧ tasks[m]? = some u := by
  obtain ⟨m, hm⟩ := mem_iff_getElem?.1 h
  rw [getElem?_set] at hm
  split_ifs at hm with hnm hlt
  · exact .inl (some.inj hm).symm
  · exact .inr ⟨m, fun h => hnm h.symm, hm⟩

theorem mem_of_mem_set (h : u ∈ tasks.set n t') : u = t' ∨ u ∈ tasks :=
  (mem_set h).imp_right fun ⟨_, _, hm⟩ => mem_of_getElem? hm

theorem getElem?_append_singleton (h : (tasks ++ [t])[n]? = some u) :
    tasks[n]? = some u ∨ n = tasks.length ∧ u = t := by
  rw [getElem?_append] at h
  split_ifs at h with hlt
  · exact .inl h
  · have hn := (List.getElem?_eq_some_iff.1 h).1
    rw [length_singleton] at hn
    have hut : u = t := by simpa using mem_of_getElem? h
    exact .inr ⟨by omega, hut⟩

/-- What a move leaves as it was. -/
theorem map_set_of_eq {β : Type*} (f : τ → β) (hn : tasks[n]? = some t) (hf : f t' = f t) :
    (tasks.set n t').map f = tasks.map f := by
  have hget : (tasks.map f)[n]? = some (f t) := by rw [getElem?_map, hn, map_some]
  obtain ⟨hlt, heq⟩ := List.getElem?_eq_some_iff.1 hget
  rw [map_set, hf, ← heq, set_getElem_self]

namespace Exclusive

theorem nil : Exclusive holds [] := by
  intro n m t u k hn
  simp at hn

/-- What one task holds no other does. -/
theorem not_holds (h : Exclusive holds tasks) (hn : tasks[n]? = some t) (hk : holds t k)
    (hnm : m ≠ n) (hm : tasks[m]? = some u) : ¬ holds u k :=
  fun hu => hnm (h hm hn hu hk)

/-- A task that moves on holds what it held, or what was free. -/
theorem set (h : Exclusive holds tasks) (hn : tasks[n]? = some t)
    (hk : ∀ k, holds t' k → holds t k ∨ Free holds k tasks) : Exclusive holds (tasks.set n t') := by
  have hmoved : ∀ {m : ℕ} {u k}, m ≠ n → tasks[m]? = some u → holds u k → ¬ holds t' k := by
    intro m u k hmn hm hu ht'
    rcases hk k ht' with ht | hfree
    · exact h.not_holds hn ht hmn hm hu
    · exact hfree u (mem_of_getElem? hm) hu
  intro i j u v k hi hj hu hv
  rw [getElem?_set] at hi hj
  split_ifs at hi hj with hni hlt hnj hlt' hnj'
  · exact hni.symm.trans hnj
  · obtain rfl := some.inj hi
    exact absurd hu (hmoved (fun h => hnj h.symm) hj hv)
  · obtain rfl := some.inj hj
    exact absurd hv (hmoved (fun h => hni h.symm) hi hu)
  · exact h hi hj hu hv

/-- A new task holds what was free. -/
theorem append (h : Exclusive holds tasks) (hk : ∀ k, holds t k → Free holds k tasks) :
    Exclusive holds (tasks ++ [t]) := by
  intro i j u v k hi hj hu hv
  rcases getElem?_append_singleton hi with hi' | ⟨hi', rfl⟩ <;>
    rcases getElem?_append_singleton hj with hj' | ⟨hj', rfl⟩
  · exact h hi' hj' hu hv
  · exact absurd hu (hk k hv u (mem_of_getElem? hi'))
  · exact absurd hv (hk k hu v (mem_of_getElem? hj'))
  · exact hi'.trans hj'.symm

end Exclusive

end Tasks

end Crewquarters
