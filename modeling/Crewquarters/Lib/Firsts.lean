import Mathlib.Tactic

/-!
# First appearances

`firsts key seen l` is `l` without the elements whose key was seen before: in `seen`, or earlier in
`l`. A list taken in two parts gives the same as a list taken whole (`firsts_append`), and only the
keys that occur matter (`firsts_congr`).
-/

namespace Crewquarters

open List

variable {κ α β : Type*} [DecidableEq κ] (key : α → κ)

/-- The elements that are the first of their key, where the keys in `seen` are taken. -/
def firsts : List κ → List α → List α
  | _, [] => []
  | seen, a :: l => if key a ∈ seen then firsts seen l else a :: firsts (key a :: seen) l

variable {key}

@[simp] theorem firsts_nil (seen : List κ) : firsts key seen [] = [] := rfl

theorem firsts_cons_of_mem {seen : List κ} {a : α} (l : List α) (h : key a ∈ seen) :
    firsts key seen (a :: l) = firsts key seen l :=
  if_pos h

theorem firsts_cons_of_not_mem {seen : List κ} {a : α} (l : List α) (h : key a ∉ seen) :
    firsts key seen (a :: l) = a :: firsts key (key a :: seen) l :=
  if_neg h

theorem firsts_congr : ∀ {l : List α} {seen seen' : List κ},
    (∀ a ∈ l, key a ∈ seen ↔ key a ∈ seen') → firsts key seen l = firsts key seen' l
  | [], _, _, _ => rfl
  | a :: l, seen, seen', h => by
    have hl : ∀ b ∈ l, key b ∈ seen ↔ key b ∈ seen' := fun b hb => h b (mem_cons_of_mem _ hb)
    by_cases ha : key a ∈ seen
    · rw [firsts_cons_of_mem l ha, firsts_cons_of_mem l ((h a (by simp)).1 ha), firsts_congr hl]
    · rw [firsts_cons_of_not_mem l ha,
        firsts_cons_of_not_mem l fun ha' => ha ((h a (by simp)).2 ha')]
      exact congrArg (a :: ·) (firsts_congr fun b hb => by simp [hl b hb])

theorem firsts_eq_nil {l : List α} {seen : List κ} (h : ∀ a ∈ l, key a ∈ seen) :
    firsts key seen l = [] := by
  induction l with
  | nil => rfl
  | cons a l ih =>
    rw [firsts_cons_of_mem l (h a (by simp))]
    exact ih fun b hb => h b (mem_cons_of_mem _ hb)

theorem firsts_sublist : ∀ (seen : List κ) (l : List α), (firsts key seen l).Sublist l
  | _, [] => .slnil
  | seen, a :: l => by
    by_cases ha : key a ∈ seen
    · rw [firsts_cons_of_mem l ha]
      exact (firsts_sublist seen l).cons a
    · rw [firsts_cons_of_not_mem l ha]
      exact (firsts_sublist _ l).cons_cons a

/-- Every key is that of a first appearance, or was seen. -/
theorem key_mem_firsts {a : α} : ∀ {l : List α} {seen : List κ}, a ∈ l →
    key a ∈ seen ++ (firsts key seen l).map key
  | b :: l, seen, ha => by
    by_cases hb : key b ∈ seen
    · rw [firsts_cons_of_mem l hb]
      rcases mem_cons.1 ha with rfl | ha
      · exact mem_append_left _ hb
      · exact key_mem_firsts ha
    · rw [firsts_cons_of_not_mem l hb]
      rcases mem_cons.1 ha with rfl | ha
      · simp
      · have hmem : key a ∈ key b :: seen ++ (firsts key (key b :: seen) l).map key :=
          key_mem_firsts ha
        simp only [cons_append, mem_cons, mem_append, map_cons] at hmem ⊢
        tauto

theorem firsts_append : ∀ (seen : List κ) (l l' : List α),
    firsts key seen (l ++ l')
      = firsts key seen l ++ firsts key (seen ++ (firsts key seen l).map key) l'
  | seen, [], l' => by simp
  | seen, a :: l, l' => by
    rw [cons_append]
    by_cases ha : key a ∈ seen
    · rw [firsts_cons_of_mem _ ha, firsts_cons_of_mem _ ha, firsts_append seen l l']
    · rw [firsts_cons_of_not_mem _ ha, firsts_cons_of_not_mem _ ha, firsts_append (key a :: seen),
        cons_append]
      refine congrArg (a :: ·) (congrArg (_ ++ ·) (firsts_congr fun b _ => ?_))
      simp only [mem_cons, mem_append, map_cons]
      tauto

theorem firsts_map (f : β → α) : ∀ (seen : List κ) (l : List β),
    firsts key seen (l.map f) = (firsts (fun b => key (f b)) seen l).map f
  | _, [] => rfl
  | seen, b :: l => by
    simp only [map_cons, firsts]
    split_ifs
    · exact firsts_map f seen l
    · rw [map_cons, firsts_map f]

/-- First appearances have keys of their own, none of them seen. -/
theorem nodup_keys_firsts : ∀ {seen : List κ} (l : List α), seen.Nodup →
    (seen ++ (firsts key seen l).map key).Nodup
  | seen, [], h => by simpa using h
  | seen, a :: l, h => by
    by_cases ha : key a ∈ seen
    · rw [firsts_cons_of_mem l ha]
      exact nodup_keys_firsts l h
    · rw [firsts_cons_of_not_mem l ha, map_cons]
      have hnodup : (key a :: seen ++ (firsts key (key a :: seen) l).map key).Nodup :=
        nodup_keys_firsts l (nodup_cons.2 ⟨ha, h⟩)
      exact perm_middle.nodup_iff.2 hnodup

end Crewquarters
