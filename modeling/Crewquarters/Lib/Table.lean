import Mathlib.Tactic

/-!
# Tables of rows with a primary key

A table is a list of rows; `get` reads the row of a key and `put` writes a row back over the one it
was read from. Reading after writing is the written row at its own key (`get_put_self`) and nothing
else changes (`get_put_of_ne`). `put` keeps the keys and their order (`map_key_put`).
-/

namespace Crewquarters

open List

namespace Table

variable {κ α : Type*} [DecidableEq κ] (key : α → κ)

/-- The row of key `k`. -/
def get (k : κ) (rows : List α) : Option α := rows.find? fun a => key a = k

def put (a : α) (rows : List α) : List α := rows.map fun b => if key b = key a then a else b

variable {key}
variable {k : κ} {rows : List α} {a b : α}

theorem get_key (h : get key k rows = some a) : key a = k := by
  simpa using find?_some h

theorem get_mem (h : get key k rows = some a) : a ∈ rows :=
  mem_of_find?_eq_some h

theorem get_eq_none : get key k rows = none ↔ ∀ a ∈ rows, key a ≠ k := by
  simp [get]

@[simp] theorem get_nil (k : κ) : get key k [] = none := rfl

theorem get_cons (k : κ) (a : α) (rows : List α) :
    get key k (a :: rows) = if key a = k then some a else get key k rows := by
  by_cases h : key a = k <;> simp [get, h]

theorem get_append (k : κ) (rows rows' : List α) :
    get key k (rows ++ rows') = (get key k rows).or (get key k rows') := by
  simp [get]

/-- A row just added at a key no row had is what is read there. -/
theorem get_append_self (h : get key (key a) rows = none) :
    get key (key a) (rows ++ [a]) = some a := by
  rw [get_append, h, get_cons]
  simp

theorem get_append_of_ne (h : key a ≠ k) : get key k (rows ++ [a]) = get key k rows := by
  rw [get_append, get_cons, if_neg h]
  simp

theorem get_put_self (h : get key (key a) rows = some b) :
    get key (key a) (put key a rows) = some a := by
  induction rows with
  | nil => simp at h
  | cons c rows ih =>
    rw [get_cons] at h
    simp only [put, map_cons] at ih ⊢
    rw [get_cons]
    by_cases hc : key c = key a
    · rw [if_pos hc, if_pos rfl]
    · rw [if_neg hc] at h ⊢
      rw [if_neg hc]
      exact ih h

theorem get_put_of_ne (h : key a ≠ k) : get key k (put key a rows) = get key k rows := by
  induction rows with
  | nil => rfl
  | cons c rows ih =>
    simp only [put, map_cons] at ih ⊢
    rw [get_cons, get_cons, ih]
    by_cases hc : key c = key a
    · rw [if_pos hc, if_neg h, if_neg (hc ▸ h)]
    · rw [if_neg hc]

theorem mem_put (h : b ∈ put key a rows) : b = a ∨ (b ∈ rows ∧ key b ≠ key a) := by
  obtain ⟨c, hc, rfl⟩ := mem_map.1 h
  split_ifs with hk
  · exact .inl rfl
  · exact .inr ⟨hc, hk⟩

theorem mem_put_of_mem (hb : b ∈ rows) (hk : key b ≠ key a) : b ∈ put key a rows :=
  mem_map.2 ⟨b, hb, by rw [if_neg hk]⟩

theorem mem_put_self (hb : b ∈ rows) (hk : key b = key a) : a ∈ put key a rows :=
  mem_map.2 ⟨b, hb, by rw [if_pos hk]⟩

/-- The later write to a row is the one that counts. -/
theorem put_put (hk : key a = key b) : put key b (put key a rows) = put key b rows := by
  rw [put, put, put, map_map]
  refine map_congr_left fun c _ => ?_
  by_cases hc : key c = key a
  · simp [hc, hk]
  · simp [hc]

theorem map_key_put (a : α) (rows : List α) : (put key a rows).map key = rows.map key := by
  simp only [put, map_map]
  refine map_congr_left fun b _ => ?_
  simp only [Function.comp_apply]
  split_ifs with h
  · exact h.symm
  · rfl

theorem isSome_get : (get key k rows).isSome ↔ k ∈ rows.map key := by
  simp [get]

/-- With one row a key, a row of the table is what is read at its key. -/
theorem get_of_mem (hn : (rows.map key).Nodup) (ha : a ∈ rows) : get key (key a) rows = some a := by
  induction rows with
  | nil => simp at ha
  | cons b rows ih =>
    simp only [map_cons, nodup_cons, mem_map, not_exists, not_and] at hn
    rw [get_cons]
    rcases mem_cons.1 ha with rfl | ha
    · rw [if_pos rfl]
    · rw [if_neg (fun h => hn.1 a ha h.symm), ih hn.2 ha]

omit [DecidableEq κ] in
/-- Rows with distinct keys that all have one key are one row at most. -/
theorem length_le_one_of_nodup_map :
    ∀ {rows : List α}, (rows.map key).Nodup → (∀ a ∈ rows, ∀ b ∈ rows, key a = key b) →
      rows.length ≤ 1
  | [], _, _ => by simp
  | [_], _, _ => le_rfl
  | a :: b :: rows, hn, heq => by
    have hab : key a ≠ key b := by
      simp only [map_cons, nodup_cons, mem_cons, not_or] at hn
      exact hn.1.1
    exact absurd (heq a (by simp) b (by simp)) hab

/-- Rows of no weight may be left out of a sum. -/
theorem sum_filter (p : α → Bool) (f : α → ℕ) :
    ∀ {rows : List α}, (∀ a ∈ rows, p a = false → f a = 0) →
      ((rows.filter p).map f).sum = (rows.map f).sum
  | [], _ => rfl
  | a :: rows, h => by
    have ih := sum_filter p f fun b hb => h b (mem_cons_of_mem _ hb)
    rw [filter_cons, map_cons, sum_cons, ← ih]
    split_ifs with ha
    · rw [map_cons, sum_cons]
    · rw [h a (by simp) (by simpa using ha), Nat.zero_add]

/-- With one row a key, the table around the row of a key: writing changes that row and no other. -/
theorem split_of_get (hn : (rows.map key).Nodup) (h : get key k rows = some b) :
    ∃ l₁ l₂, rows = l₁ ++ b :: l₂ ∧ (rows.filter fun a => key a ≠ k) = l₁ ++ l₂
      ∧ ∀ a, key a = k → put key a rows = l₁ ++ a :: l₂ := by
  have hkey := get_key h
  obtain ⟨l₁, l₂, rfl⟩ := append_of_mem (get_mem h)
  have hne : ∀ a ∈ l₁ ++ l₂, key a ≠ k := by
    intro a ha hak
    rw [map_append, map_cons, nodup_middle, nodup_cons] at hn
    refine hn.1 ?_
    rw [← map_append, hkey, ← hak]
    exact mem_map_of_mem ha
  have h₁ : ∀ a ∈ l₁, key a ≠ k := fun a ha => hne a (mem_append_left _ ha)
  have h₂ : ∀ a ∈ l₂, key a ≠ k := fun a ha => hne a (mem_append_right _ ha)
  refine ⟨l₁, l₂, rfl, ?_, fun a ha => ?_⟩
  · rw [filter_append, filter_cons_of_neg (by simpa using hkey),
      filter_eq_self.2 (by simpa using h₁), filter_eq_self.2 (by simpa using h₂)]
  · have hself : ∀ l : List α, (∀ c ∈ l, key c ≠ k) →
        (l.map fun c => if key c = key a then a else c) = l := by
      intro l hl
      refine (map_congr_left fun c hc => ?_).trans (map_id l)
      rw [if_neg (ha ▸ hl c hc), id]
    rw [put, map_append, map_cons, hself l₁ h₁, hself l₂ h₂, if_pos (hkey.trans ha.symm)]

/-- Writing a row changes nothing that the row had before. -/
theorem map_put_of_eq {β : Type*} (f : α → β) (hn : (rows.map key).Nodup)
    (h : get key (key a) rows = some b) (hf : f a = f b) : (put key a rows).map f = rows.map f := by
  obtain ⟨l₁, l₂, hrows, -, hput⟩ := split_of_get hn h
  rw [hput a rfl, hrows]
  simp only [map_append, map_cons, hf]

/-- What writing a row does to a sum over the rows. -/
theorem sum_put {M : Type*} [AddCommMonoid M] (f : α → M) (hn : (rows.map key).Nodup)
    (h : get key (key a) rows = some b) :
    ((put key a rows).map f).sum + f b = (rows.map f).sum + f a := by
  obtain ⟨l₁, l₂, hrows, -, hput⟩ := split_of_get hn h
  rw [hput a rfl, hrows]
  simp only [map_append, map_cons, sum_append, sum_cons]
  abel

end Table

end Crewquarters
