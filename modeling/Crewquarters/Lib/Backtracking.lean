import Mathlib.Tactic

/-!
# Backtracking patterns

A pattern gives the ways in which it matches at the head of a list, in the order in which a
backtracking matcher tries them, each with the value of the pattern and the rest of the list. Groups
are the values of the parts, so that a reference back to a group is a literal.

`first` is the match that a matcher settles on.
-/

namespace Crewquarters

open List

universe u

/-- The ways to match at the head of a list, in the order in which they are tried. -/
structure Pattern (α β : Type u) where
  ways : List α → List (β × List α)

namespace Pattern

variable {α β γ : Type u}

instance : Monad (Pattern α) where
  pure b := ⟨fun s => [(b, s)]⟩
  bind p k := ⟨fun s => (p.ways s).flatMap fun x => (k x.1).ways x.2⟩

/-- The elements of `l`, one after the other. -/
def literal [DecidableEq α] (l : List α) : Pattern α PUnit where
  ways s := if l.isPrefixOf s then [(.unit, s.drop l.length)] else []

/-- The elements of the class that the list starts with, cut anywhere. -/
def cuts (p : α → Bool) : List α → List (List α × List α)
  | [] => [([], [])]
  | a :: s => ([], a :: s) :: if p a then (cuts p s).map fun x => (a :: x.1, x.2) else []

/-- As few elements of the class as possible (`*?`). -/
def lazily (p : α → Bool) : Pattern α (List α) := ⟨cuts p⟩

/-- As many elements of the class as possible (`*`). -/
def greedily (p : α → Bool) : Pattern α (List α) := ⟨fun s => (cuts p s).reverse⟩

/-- A repetition that is not empty (`+` and `+?`). -/
def nonempty (q : Pattern α (List α)) : Pattern α (List α) where
  ways s := (q.ways s).filter fun x => !x.1.isEmpty

def first (p : Pattern α β) (s : List α) : Option (β × List α) := (p.ways s).head?

/-- The match of the whole list (`fullmatch`). -/
def fullmatch (p : Pattern α β) (s : List α) : Option β :=
  ((p.ways s).find? fun x => x.2.isEmpty).map Prod.fst

/-- The matches in a list after its first `skip` elements, each found after the end of the one
before it, of a pattern that does not match the empty list. -/
def findFrom (p : Pattern α β) : ℕ → List α → List β
  | _, [] => []
  | skip + 1, _ :: s => findFrom p skip s
  | 0, a :: s => match first p (a :: s) with
    | some x => x.1 :: findFrom p (s.length - x.2.length) s
    | none => findFrom p 0 s

def findAll (p : Pattern α β) (s : List α) : List β := findFrom p 0 s

/-! ## What comes first -/

section First

variable {p : Pattern α β} {k : β → Pattern α γ} {s : List α}

theorem mem_bind {x : γ × List α} :
    x ∈ (p >>= k).ways s ↔ ∃ y ∈ p.ways s, x ∈ (k y.1).ways y.2 := mem_flatMap

theorem mem_pure {b : β} {x : β × List α} : x ∈ (pure b : Pattern α β).ways s ↔ x = (b, s) :=
  mem_singleton

theorem mem_of_first {x : β × List α} (h : p.first s = some x) : x ∈ p.ways s :=
  mem_of_mem_head? h

theorem first_ne_none {x : β × List α} (h : x ∈ p.ways s) : p.first s ≠ none := by
  rw [first, ne_eq, head?_eq_none_iff]
  exact ne_nil_of_mem h

theorem mem_of_fullmatch {b : β} (h : p.fullmatch s = some b) : (b, []) ∈ p.ways s := by
  obtain ⟨⟨b', rest⟩, hfind, rfl⟩ := Option.map_eq_some_iff.1 h
  have hempty := find?_some hfind
  obtain rfl := List.isEmpty_iff.1 hempty
  exact mem_of_find?_eq_some hfind

theorem fullmatch_of_mem {b : β} (hmem : (b, []) ∈ p.ways s)
    (hunique : ∀ b', (b', []) ∈ p.ways s → b' = b) : p.fullmatch s = some b := by
  cases h : p.fullmatch s with
  | none =>
    rw [fullmatch, Option.map_eq_none_iff, find?_eq_none] at h
    exact absurd rfl (h _ hmem)
  | some b' => rw [hunique b' (mem_of_fullmatch h)]

theorem first_bind : first (p >>= k) s = (p.ways s).findSome? fun x => first (k x.1) x.2 :=
  head?_flatMap

/-- A match that goes on is one of the part's. -/
theorem exists_of_first_bind {y : γ × List α} (h : first (p >>= k) s = some y) :
    ∃ x ∈ p.ways s, first (k x.1) x.2 = some y := by
  rw [first_bind] at h
  exact exists_of_findSome?_eq_some h

/-- If the pattern can go on from one match of its first part only, it goes on from there. -/
theorem first_bind_unique {x : β × List α} (hx : x ∈ p.ways s)
    (h : ∀ y ∈ p.ways s, first (k y.1) y.2 ≠ none → y = x) :
    first (p >>= k) s = first (k x.1) x.2 := by
  cases hfirst : first (p >>= k) s with
  | none =>
    rw [first_bind] at hfirst
    exact (List.findSome?_eq_none_iff.1 hfirst x hx).symm
  | some z =>
    obtain ⟨y, hy, hz⟩ := exists_of_first_bind hfirst
    rw [← h y hy (hz ▸ Option.some_ne_none z), hz]

end First

/-! ### Literals -/

section Literal

variable [DecidableEq α] {k : PUnit → Pattern α γ} {l s : List α}

theorem mem_literal {x : PUnit × List α} : x ∈ (literal l).ways s ↔ s = l ++ x.2 := by
  simp only [literal]
  split_ifs with hl
  · obtain ⟨t, rfl⟩ := List.isPrefixOf_iff_prefix.1 hl
    rw [drop_left, mem_singleton, append_cancel_left_eq]
    exact ⟨fun h => by rw [h], fun h => by rw [h]⟩
  · refine ⟨fun h => absurd h not_mem_nil, fun h => absurd ?_ hl⟩
    rw [h]
    exact List.isPrefixOf_iff_prefix.2 (prefix_append l x.2)

theorem first_bind_literal : first (literal l >>= k) (l ++ s) = first (k .unit) s := by
  refine first_bind_unique (x := (.unit, s)) (mem_literal.2 rfl) fun y hy _ => ?_
  exact Prod.ext rfl (append_cancel_left (mem_literal.1 hy)).symm

theorem exists_of_first_bind_literal {y : γ × List α} (h : first (literal l >>= k) s = some y) :
    ∃ t, s = l ++ t ∧ first (k .unit) t = some y := by
  obtain ⟨x, hx, hy⟩ := exists_of_first_bind h
  exact ⟨x.2, mem_literal.1 hx, hy⟩

end Literal

/-! ### Repetitions -/

section Repetition

variable {p : α → Bool} {s : List α} {x : List α × List α}

theorem mem_cuts : ∀ {s : List α} {x : List α × List α},
    x ∈ cuts p s ↔ s = x.1 ++ x.2 ∧ ∀ a ∈ x.1, p a = true
  | [], (u, v) => by
    rw [cuts, mem_singleton, Prod.mk.injEq]
    constructor
    · rintro ⟨rfl, rfl⟩
      exact ⟨rfl, fun a ha => by cases ha⟩
    · rintro ⟨h, -⟩
      exact List.append_eq_nil_iff.1 h.symm
  | a :: s, ([], v) => by
    have hcons : ∀ l : List (List α × List α), ([], v) ∉ l.map fun x => (a :: x.1, x.2) := by
      simp
    rw [cuts]
    split_ifs
    · simp only [mem_cons, hcons, Prod.mk.injEq, true_and, or_false, nil_append,
        not_mem_nil, false_imp_iff, implies_true, and_true, eq_comm]
    · simp only [mem_cons, Prod.mk.injEq, true_and, or_false, nil_append,
        not_mem_nil, false_imp_iff, implies_true, and_true, eq_comm]
  | a :: s, (b :: u, v) => by
    have ih : (u, v) ∈ cuts p s ↔ s = u ++ v ∧ ∀ a ∈ u, p a = true := mem_cuts
    rw [cuts]
    split_ifs with ha
    · simp only [mem_cons, Prod.mk.injEq, reduceCtorEq, false_and, false_or, mem_map,
        List.cons.injEq, cons_append, forall_eq_or_imp]
      constructor
      · rintro ⟨x, hx, ⟨rfl, rfl⟩, rfl⟩
        exact ⟨⟨rfl, (ih.1 hx).1⟩, ha, (ih.1 hx).2⟩
      · rintro ⟨⟨rfl, hs⟩, -, hu⟩
        exact ⟨(u, v), ih.2 ⟨hs, hu⟩, ⟨rfl, rfl⟩, rfl⟩
    · simp only [mem_cons, Prod.mk.injEq, reduceCtorEq, false_and, not_mem_nil, or_self,
        cons_append, List.cons.injEq, forall_eq_or_imp, false_iff, not_and]
      rintro ⟨rfl, -⟩ hb
      exact absurd hb ha

theorem mem_lazily : x ∈ (lazily p).ways s ↔ s = x.1 ++ x.2 ∧ ∀ a ∈ x.1, p a = true :=
  mem_cuts

theorem mem_greedily : x ∈ (greedily p).ways s ↔ s = x.1 ++ x.2 ∧ ∀ a ∈ x.1, p a = true :=
  mem_reverse.trans mem_cuts

theorem mem_nonempty {q : Pattern α (List α)} :
    x ∈ (nonempty q).ways s ↔ x ∈ q.ways s ∧ x.1 ≠ [] := by
  simp [nonempty]

/-- A part without `c` that is followed by `c` ends at the first `c`. -/
theorem append_cons_inj {c : α} : ∀ {u v s t : List α}, c ∉ u → c ∉ v → u ++ c :: s = v ++ c :: t →
    u = v ∧ s = t
  | [], [], s, t, _, _, h => ⟨rfl, (List.cons.inj h).2⟩
  | [], a :: v, s, t, _, hv, h => absurd ((List.cons.inj h).1 ▸ mem_cons_self) hv
  | a :: u, [], s, t, hu, _, h => absurd ((List.cons.inj h).1 ▸ mem_cons_self) hu
  | a :: u, b :: v, s, t, hu, hv, h => by
    obtain ⟨rfl, htail⟩ := List.cons.inj h
    obtain ⟨rfl, rfl⟩ := append_cons_inj (not_mem_of_not_mem_cons hu)
      (not_mem_of_not_mem_cons hv) htail
    exact ⟨rfl, rfl⟩

/-- A repetition that is followed by something outside its class goes on up to there. -/
theorem first_bind_greedily_literal [DecidableEq α] {k : List α → Pattern α γ} {u l : List α}
    {c : α}
    (hu : ∀ a ∈ u, p a = true) (hne : u ≠ []) (hl : l.head? = some c) (hc : p c = false) :
    first (nonempty (greedily p) >>= fun v => literal l >>= fun _ => k v) (u ++ (l ++ s))
      = first (k u) s := by
  have hnotMem : ∀ v : List α, (∀ a ∈ v, p a = true) → c ∉ v := by
    intro v hv hmem
    rw [hv c hmem] at hc
    cases hc
  refine (first_bind_unique (x := (u, l ++ s)) ?_ fun y hy hnext => ?_).trans first_bind_literal
  · exact mem_nonempty.2 ⟨mem_greedily.2 ⟨rfl, hu⟩, hne⟩
  · obtain ⟨hsplit, hclass⟩ := mem_greedily.1 (mem_nonempty.1 hy).1
    obtain ⟨z, hz⟩ := Option.ne_none_iff_exists'.1 hnext
    obtain ⟨t, ht, -⟩ := exists_of_first_bind_literal hz
    obtain ⟨l, rfl⟩ := List.head?_eq_some_iff.1 hl
    rw [ht, cons_append, cons_append] at hsplit
    obtain ⟨hfst, hsnd⟩ := append_cons_inj (hnotMem u hu) (hnotMem y.1 hclass) hsplit
    exact Prod.ext hfst.symm (by rw [ht, cons_append, cons_append, hsnd])

/-- A lazy repetition ends at the first place from which the pattern goes on. -/
theorem first_bind_lazily {k : List α → Pattern α γ} {y : γ × List α} :
    ∀ {u s : List α}, (∀ a ∈ u, p a = true) →
      (∀ v w, u = v ++ w → w ≠ [] → first (k v) (w ++ s) = none) → first (k u) s = some y →
      first (lazily p >>= k) (u ++ s) = some y
  | [], s, _, _, hy => by
    rw [first_bind, lazily, nil_append]
    cases s <;> simp only [cuts, findSome?_cons, hy]
  | a :: u, s, hu, hfail, hy => by
    have hrest : first (lazily p >>= fun v => k (a :: v)) (u ++ s) = some y := by
      refine first_bind_lazily (fun b hb => hu b (mem_cons_of_mem a hb)) ?_ hy
      exact fun v w huv hw => hfail (a :: v) w (by rw [huv, cons_append]) hw
    have hnow : first (k []) (a :: (u ++ s)) = none := hfail [] (a :: u) rfl (cons_ne_nil a u)
    rw [first_bind] at hrest ⊢
    simp only [lazily, cons_append, cuts, if_pos (hu a mem_cons_self),
      findSome?_cons, hnow, findSome?_map]
    exact hrest

end Repetition

/-! ## The matches in a list -/

section FindAll

variable {p : Pattern α β} {s : List α}

theorem findAll_cons_of_none {a : α} (h : first p (a :: s) = none) :
    findAll p (a :: s) = findAll p s := by
  rw [findAll, findFrom, h]
  rfl

theorem mem_findAll_of_first {a : α} {x : β × List α} (h : first p (a :: s) = some x) :
    x.1 ∈ findAll p (a :: s) := by
  rw [findAll, findFrom, h]
  exact mem_cons_self

/-- No match starts in a part of the list: the search comes to what is after it. -/
theorem findAll_append_of_none {t : List α} : ∀ {s : List α},
    (∀ u v, s = u ++ v → v ≠ [] → first p (v ++ t) = none) → findAll p (s ++ t) = findAll p t
  | [], _ => rfl
  | a :: s, h => by
    have hnone : first p (a :: (s ++ t)) = none := h [] (a :: s) rfl (cons_ne_nil a s)
    rw [cons_append, findAll_cons_of_none hnone]
    exact findAll_append_of_none fun u v hs => h (a :: u) v (by rw [hs, cons_append])

theorem findFrom_append (u s : List α) : findFrom p u.length (u ++ s) = findAll p s := by
  induction u with
  | nil => cases s <;> rfl
  | cons a u ih => exact ih

/-- The search goes on after the match. -/
theorem findAll_append {u : List α} {b : β} (hu : u ≠ []) (h : first p (u ++ s) = some (b, s)) :
    findAll p (u ++ s) = b :: findAll p s := by
  obtain ⟨a, u, rfl⟩ := exists_cons_of_ne_nil hu
  rw [cons_append] at h ⊢
  rw [findAll, findFrom, h]
  simp only [length_append, Nat.add_sub_cancel, findFrom_append]

end FindAll

end Pattern

end Crewquarters
