import Mathlib.Tactic

/-!
# Replacing the matches in a list

A matcher says whether a match starts at the head of a list and how long it is. `replace` goes
through a list from left to right, replaces each match it comes to and goes on after it. A list in
which nothing matches is left alone (`replace_eq_self`), and a measure that every replacement raises
is raised if something matches (`measure_lt_replace`), so that only such a list is left alone
(`replace_eq_self_iff`).
-/

namespace Crewquarters

open List Option

section TakeWhile

variable {α : Type*} (p : α → Bool) (cs : List α)

theorem take_takeWhile : cs.take (cs.takeWhile p).length = cs.takeWhile p := by
  have hprefix := takeWhile_prefix p (l := cs)
  exact (prefix_iff_eq_take.1 hprefix).symm

theorem drop_takeWhile : cs.drop (cs.takeWhile p).length = cs.dropWhile p := by
  have h : cs.takeWhile p ++ cs.drop (cs.takeWhile p).length = cs := by
    conv_rhs => rw [← take_append_drop (cs.takeWhile p).length cs, take_takeWhile]
  exact append_cancel_left (h.trans takeWhile_append_dropWhile.symm)

end TakeWhile

/-- One less than the length of the match at the head of the list, if there is one. -/
abbrev Matcher (α : Type*) := List α → Option ℕ

namespace Matcher

variable {α : Type*} (m : Matcher α) (f : List α → List α)

def occurs : List α → Bool
  | [] => false
  | c :: cs => (m (c :: cs)).isSome || occurs cs

/-- The replacement after the first `skip` elements, which belong to a match. -/
def replaceFrom : ℕ → List α → List α
  | _, [] => []
  | skip + 1, _ :: cs => replaceFrom skip cs
  | 0, c :: cs => match m (c :: cs) with
    | some n => f (c :: cs.take n) ++ replaceFrom n cs
    | none => c :: replaceFrom 0 cs

/-- Each match that is come to becomes what `f` makes of it. -/
def replace (cs : List α) : List α := replaceFrom m f 0 cs

/-- The parts between the matches after the first `skip` elements. -/
def splitFrom : ℕ → List α → List (List α)
  | _, [] => [[]]
  | skip + 1, _ :: cs => splitFrom skip cs
  | 0, c :: cs => match m (c :: cs) with
    | some n => [] :: splitFrom n cs
    | none => (splitFrom 0 cs).modifyHead (c :: ·)

def split (cs : List α) : List (List α) := splitFrom m 0 cs

/-- The matches of `old`, which is not empty. -/
def literal [DecidableEq α] (old : List α) : Matcher α := fun cs =>
  if old.isPrefixOf cs then some (old.length - 1) else none

variable {m f}

theorem replace_eq_self : ∀ {cs : List α}, m.occurs cs = false → m.replace f cs = cs
  | [], _ => rfl
  | c :: cs, h => by
    simp only [occurs, Bool.or_eq_false_iff, isSome_eq_false_iff,
      isNone_iff_eq_none] at h
    have ih : m.replace f cs = cs := replace_eq_self h.2
    simp only [replace] at ih
    simp only [replace, replaceFrom, h.1, ih]

theorem exists_splitFrom : ∀ (skip : ℕ) (cs : List α), ∃ part parts,
    m.splitFrom skip cs = part :: parts
  | _, [] => ⟨_, _, rfl⟩
  | skip + 1, _ :: cs => exists_splitFrom skip cs
  | 0, c :: cs => by
    obtain ⟨part, parts, h⟩ := exists_splitFrom 0 cs
    rw [splitFrom, h]
    split <;> exact ⟨_, _, rfl⟩

/-- Replacing every match by one text is putting it between the parts. -/
theorem intercalate_splitFrom (new : List α) : ∀ (skip : ℕ) (cs : List α),
    new.intercalate (m.splitFrom skip cs) = m.replaceFrom (fun _ => new) skip cs
  | _, [] => by simp [splitFrom, replaceFrom]
  | skip + 1, _ :: cs => intercalate_splitFrom new skip cs
  | 0, c :: cs => by
    rw [splitFrom, replaceFrom]
    split
    · rename_i n _
      obtain ⟨part, parts, h⟩ := exists_splitFrom (m := m) n cs
      simp [← intercalate_splitFrom new n cs, h]
    · obtain ⟨part, parts, h⟩ := exists_splitFrom (m := m) 0 cs
      rw [← intercalate_splitFrom new 0 cs, h]
      cases parts <;> simp

theorem split_eq_singleton_iff :
    ∀ {cs : List α}, (∃ part, m.split cs = [part]) ↔ m.occurs cs = false
  | [] => by simp [split, splitFrom, occurs]
  | c :: cs => by
    have ih : (∃ part, m.split cs = [part]) ↔ m.occurs cs = false := split_eq_singleton_iff
    obtain ⟨part, parts, h⟩ := exists_splitFrom (m := m) 0 cs
    simp only [split, splitFrom, occurs] at ih ⊢
    cases hc : m (c :: cs) with
    | none => simp_all
    | some n =>
      obtain ⟨part, parts, h⟩ := exists_splitFrom (m := m) n cs
      simp [h]

theorem occurs_literal [DecidableEq α] {old : List α} (hold : old ≠ []) :
    ∀ {cs : List α}, (literal old).occurs cs = true ↔ old <:+: cs
  | [] => by simp [occurs, hold]
  | c :: cs => by
    rw [occurs, Bool.or_eq_true, occurs_literal hold, infix_cons_iff]
    simp [literal]

theorem forall_mem_replaceFrom {P : α → Prop}
    (hf : ∀ c cs n, m (c :: cs) = some n → ∀ x ∈ f (c :: cs.take n), P x) :
    ∀ (skip : ℕ) (cs : List α), (∀ c ∈ cs, ∀ rest, m (c :: rest) = none → P c) →
      ∀ x ∈ replaceFrom m f skip cs, P x
  | skip, [], _, x, hx => by simp [replaceFrom] at hx
  | skip + 1, c :: cs, hkeep, x, hx =>
    forall_mem_replaceFrom hf skip cs (fun d hd => hkeep d (mem_cons_of_mem c hd)) x hx
  | 0, c :: cs, hkeep, x, hx => by
    have ih := fun skip => forall_mem_replaceFrom hf skip cs
      fun d hd => hkeep d (mem_cons_of_mem c hd)
    rw [replaceFrom] at hx
    split at hx
    · rename_i n hn
      rcases mem_append.1 hx with hx | hx
      · exact hf c cs n hn x hx
      · exact ih n x hx
    · rename_i hn
      rcases mem_cons.1 hx with rfl | hx
      · exact hkeep x mem_cons_self cs hn
      · exact ih 0 x hx

/-- What is left after the replacement is a replacement or did not match. -/
theorem forall_mem_replace {P : α → Prop} {cs : List α}
    (hf : ∀ c cs n, m (c :: cs) = some n → ∀ x ∈ f (c :: cs.take n), P x)
    (hkeep : ∀ c ∈ cs, ∀ rest, m (c :: rest) = none → P c) : ∀ x ∈ m.replace f cs, P x :=
  forall_mem_replaceFrom hf 0 cs hkeep

/-! ## What is left -/

/-- Where the replacement comes to a match, or to the end: `v` is ahead in the list, and `z` in what
becomes of it. -/
inductive Ahead (m : Matcher α) (f : List α → List α) : List α → List α → Prop
  | nil : Ahead m f [] []
  | found {c : α} {cs : List α} {n : ℕ} (h : m (c :: cs) = some n) :
    Ahead m f (c :: cs) (f (c :: cs.take n) ++ replaceFrom m f n cs)

/-- Up to the first match the list is kept. -/
theorem exists_kept (m : Matcher α) (f : List α → List α) : ∀ cs : List α,
    ∃ u v z, cs = u ++ v ∧ m.replace f cs = u ++ z ∧ Ahead m f v z
  | [] => ⟨[], [], [], rfl, rfl, .nil⟩
  | c :: cs => by
    cases h : m (c :: cs) with
    | some => exact ⟨[], c :: cs, _, rfl, by rw [replace, replaceFrom, h]; rfl, .found h⟩
    | none =>
      obtain ⟨u, v, z, hcs, hreplace, hahead⟩ := exists_kept m f cs
      refine ⟨c :: u, v, z, by rw [hcs]; rfl, ?_, hahead⟩
      rw [replace, replaceFrom, h, cons_append, ← hreplace]
      rfl

theorem occurs_append_eq_false {t : List α} : ∀ {l : List α},
    (∀ x ∈ l, ∀ rest, m (x :: rest) = none) → m.occurs t = false → m.occurs (l ++ t) = false
  | [], _, ht => ht
  | x :: l, hl, ht => by
    rw [cons_append, occurs, hl x mem_cons_self]
    exact occurs_append_eq_false (fun y hy => hl y (mem_cons_of_mem x hy)) ht

/-- Nothing of `m'` is left if a replacement brings none and what is kept had none: that `m'` finds
nothing at an element depends on what follows up to the next match of `m` only. -/
theorem occurs_replaceFrom_eq_false {m' : Matcher α}
    (hkept : ∀ c u v z, Ahead m f v z → m' (c :: (u ++ v)) = none → m' (c :: (u ++ z)) = none)
    (hf : ∀ c cs n t, m (c :: cs) = some n → m'.occurs t = false →
      m'.occurs (f (c :: cs.take n) ++ t) = false) :
    ∀ (skip : ℕ) (cs : List α),
      (∀ pre c rest, cs = pre ++ c :: rest → m (c :: rest) = none → m' (c :: rest) = none) →
      m'.occurs (replaceFrom m f skip cs) = false
  | skip, [], _ => by rw [replaceFrom, occurs]
  | skip + 1, d :: cs, hcs =>
    occurs_replaceFrom_eq_false hkept hf skip cs fun pre c rest h =>
      hcs (d :: pre) c rest (by rw [h, cons_append])
  | 0, d :: cs, hcs => by
    have ih := fun skip => occurs_replaceFrom_eq_false hkept hf skip cs fun pre c rest h =>
      hcs (d :: pre) c rest (by rw [h, cons_append])
    rw [replaceFrom]
    split
    · rename_i n hn
      exact hf d cs n _ hn (ih n)
    · rename_i hn
      obtain ⟨u, v, z, huv, huz, hahead⟩ := exists_kept m f cs
      have hnone := hcs [] d cs rfl hn
      rw [huv] at hnone
      rw [occurs, ih 0, Bool.or_false, isSome_eq_false_iff, isNone_iff_eq_none]
      change m' (d :: m.replace f cs) = none
      rw [huz]
      exact hkept d u v z hahead hnone

theorem eq_none_of_occurs_eq_false {c : α} : ∀ {pre rest : List α},
    m.occurs (pre ++ c :: rest) = false → m (c :: rest) = none
  | [], rest, h => by
    rw [nil_append, occurs, Bool.or_eq_false_iff] at h
    exact isNone_iff_eq_none.1 (isSome_eq_false_iff.1 h.1)
  | d :: pre, rest, h => by
    rw [cons_append, occurs, Bool.or_eq_false_iff] at h
    exact eq_none_of_occurs_eq_false h.2

section Measure

variable {μ : List α → ℤ} (hadd : ∀ xs ys, μ (xs ++ ys) = μ xs + μ ys)

include hadd

theorem measure_le_replaceFrom
    (hf : ∀ c cs n, m (c :: cs) = some n → μ (c :: cs.take n) ≤ μ (f (c :: cs.take n))) :
    ∀ (skip : ℕ) (cs : List α), μ (cs.drop skip) ≤ μ (replaceFrom m f skip cs)
  | skip, [] => by simp [replaceFrom]
  | skip + 1, _ :: cs => by
    simp only [drop_succ_cons, replaceFrom]
    exact measure_le_replaceFrom hf skip cs
  | 0, c :: cs => by
    simp only [drop_zero, replaceFrom]
    split
    · rename_i n hn
      have ih := measure_le_replaceFrom hf n cs
      have hmatch := hf c cs n hn
      have hsplit : μ (c :: cs) = μ (c :: cs.take n) + μ (cs.drop n) := by
        rw [← hadd, cons_append, take_append_drop]
      rw [hadd, hsplit]
      linarith
    · have ih := measure_le_replaceFrom hf 0 cs
      simp only [drop_zero] at ih
      have hhead : ∀ xs, μ (c :: xs) = μ [c] + μ xs := fun xs => hadd [c] xs
      linarith [hhead cs, hhead (replaceFrom m f 0 cs)]

theorem measure_le_replace
    (hf : ∀ c cs n, m (c :: cs) = some n → μ (c :: cs.take n) ≤ μ (f (c :: cs.take n)))
    (cs : List α) : μ cs ≤ μ (m.replace f cs) :=
  measure_le_replaceFrom hadd hf 0 cs

theorem measure_lt_replace
    (hf : ∀ c cs n, m (c :: cs) = some n → μ (c :: cs.take n) < μ (f (c :: cs.take n))) :
    ∀ {cs : List α}, m.occurs cs = true → μ cs < μ (m.replace f cs)
  | [], h => absurd h nofun
  | c :: cs, h => by
    simp only [replace, replaceFrom]
    split
    · rename_i n hn
      have hrest := measure_le_replaceFrom hadd (fun c cs n h => (hf c cs n h).le) n cs
      have hmatch := hf c cs n hn
      have hsplit : μ (c :: cs) = μ (c :: cs.take n) + μ (cs.drop n) := by
        rw [← hadd, cons_append, take_append_drop]
      rw [hadd, hsplit]
      linarith
    · rename_i hnone
      have hlater : m.occurs cs = true := by simpa [occurs, hnone] using h
      have ih := measure_lt_replace hf hlater
      have hhead : ∀ xs, μ (c :: xs) = μ [c] + μ xs := fun xs => hadd [c] xs
      simp only [replace] at ih
      linarith [hhead cs, hhead (replaceFrom m f 0 cs)]

/-- If every replacement raises a measure, only a list in which nothing matches is left alone. -/
theorem replace_eq_self_iff
    (hf : ∀ c cs n, m (c :: cs) = some n → μ (c :: cs.take n) < μ (f (c :: cs.take n)))
    {cs : List α} : m.replace f cs = cs ↔ m.occurs cs = false := by
  refine ⟨fun h => ?_, replace_eq_self⟩
  rw [Bool.eq_false_iff]
  intro hocc
  have hlt := measure_lt_replace hadd hf hocc
  rw [h] at hlt
  exact lt_irrefl _ hlt

end Measure

end Matcher

end Crewquarters
