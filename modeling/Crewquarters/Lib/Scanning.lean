import Crewquarters.Lib.Substitution

/-!
# Where the matches are

`spans` are the places of the matches of a matcher that are come to from left to right, each as its
first position and the one after its last. They are in order and do not overlap.
-/

namespace Crewquarters

open List

namespace Matcher

variable {α : Type*} (m : Matcher α)

/-- The spans after the first `skip` elements, which belong to a match, from position `pos` on. -/
def spansFrom : ℕ → ℕ → List α → List (ℕ × ℕ)
  | _, _, [] => []
  | skip + 1, pos, _ :: cs => spansFrom skip (pos + 1) cs
  | 0, pos, c :: cs => match m (c :: cs) with
    | some n => (pos, pos + n + 1) :: spansFrom n (pos + 1) cs
    | none => spansFrom 0 (pos + 1) cs

def spans (cs : List α) : List (ℕ × ℕ) := spansFrom m 0 0 cs

def Fits : Prop := ∀ cs n, m cs = some n → n < cs.length

/-- No match that starts in `u` depends on `v`. -/
def Parts (u v : List α) : Prop := ∀ s, s <:+ u → s ≠ [] → m (s ++ v) = m s

variable {m}

theorem Parts.tail {c : α} {u v : List α} (h : m.Parts (c :: u) v) : m.Parts u v :=
  fun s hs => h s (hs.trans (suffix_cons c u))

theorem spansFrom_append (hm : m.Fits) {v : List α} : ∀ {u : List α} {skip pos : ℕ},
    m.Parts u v → skip ≤ u.length →
    spansFrom m skip pos (u ++ v) = spansFrom m skip pos u ++ spansFrom m 0 (pos + u.length) v
  | [], 0, pos, _, _ => by simp [spansFrom]
  | c :: u, skip + 1, pos, hparts, hskip => by
    rw [cons_append, spansFrom, spansFrom, spansFrom_append hm hparts.tail
      (Nat.le_of_succ_le_succ hskip), length_cons, Nat.add_right_comm, Nat.add_assoc]
  | c :: u, 0, pos, hparts, _ => by
    have hlength : pos + 1 + u.length = pos + (c :: u).length := by
      rw [length_cons]
      omega
    have hsame := hparts (c :: u) (suffix_refl _) (cons_ne_nil c u)
    rw [cons_append] at hsame ⊢
    rw [spansFrom, spansFrom, hsame]
    split
    · rename_i n hn
      have hle : n ≤ u.length := Nat.le_of_lt_succ (hm _ _ hn)
      rw [spansFrom_append hm hparts.tail hle, hlength, cons_append]
    · rw [spansFrom_append hm hparts.tail (Nat.zero_le _), hlength]

theorem length_spansFrom (pos pos' : ℕ) : ∀ (skip : ℕ) (cs : List α),
    (spansFrom m skip pos cs).length = (spansFrom m skip pos' cs).length
  | _, [] => rfl
  | skip + 1, _ :: cs => length_spansFrom (pos + 1) (pos' + 1) skip cs
  | 0, c :: cs => by
    rw [spansFrom, spansFrom]
    split
    · rename_i n hn
      rw [length_cons, length_cons, length_spansFrom (pos + 1) (pos' + 1) n cs]
    · exact length_spansFrom (pos + 1) (pos' + 1) 0 cs

/-- A span lies in the list, after what is skipped. -/
theorem bounds_of_mem_spansFrom (hm : m.Fits) {x : ℕ × ℕ} : ∀ {cs : List α} {skip pos : ℕ},
    x ∈ spansFrom m skip pos cs → pos + skip ≤ x.1 ∧ x.1 < x.2 ∧ x.2 ≤ pos + cs.length
  | [], skip, pos, hx => by simp [spansFrom] at hx
  | c :: cs, skip + 1, pos, hx => by
    have h : pos + 1 + skip ≤ x.1 ∧ x.1 < x.2 ∧ x.2 ≤ pos + 1 + cs.length :=
      bounds_of_mem_spansFrom hm hx
    rw [length_cons]
    omega
  | c :: cs, 0, pos, hx => by
    rw [length_cons]
    rw [spansFrom] at hx
    split at hx
    · rename_i n hn
      have hlt := hm _ _ hn
      rw [length_cons] at hlt
      rcases mem_cons.1 hx with rfl | hx
      · simp only
        omega
      · have h := bounds_of_mem_spansFrom hm hx
        omega
    · have h := bounds_of_mem_spansFrom hm hx
      omega

theorem spansFrom_pairwise (hm : m.Fits) : ∀ (skip pos : ℕ) (cs : List α),
    (spansFrom m skip pos cs).Pairwise fun x y => x.2 ≤ y.1
  | _, _, [] => by simp [spansFrom]
  | skip + 1, pos, _ :: cs => spansFrom_pairwise hm skip (pos + 1) cs
  | 0, pos, c :: cs => by
    rw [spansFrom]
    split
    · rename_i n hn
      refine pairwise_cons.2 ⟨fun y hy => ?_, spansFrom_pairwise hm n (pos + 1) cs⟩
      have h := bounds_of_mem_spansFrom hm hy
      simp only
      omega
    · exact spansFrom_pairwise hm 0 (pos + 1) cs

theorem spans_le (hm : m.Fits) {cs : List α} {i j : ℕ} {x y : ℕ × ℕ}
    (hi : (m.spans cs)[i]? = some x) (hj : (m.spans cs)[j]? = some y) (hij : i ≤ j) :
    x.1 ≤ y.1 := by
  rcases hij.eq_or_lt with rfl | hlt
  · rw [Option.some.inj (hi.symm.trans hj)]
  · obtain ⟨hilt, rfl⟩ := List.getElem?_eq_some_iff.1 hi
    obtain ⟨hjlt, rfl⟩ := List.getElem?_eq_some_iff.1 hj
    have hle := pairwise_iff_getElem.1 (spansFrom_pairwise hm 0 0 cs) i j hilt hjlt hlt
    have hbounds := bounds_of_mem_spansFrom hm (getElem_mem hilt)
    exact hbounds.2.1.le.trans hle

/-- If a span starts where the list does, it is the first, and if one ends where the list does, it
is the last. -/
theorem spansFrom_ends (hm : m.Fits) {t : List α} {pos i j : ℕ} {x y : ℕ × ℕ}
    (hi : (spansFrom m 0 pos t)[i]? = some x) (hj : (spansFrom m 0 pos t)[j]? = some y)
    (hx : x.1 = pos) (hy : y.2 = pos + t.length) :
    i = 0 ∧ j + 1 = (spansFrom m 0 pos t).length := by
  have hpairwise := pairwise_iff_getElem.1 (spansFrom_pairwise hm 0 pos t)
  obtain ⟨hilt, hxi⟩ := List.getElem?_eq_some_iff.1 hi
  obtain ⟨hjlt, hyj⟩ := List.getElem?_eq_some_iff.1 hj
  constructor
  · by_contra hne
    have hpos : 0 < i := Nat.pos_of_ne_zero hne
    have hbounds := bounds_of_mem_spansFrom hm (getElem_mem (hpos.trans hilt))
    have hle := hpairwise 0 i (hpos.trans hilt) hilt hpos
    rw [hxi] at hle
    omega
  · by_contra hne
    have hlast : (spansFrom m 0 pos t).length - 1 < (spansFrom m 0 pos t).length := by omega
    have hbounds := bounds_of_mem_spansFrom hm (getElem_mem hlast)
    have hle := hpairwise j _ hjlt hlast (by omega)
    rw [hyj] at hle
    omega

/-- In a list that is cut into three where no match reads on, the matches of the middle part are
those from the one that starts with it to the one that ends with it. -/
theorem spans_middle (hm : m.Fits) {u t v : List α} (hut : m.Parts u (t ++ v)) (htv : m.Parts t v)
    {i j : ℕ} {x y : ℕ × ℕ} (hi : (m.spans (u ++ (t ++ v)))[i]? = some x)
    (hj : (m.spans (u ++ (t ++ v)))[j]? = some y) (ht : t ≠ []) (hx : x.1 = u.length)
    (hy : y.2 = u.length + t.length) : j + 1 - i = (m.spans t).length := by
  have htpos := length_pos_of_ne_nil ht
  have hspans : m.spans (u ++ (t ++ v)) = spansFrom m 0 0 u
      ++ (spansFrom m 0 u.length t ++ spansFrom m 0 (u.length + t.length) v) := by
    rw [spans, spansFrom_append hm hut (Nat.zero_le _), spansFrom_append hm htv (Nat.zero_le _),
      Nat.zero_add]
  -- both matches are in the middle part
  have hmiddle : ∀ {k : ℕ} {z : ℕ × ℕ}, (m.spans (u ++ (t ++ v)))[k]? = some z →
      u.length < z.2 → z.1 < u.length + t.length → (spansFrom m 0 0 u).length ≤ k
        ∧ (spansFrom m 0 u.length t)[k - (spansFrom m 0 0 u).length]? = some z := by
    intro k z hk hleft hright
    rw [hspans, getElem?_append] at hk
    split_ifs at hk with hlt
    · have hbounds := bounds_of_mem_spansFrom hm (mem_of_getElem? hk)
      omega
    · rw [getElem?_append] at hk
      split_ifs at hk with hlt'
      · exact ⟨not_lt.1 hlt, hk⟩
      · have hbounds := bounds_of_mem_spansFrom hm (mem_of_getElem? hk)
        omega
  have hxlt := bounds_of_mem_spansFrom hm (mem_of_getElem? hi)
  have hylt := bounds_of_mem_spansFrom hm (mem_of_getElem? hj)
  obtain ⟨hik, hi⟩ := hmiddle hi (by omega) (by omega)
  obtain ⟨hjk, hj⟩ := hmiddle hj (by omega) (by omega)
  obtain ⟨hfirst, hlast⟩ := spansFrom_ends hm hi hj hx hy
  rw [spans, length_spansFrom 0 u.length]
  omega

end Matcher

end Crewquarters
