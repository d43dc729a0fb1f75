import Crewquarters.VoiceAudio

/-!
# Chunks that are fed

The history is what the filter still needs of the samples before, and the phase says how many
samples are to be passed over, so a chunk continues where the one before it ended.
-/

namespace Crewquarters

open List

variable {α : Type*} (kernel : Kernel)

theorem everyThird_append (l' : List α) : ∀ (phase : ℕ) (l : List α), phase < 3 →
    everyThird phase (l ++ l')
      = everyThird phase l ++ everyThird (((phase : ℤ) - l.length) % 3).toNat l'
  | phase, [], h => by
    have hphase : (((phase : ℤ) - ([] : List α).length) % 3).toNat = phase := by simp; omega
    rw [hphase]
    simp [everyThird]
  | 0, a :: l, _ => by
    have hphase : (((0 : ℕ) : ℤ) - (a :: l).length) % 3 = (((2 : ℕ) : ℤ) - l.length) % 3 := by
      push_cast [length_cons]
      omega
    simp only [cons_append, everyThird, everyThird_append l' 2 l (by omega), hphase]
  | phase + 1, a :: l, h => by
    have hphase : (((phase + 1 : ℕ) : ℤ) - (a :: l).length) = (phase : ℤ) - l.length := by
      push_cast [length_cons]
      ring
    simp only [cons_append, everyThird, everyThird_append l' phase l (by omega), hphase]

theorem getElem?_everyThird : ∀ (phase : ℕ) (l : List α) (i : ℕ),
    (everyThird phase l)[i]? = l[phase + 3 * i]?
  | _, [], i => by simp [everyThird]
  | 0, a :: l, 0 => rfl
  | 0, a :: l, i + 1 => by
    rw [everyThird, getElem?_cons_succ, getElem?_everyThird 2 l i,
      show 0 + 3 * (i + 1) = 2 + 3 * i + 1 by ring, getElem?_cons_succ]
  | phase + 1, a :: l, i => by
    rw [everyThird, getElem?_everyThird phase l i,
      show phase + 1 + 3 * i = phase + 3 * i + 1 by ring, getElem?_cons_succ]

/-- What comes after `l` is filtered with the last samples of `l`. -/
theorem convolve_append (l l' : List ℚ) (hl : 30 ≤ l.length) :
    convolve kernel (l ++ l')
      = convolve kernel l ++ convolve kernel (l.drop (l.length - 30) ++ l') := by
  have hlength : (l ++ l').length - 30 = (l.length - 30) + l'.length := by
    rw [length_append]
    omega
  have hlength' : (l.drop (l.length - 30) ++ l').length - 30 = l'.length := by
    rw [length_append, length_drop]
    omega
  unfold convolve
  rw [hlength, hlength', range_add, map_append, map_map]
  congr 1
  · refine map_congr_left fun i hi => Finset.sum_congr rfl fun k _ => ?_
    rw [mem_range] at hi
    rw [getD_eq_getElem?_getD, getD_eq_getElem?_getD, getElem?_append_left (by omega)]
  · refine map_congr_left fun i _ => ?_
    rw [Function.comp_apply]
    refine Finset.sum_congr rfl fun k _ => ?_
    have hdrop : l.drop (l.length - 30) ++ l' = (l ++ l').drop (l.length - 30) := by
      rw [drop_append_of_le_length (by omega)]
    rw [hdrop, getD_eq_getElem?_getD, getD_eq_getElem?_getD, getElem?_drop]
    have hk := k.isLt
    congr 3
    omega

theorem asFloats_append (x y : List ℤ) : asFloats (x ++ y) = asFloats x ++ asFloats y :=
  map_append

@[simp] theorem length_asFloats (x : List ℤ) : (asFloats x).length = x.length := length_map _

namespace Downsampler

/-- Chunks from `d` on come to what the rest of one long sequence comes to. -/
theorem feedAll_eq (chunks : List (List ℤ)) (d : Downsampler) (hhistory : d.history.length = 30)
    (hphase : d.phase < 3) : feedAll kernel d chunks = (everyThird d.phase (convolve kernel
      (d.history ++ asFloats chunks.flatten))).map toInt16 := by
  induction chunks generalizing d with
  | nil => simp [feedAll, convolve, asFloats, hhistory, everyThird]
  | cons x chunks ih =>
    by_cases hx : x = []
    · simpa [feedAll, feed, hx] using ih d hhistory hphase
    · have hjoined : 30 ≤ (d.history ++ asFloats x).length := by
        rw [length_append, hhistory]
        omega
      rw [feedAll, feed, if_neg hx, ih _ (by simp; omega) (by dsimp only; omega),
        flatten_cons, asFloats_append, ← append_assoc, convolve_append kernel _ _ hjoined,
        everyThird_append _ _ _ hphase, map_append]

/-- However the samples are split, the outputs together are every third filtered sample, from the
first on. -/
theorem feedAll_init (chunks : List (List ℤ)) :
    feedAll kernel init chunks = (init.feed kernel chunks.flatten).1
      ∧ ∀ i, (feedAll kernel init chunks)[i]? = if 3 * i < chunks.flatten.length then
        some (toInt16 (filteredSample kernel
          (List.replicate 30 0 ++ asFloats chunks.flatten) (3 * i)))
      else none := by
  have hwhole : ∀ chunks, feedAll kernel init chunks = (everyThird 0 (convolve kernel
      (List.replicate 30 0 ++ asFloats chunks.flatten))).map toInt16 :=
    fun chunks => feedAll_eq kernel chunks init (by simp [init]) (by simp [init])
  refine ⟨?_, fun i => ?_⟩
  · have hone := hwhole [chunks.flatten]
    rw [hwhole chunks]
    rw [flatten_singleton] at hone
    rw [← hone]
    simp [feedAll]
  · rw [hwhole, getElem?_map, getElem?_everyThird, convolve, getElem?_map, zero_add]
    split_ifs with hi
    · rw [getElem?_range (by simpa using hi)]
      rfl
    · rw [getElem?_eq_none (by simpa using hi)]
      rfl

end Downsampler

end Crewquarters
