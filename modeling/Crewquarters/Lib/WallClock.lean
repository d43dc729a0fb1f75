import Mathlib.Tactic

/-!
# Local time with jumps

A clock that shows the time plus an offset, where the offset changes at given instants. A change to
a larger offset skips a stretch of local time, a change to a smaller one repeats a stretch.
-/

namespace Crewquarters

open List

/-- From `instant` on, the clock is `offset` ahead. -/
structure Jump (K : Type*) where
  instant : K
  offset : K

namespace WallClock

variable {K : Type*} [Field K] [LinearOrder K]

/-- What the clock shows at an instant; `before` is the offset before the first jump. -/
def toLocal (before : K) : List (Jump K) → K → K
  | [], u => u + before
  | j :: js, u => if u < j.instant then u + before else toLocal j.offset js u

/-- The instant of a local time, by the offset before a jump within what it skips or repeats. -/
def toUtc (before : K) : List (Jump K) → K → K
  | [], w => w - before
  | j :: js, w => if w < j.instant + max before j.offset then w - before else toUtc j.offset js w

/-- The stretches, each from its start to before its end, that the clock skips. -/
def skipped (before : K) : List (Jump K) → List (K × K)
  | [] => []
  | j :: js =>
    if before < j.offset then (j.instant + before, j.instant + j.offset) :: skipped j.offset js
    else skipped j.offset js

def repeated (before : K) : List (Jump K) → List (K × K)
  | [] => []
  | j :: js =>
    if j.offset < before then (j.instant + j.offset, j.instant + before) :: repeated j.offset js
    else repeated j.offset js

/-- The jumps are in order, and none is in the stretch that another skips or repeats. -/
def Apart (before : K) : List (Jump K) → Prop
  | [] => True
  | j :: js => (∀ j' ∈ js.head?, j.instant < j'.instant
      ∧ j.instant + max before j.offset ≤ j'.instant + min j.offset j'.offset)
    ∧ Apart j.offset js

def Reads (before : K) (js : List (Jump K)) (w : K) : Prop := ∃ u, toLocal before js u = w

variable {before u v w : K} {j : Jump K} {js : List (Jump K)}

/-! ## One jump -/

theorem toLocal_of_lt (h : u < j.instant) : toLocal before (j :: js) u = u + before := if_pos h

theorem toLocal_of_le (h : j.instant ≤ u) :
    toLocal before (j :: js) u = toLocal j.offset js u := if_neg (not_lt.2 h)

theorem toUtc_of_lt (h : w < j.instant + max before j.offset) :
    toUtc before (j :: js) w = w - before := if_pos h

theorem toUtc_of_le (h : j.instant + max before j.offset ≤ w) :
    toUtc before (j :: js) w = toUtc j.offset js w := if_neg (not_lt.2 h)

/-- Up to a jump, the later ones have no effect. -/
theorem toLocal_tail (h : Apart before (j :: js)) (hu : u ≤ j.instant) :
    toLocal j.offset js u = u + j.offset := by
  cases js with
  | nil => rfl
  | cons j' => exact toLocal_of_lt (hu.trans_lt (h.1 j' rfl).1)

variable [IsStrictOrderedRing K]

/-- From a jump on, the clock is past what it shows there. -/
theorem le_toLocal : ∀ {js : List (Jump K)} {before : K} {j : Jump K}, Apart before (j :: js) →
    j.instant ≤ u → j.instant + j.offset ≤ toLocal j.offset js u
  | [], _, _, _, hu => by
    rw [toLocal]
    linarith
  | j' :: js, before, j, h, hu => by
    obtain ⟨-, happart⟩ := h.1 j' rfl
    rcases lt_or_ge u j'.instant with hlt | hge
    · rw [toLocal_of_lt hlt]
      linarith
    · rw [toLocal_of_le hge]
      have := le_toLocal h.2 hge
      have := le_max_right before j.offset
      have := min_le_right j.offset j'.offset
      linarith

/-- Times from a jump on have their instants from it on. -/
theorem le_toUtc : ∀ {js : List (Jump K)} {before : K} {j : Jump K}, Apart before (j :: js) →
    j.instant + j.offset ≤ w → j.instant ≤ toUtc j.offset js w
  | [], _, _, _, hw => by
    rw [toUtc]
    linarith
  | j' :: js, before, j, h, hw => by
    obtain ⟨hinstant, -⟩ := h.1 j' rfl
    rcases lt_or_ge w (j'.instant + max j.offset j'.offset) with hlt | hge
    · rw [toUtc_of_lt hlt]
      linarith
    · rw [toUtc_of_le hge]
      have hle : j'.instant + j'.offset ≤ w :=
        (add_le_add_right (le_max_right _ _) _).trans hge
      exact hinstant.le.trans (le_toUtc h.2 hle)

theorem reads_cons (h : Apart before (j :: js)) : Reads before (j :: js) w
    ↔ w < j.instant + before ∨ j.instant + j.offset ≤ w ∧ Reads j.offset js w := by
  constructor
  · rintro ⟨u, rfl⟩
    rcases lt_or_ge u j.instant with hlt | hge
    · rw [toLocal_of_lt hlt]
      exact .inl (by linarith)
    · rw [toLocal_of_le hge]
      exact .inr ⟨le_toLocal h hge, u, rfl⟩
  · rintro (hw | ⟨hw, u, rfl⟩)
    · exact ⟨w - before, by rw [toLocal_of_lt (by linarith), sub_add_cancel]⟩
    · refine ⟨u, toLocal_of_le (le_of_not_gt fun hlt => ?_)⟩
      rw [toLocal_tail h hlt.le] at hw
      linarith

/-! ## First instants -/

section

variable (h : Apart before js)
include h

theorem toLocal_toUtc (hw : Reads before js w) : toLocal before js (toUtc before js w) = w := by
  induction js generalizing before with
  | nil => exact sub_add_cancel w before
  | cons j js ih =>
    rcases lt_or_ge w (j.instant + before) with hlt | hge
    · have hmax := le_max_left before j.offset
      rw [toUtc_of_lt (by linarith), toLocal_of_lt (by linarith), sub_add_cancel]
    · obtain ⟨hle, htail⟩ := ((reads_cons h).1 hw).resolve_left (not_lt.2 hge)
      have hmax : j.instant + max before j.offset ≤ w := by
        rcases max_choice before j.offset with heq | heq <;> rwa [heq]
      rw [toUtc_of_le hmax, toLocal_of_le (le_toUtc h hle), ih h.2 htail]

/-- A time the clock has reached was first shown before. -/
theorem toUtc_le (hw : Reads before js w) (hwu : w ≤ toLocal before js u) :
    toUtc before js w ≤ u := by
  induction js generalizing before with
  | nil =>
    rw [toLocal] at hwu
    rw [toUtc]
    linarith
  | cons j js ih =>
    rcases lt_or_ge w (j.instant + before) with hlt | hge
    · have hmax := le_max_left before j.offset
      rw [toUtc_of_lt (by linarith)]
      rcases lt_or_ge u j.instant with hu | hu
      · rw [toLocal_of_lt hu] at hwu
        linarith
      · linarith
    · obtain ⟨hle, htail⟩ := ((reads_cons h).1 hw).resolve_left (not_lt.2 hge)
      have hmax : j.instant + max before j.offset ≤ w := by
        rcases max_choice before j.offset with heq | heq <;> rwa [heq]
      rw [toUtc_of_le hmax]
      rcases lt_or_ge u j.instant with hu | hu
      · rw [toLocal_of_lt hu] at hwu
        linarith
      · rw [toLocal_of_le hu] at hwu
        exact ih h.2 htail hwu

theorem toUtc_isLeast (hw : Reads before js w) :
    IsLeast {u | toLocal before js u = w} (toUtc before js w) :=
  ⟨toLocal_toUtc h hw, fun _ hu => toUtc_le h hw (le_of_eq hu.symm)⟩

theorem toUtc_mono (hv : Reads before js v) (hw : Reads before js w) (hvw : v ≤ w) :
    toUtc before js v ≤ toUtc before js w :=
  toUtc_le h hv (hvw.trans_eq (toLocal_toUtc h hw).symm)

/-! ## What is skipped and what is repeated -/

/-- A time that is never shown is in a stretch that is skipped; the stretch's end is shown. -/
theorem skipped_of_not_reads (hw : ¬ Reads before js w) :
    ∃ r ∈ skipped before js, r.1 ≤ w ∧ w < r.2 ∧ Reads before js r.2
      ∧ ∀ v, w ≤ v → v < r.2 → ¬ Reads before js v := by
  induction js generalizing before with
  | nil => exact absurd ⟨w - before, sub_add_cancel w before⟩ hw
  | cons j js ih =>
    have hge : j.instant + before ≤ w := not_lt.1 fun hlt => hw ((reads_cons h).2 (.inl hlt))
    rcases lt_or_ge w (j.instant + j.offset) with hlt | hle
    · have hskip : before < j.offset := by linarith
      refine ⟨(j.instant + before, j.instant + j.offset), ?_, hge, hlt, ?_,
        fun v hwv hv hread => ?_⟩
      · rw [skipped, if_pos hskip]
        exact mem_cons_self
      · exact (reads_cons h).2 (.inr ⟨le_rfl, j.instant, toLocal_tail h le_rfl⟩)
      · rcases (reads_cons h).1 hread with hlow | ⟨hhigh, -⟩
        · exact absurd (hge.trans hwv) (not_le.2 hlow)
        · exact absurd hhigh (not_le.2 hv)
    · have htail : ¬ Reads j.offset js w := fun hread => hw ((reads_cons h).2 (.inr ⟨hle, hread⟩))
      obtain ⟨r, hr, hrw, hwr, hread, hnot⟩ := ih h.2 htail
      refine ⟨r, ?_, hrw, hwr, (reads_cons h).2 (.inr ⟨hle.trans hwr.le, hread⟩),
        fun v hwv hv hreadv => ?_⟩
      · rw [skipped]
        split_ifs
        · exact mem_cons_of_mem _ hr
        · exact hr
      · rcases (reads_cons h).1 hreadv with hlow | ⟨-, hreadv⟩
        · exact absurd (hge.trans hwv) (not_le.2 hlow)
        · exact hnot v hwv hv hreadv

end

/-- What later jumps repeat begins past the stretch of this one. -/
theorem le_repeated : ∀ {js : List (Jump K)} {before : K} {j : Jump K}, Apart before (j :: js) →
    ∀ r ∈ repeated j.offset js, j.instant + max before j.offset ≤ r.1 ∧ r.1 < r.2
  | [], _, _, _, _, hr => absurd hr not_mem_nil
  | j' :: js, before, j, h, r, hr => by
    obtain ⟨-, happart⟩ := h.1 j' rfl
    have htail : ∀ r ∈ repeated j'.offset js,
        j.instant + max before j.offset ≤ r.1 ∧ r.1 < r.2 := by
      intro r hr
      obtain ⟨hle, hlt⟩ := le_repeated h.2 r hr
      have := min_le_max (a := j.offset) (b := j'.offset)
      exact ⟨by linarith, hlt⟩
    rw [repeated] at hr
    split_ifs at hr with hback
    · rcases mem_cons.1 hr with rfl | hr
      · rw [min_eq_right hback.le] at happart
        exact ⟨happart, add_lt_add_right hback _⟩
      · exact htail r hr
    · exact htail r hr

/-- The times later than what the clock shows at `u` come later than `u`, up to the rest of one
stretch that the clock repeats at `u`. -/
theorem lt_toUtc_or_repeated (h : Apart before js) (u : K) :
    (∀ w, Reads before js w → toLocal before js u < w → u < toUtc before js w)
    ∨ ∃ r ∈ repeated before js, r.1 ≤ toLocal before js u
      ∧ ∀ w, Reads before js w → r.2 ≤ w → u < toUtc before js w := by
  induction js generalizing before with
  | nil =>
    refine .inl fun w _ hw => ?_
    rw [toLocal] at hw
    rw [toUtc]
    linarith
  | cons j js ih =>
    rcases lt_or_ge u j.instant with hu | hu
    · refine .inl fun w hread hw => ?_
      rw [toLocal_of_lt hu] at hw
      rcases lt_or_ge w (j.instant + max before j.offset) with hlt | hge
      · rw [toUtc_of_lt hlt]
        linarith
      · rw [toUtc_of_le hge]
        exact hu.trans_le (le_toUtc h ((add_le_add_right (le_max_right _ _) _).trans hge))
    · have hlow := le_toLocal h hu
      -- past the stretch of this jump, a time is one of the later jumps'
      have hpast : ∀ w, Reads before (j :: js) w → j.instant + max before j.offset ≤ w →
          Reads j.offset js w ∧ toUtc before (j :: js) w = toUtc j.offset js w := by
        intro w hread hge
        have hbefore : ¬ w < j.instant + before :=
          not_lt.2 ((add_le_add_right (le_max_left _ _) _).trans hge)
        exact ⟨(((reads_cons h).1 hread).resolve_left hbefore).2, toUtc_of_le hge⟩
      rw [toLocal_of_le hu]
      rcases ih h.2 with hall | ⟨r, hr, hru, hall⟩
      · rcases lt_or_ge (toLocal j.offset js u) (j.instant + max before j.offset) with hlt | hge
        · -- the clock is behind where it was before the jump
          have hmax : max before j.offset = before := by
            rcases max_choice before j.offset with heq | heq
            · exact heq
            · rw [heq] at hlt
              exact absurd hlow (not_le.2 hlt)
          rw [hmax] at hlt hpast
          have hback : j.offset < before := by linarith
          refine .inr ⟨(j.instant + j.offset, j.instant + before), ?_, hlow, fun w hread hw => ?_⟩
          · rw [repeated, if_pos hback]
            exact mem_cons_self
          · obtain ⟨htail, heq⟩ := hpast w hread hw
            rw [heq]
            exact hall w htail (hlt.trans_le hw)
        · refine .inl fun w hread hw => ?_
          obtain ⟨htail, heq⟩ := hpast w hread (hge.trans hw.le)
          rw [heq]
          exact hall w htail hw
      · obtain ⟨hstart, hlt⟩ := le_repeated h r hr
        refine .inr ⟨r, ?_, hru, fun w hread hw => ?_⟩
        · rw [repeated]
          split_ifs
          · exact mem_cons_of_mem _ hr
          · exact hr
        · obtain ⟨htail, heq⟩ := hpast w hread ((hstart.trans hlt.le).trans hw)
          rw [heq]
          exact hall w htail hw

end WallClock

end Crewquarters
