import Crewquarters.Scheduler

/-!
# The ledger of a schedule

Firing a schedule moves its `next_run_at` from one occurrence to a later one. What it creates and
what it records account for the occurrences in between, each once (`Ledger.advance`).
-/

namespace Crewquarters

open List

def ScheduleRecord.covers (id : ScheduleId) (o : Time) : ScheduleRecord → Bool
  | .misfireSkipped scheduleId missedFrom missedThrough =>
    scheduleId = id && missedFrom ≤ o && o ≤ missedThrough
  | .misfireFiredOnce scheduleId missedFrom firedFor =>
    scheduleId = id && missedFrom ≤ o && o < firedFor
  | .skipped .. => false

def ScheduleRecord.scheduleId : ScheduleRecord → ScheduleId
  | .misfireSkipped id .. | .skipped id _ | .misfireFiredOnce id .. => id

theorem ScheduleRecord.covers_of_ne {id : ScheduleId} {o : Time} {r : ScheduleRecord}
    (h : r.scheduleId ≠ id) : r.covers id o = false := by
  cases r <;> simp_all [covers, scheduleId]

/-- The occurrences from `first` to before `next` are accounted for by runs and by records. -/
structure Ledger (occ : Set Time) (id : ScheduleId) (before : List Time) (first next : Time)
    (created : List Time) (records : List ScheduleRecord) : Prop where
  next_mem : next ∈ occ
  first_le : first ≤ next
  increasing : created.Pairwise (· < ·)
  occurs : ∀ t ∈ created, t ∈ occ
  lt : ∀ t ∈ created, t < next
  covered_lt : ∀ r ∈ records, ∀ o ∈ occ, r.covers id o = true → o < next
  /-- an occurrence that had no run before has a run or a range, and one of them only -/
  once : ∀ o ∈ occ, first ≤ o → o < next → o ∉ before →
    created.count o + records.countP (·.covers id o) = 1

namespace Ledger

variable {occ : Set Time} {id : ScheduleId} {before created : List Time}
  {first next next' now through : Time} {records : List ScheduleRecord}

theorem nil (hfirst : first ∈ occ) : Ledger occ id before first first [] [] where
  next_mem := hfirst
  first_le := le_rfl
  increasing := .nil
  occurs := nofun
  lt := nofun
  covered_lt := nofun
  once _ _ hge hlt := absurd hge (not_le.2 hlt)

theorem advance (h : Ledger occ id before first next created records) (new : List Time)
    (recs : List ScheduleRecord) (hnext : next' ∈ occ) (hle : next ≤ next')
    (hsorted : new.Pairwise (· < ·)) (hnew : ∀ t ∈ new, t ∈ occ ∧ next ≤ t ∧ t < next')
    (hrecs : ∀ r ∈ recs, ∀ o ∈ occ, r.covers id o = true → next ≤ o ∧ o < next')
    (honce : ∀ o ∈ occ, next ≤ o → o < next' → o ∉ before →
      new.count o + recs.countP (·.covers id o) = 1) :
    Ledger occ id before first next' (created ++ new) (records ++ recs) where
  next_mem := hnext
  first_le := h.first_le.trans hle
  increasing := by
    refine pairwise_append.2 ⟨h.increasing, hsorted, fun a ha b hb => ?_⟩
    exact (h.lt a ha).trans_le (hnew b hb).2.1
  occurs t ht := (mem_append.1 ht).elim (h.occurs t) fun ht => (hnew t ht).1
  lt t ht := (mem_append.1 ht).elim (fun ht => (h.lt t ht).trans_le hle) fun ht =>
    (hnew t ht).2.2
  covered_lt r hr o ho hcovers := by
    rcases mem_append.1 hr with hr | hr
    · exact (h.covered_lt r hr o ho hcovers).trans_le hle
    · exact (hrecs r hr o ho hcovers).2
  once o ho hfirst hlt hbefore := by
    rw [count_append, countP_append]
    rcases lt_or_ge o next with holt | hge
    · -- nothing new is before `next`
      have hcount : new.count o = 0 :=
        count_eq_zero.2 fun hmem => absurd (hnew o hmem).2.1 (not_le.2 holt)
      have hcountP : recs.countP (·.covers id o) = 0 :=
        countP_eq_zero.2 fun r hr hcovers =>
          absurd (hrecs r hr o ho hcovers).1 (not_le.2 holt)
      have := h.once o ho hfirst holt hbefore
      omega
    · have hcount : created.count o = 0 :=
        count_eq_zero.2 fun hmem => absurd (h.lt o hmem) (not_lt.2 hge)
      have hcountP : records.countP (·.covers id o) = 0 :=
        countP_eq_zero.2 fun r hr hcovers =>
          absurd (h.covered_lt r hr o ho hcovers) (not_lt.2 hge)
      have := honce o ho hge hlt hbefore
      omega

theorem other (h : Ledger occ id before first next created records) {recs : List ScheduleRecord}
    (hrecs : ∀ r ∈ recs, r.scheduleId ≠ id) :
    Ledger occ id before first next created (records ++ recs) := by
  have hcovers : ∀ r ∈ recs, ∀ o, ¬ r.covers id o = true := fun r hr o => by
    rw [ScheduleRecord.covers_of_ne (hrecs r hr)]
    exact Bool.false_ne_true
  have hadvance := h.advance [] recs h.next_mem le_rfl .nil nofun
    (fun r hr o _ hc => absurd hc (hcovers r hr o))
    fun o _ hge hlt _ => absurd hge (not_le.2 hlt)
  rwa [append_nil] at hadvance

/-- What the firing for `t` creates: nothing, if there is a run for it. -/
def made (before : List Time) (t : Time) : List Time := if t ∈ before then [] else [t]

theorem mem_made {t x : Time} (h : x ∈ made before t) : x = t := by
  unfold made at h
  split_ifs at h
  · exact absurd h not_mem_nil
  · exact mem_singleton.1 h

theorem made_pairwise {t : Time} : (made before t).Pairwise (· < ·) := by
  unfold made
  split_ifs
  · exact .nil
  · exact pairwise_singleton ..

theorem count_made {t o : Time} (ho : o ∉ before) :
    (made before t).count o = if o = t then 1 else 0 := by
  unfold made
  by_cases hot : o = t
  · subst hot
    rw [if_neg ho, if_pos rfl, count_singleton_self]
  · rw [if_neg hot]
    split_ifs
    · exact count_nil
    · exact count_eq_zero.2 fun hmem => hot (mem_singleton.1 hmem)

theorem onTime (h : Ledger occ id before first next created records)
    (hnext : NextIn occ next next') :
    Ledger occ id before first next' (created ++ made before next) records := by
  have hadvance := h.advance (made before next) [] hnext.mem hnext.lt.le made_pairwise
    (fun t ht => ⟨mem_made ht ▸ h.next_mem, (mem_made ht).ge, mem_made ht ▸ hnext.lt⟩) nofun
    fun o ho hge hlt hbefore => by
      have heq : o = next := ((hnext.lt_iff ho).1 hlt).antisymm hge
      rw [count_made hbefore, if_pos heq]
      rfl
  rwa [append_nil] at hadvance

section Missed

variable (h : Ledger occ id before first next created records)
  (hthrough : IsGreatest {x | x ∈ occ ∧ x ≤ now} through) (hle : next ≤ through)
  (hnext : NextIn occ now next')

include h hthrough hle hnext

theorem skip :
    Ledger occ id before first next' created (records ++ [.misfireSkipped id next through]) := by
  have hlt : through < next' := hthrough.1.2.trans_lt hnext.lt
  have hadvance := h.advance [] [.misfireSkipped id next through] hnext.mem (hle.trans hlt.le)
    .nil nofun
    (fun r hr o _ hcovers => by
      obtain rfl := mem_singleton.1 hr
      simp only [ScheduleRecord.covers, Bool.and_eq_true, decide_eq_true_eq] at hcovers
      exact ⟨hcovers.1.2, hcovers.2.trans_lt hlt⟩)
    fun o ho hge holt _ => by
      have hot : o ≤ through := hthrough.2 ⟨ho, (hnext.lt_iff ho).1 holt⟩
      simp [ScheduleRecord.covers, hge, hot]
  rwa [append_nil] at hadvance

theorem fireOnce :
    Ledger occ id before first next' (created ++ made before through)
      (records ++ [.misfireFiredOnce id next through]) := by
  have hlt : through < next' := hthrough.1.2.trans_lt hnext.lt
  refine h.advance _ _ hnext.mem (hle.trans hlt.le) made_pairwise
    (fun t ht => ⟨mem_made ht ▸ hthrough.1.1, mem_made ht ▸ hle, mem_made ht ▸ hlt⟩)
    (fun r hr o _ hcovers => ?_) fun o ho hge holt hbefore => ?_
  · obtain rfl := mem_singleton.1 hr
    simp only [ScheduleRecord.covers, Bool.and_eq_true, decide_eq_true_eq] at hcovers
    exact ⟨hcovers.1.2, hcovers.2.trans hlt⟩
  · have hot : o ≤ through := hthrough.2 ⟨ho, (hnext.lt_iff ho).1 holt⟩
    rw [count_made hbefore]
    rcases hot.eq_or_lt with rfl | hot
    · simp [ScheduleRecord.covers]
    · simp [ScheduleRecord.covers, hge, hot, hot.ne]

end Missed

end Ledger

end Crewquarters
