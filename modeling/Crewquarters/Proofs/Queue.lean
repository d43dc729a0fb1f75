import Crewquarters.Jobs

/-!
# The rows of the job queue

What the queue's functions do to its rows, whatever the jobs are for: a row keeps its id, type,
payload and dedupe key (`Job.core`), ids stay distinct (`Numbered`), and claiming, failing and
reaping are single updates.
-/

namespace Crewquarters

open List

def Job.core (j : Job) : ℕ × JobType × JobPayload × Option DedupeKey :=
  (j.id, j.type, j.payload, j.dedupeKey)

namespace JobTable

variable {t : JobTable} {p : Job → Bool} {f : Job → Job}
variable {j : Job} {t' : JobTable} {worker : WorkerId} {now : Time}
variable {type : JobType} {payload : JobPayload} {key : DedupeKey} {dedupeKey : Option DedupeKey}
  {due : Time} {maxAttempts : ℕ}

theorem mem_update :
    j ∈ (t.update p f).rows ↔ ∃ k ∈ t.rows, j = if p k then f k else k := by
  simp only [update, mem_map]
  exact ⟨fun ⟨k, hk, h⟩ => ⟨k, hk, h.symm⟩, fun ⟨k, hk, h⟩ => ⟨k, hk, h.symm⟩⟩

theorem map_core_update (hf : ∀ j, (f j).core = j.core) :
    (t.update p f).rows.map Job.core = t.rows.map Job.core := by
  simp only [update, map_map]
  refine map_congr_left fun j _ => ?_
  simp only [Function.comp_apply]
  split_ifs
  · exact hf j
  · rfl

theorem core_of_mem (hc : t'.rows.map Job.core = t.rows.map Job.core) (hj : j ∈ t'.rows) :
    ∃ k ∈ t.rows, k.core = j.core := by
  have hmem : j.core ∈ t.rows.map Job.core := hc ▸ mem_map_of_mem hj
  simpa using hmem

/-- Ids are given once. -/
structure Numbered (t : JobTable) : Prop where
  ids : (t.rows.map Job.id).Nodup
  bound : ∀ j ∈ t.rows, j.id < t.nextId

namespace Numbered

theorem of_core {t' : JobTable} (h : t.Numbered)
    (hc : t'.rows.map Job.core = t.rows.map Job.core) (hn : t'.nextId = t.nextId) :
    t'.Numbered := by
  have hid : ∀ l : List Job, l.map Job.id = (l.map Job.core).map Prod.fst := by
    intro l
    simp [Job.core, Function.comp_def]
  refine ⟨?_, fun j hj => ?_⟩
  · rw [hid, hc, ← hid]
    exact h.ids
  · obtain ⟨k, hk, hkj⟩ := core_of_mem hc hj
    have hkid : k.id = j.id := congrArg Prod.fst hkj
    rw [hn, ← hkid]
    exact h.bound k hk

theorem eq_of_id (h : t.Numbered) {j k : Job} (hj : j ∈ t.rows) (hk : k ∈ t.rows)
    (hid : j.id = k.id) : j = k :=
  inj_on_of_nodup_map h.ids hj hk hid

theorem append (h : t.Numbered) {j : Job} (hj : j.id = t.nextId) :
    Numbered ⟨t.rows ++ [j], t.nextId + 1⟩ := by
  refine ⟨?_, fun k hk => ?_⟩
  · rw [map_append, nodup_append]
    refine ⟨h.ids, by simp, fun a ha b hb => ?_⟩
    obtain ⟨k, hk, rfl⟩ := List.mem_map.1 ha
    have hlt := h.bound k hk
    simp only [map_cons, map_nil, mem_singleton] at hb
    omega
  · rcases List.mem_append.1 hk with hk | hk
    · exact (h.bound k hk).trans (Nat.lt_succ_self _)
    · rw [List.mem_singleton.1 hk, hj]
      exact Nat.lt_succ_self _

end Numbered

theorem enqueue_cases :
    (t.hasLive key = true ∧ (t.enqueue type payload (some key) due maxAttempts).2 = t)
    ∨ (t.hasLive key = false ∧ (t.enqueue type payload (some key) due maxAttempts).2 =
      { rows := t.rows ++ [Job.fresh t.nextId type payload (some key) due maxAttempts]
        nextId := t.nextId + 1 }) := by
  unfold enqueue conflicts
  cases h : t.hasLive key <;> simp [h]

theorem hasLive_iff :
    t.hasLive key = true ↔ ∃ j ∈ t.rows, j.dedupeKey = some key ∧ j.live = true := by
  simp [hasLive]

theorem hasLive_enqueue :
    (t.enqueue type payload (some key) due maxAttempts).2.hasLive key = true := by
  rcases enqueue_cases (t := t) with ⟨hlive, he⟩ | ⟨-, he⟩ <;> rw [he]
  · exact hlive
  · exact hasLive_iff.2 ⟨_, mem_append_right _ (List.mem_singleton.2 rfl), rfl, rfl⟩

def Deduped (t : JobTable) : Prop :=
  ∀ j ∈ t.rows, ∀ k ∈ t.rows, j.live = true → k.live = true → j.dedupeKey.isSome = true →
    j.dedupeKey = k.dedupeKey → j = k

namespace Deduped

theorem update (h : t.Deduped) (hf : ∀ j, (f j).dedupeKey = j.dedupeKey)
    (hlive : ∀ j ∈ t.rows, p j = true → (f j).live = true → j.live = true) :
    (t.update p f).Deduped := by
  intro j hj k hk hjl hkl hkey hsame
  obtain ⟨j, hj', rfl⟩ := mem_update.1 hj
  obtain ⟨k, hk', rfl⟩ := mem_update.1 hk
  have hback : ∀ i ∈ t.rows, (if p i then f i else i).live = true → i.live = true := by
    intro i hi hil
    split_ifs at hil with hp
    · exact hlive i hi hp hil
    · exact hil
  have hkeys : ∀ i : Job, (if p i then f i else i).dedupeKey = i.dedupeKey := by
    intro i
    split_ifs
    · exact hf i
    · rfl
  rw [hkeys j] at hkey hsame
  rw [hkeys k] at hsame
  rw [h j hj' k hk' (hback j hj' hjl) (hback k hk' hkl) hkey hsame]

theorem enqueue (h : t.Deduped) :
    (t.enqueue type payload dedupeKey due maxAttempts).2.Deduped := by
  unfold JobTable.enqueue
  split_ifs with hconflict
  · exact h
  · -- no live row has the key of the new one
    have hfresh : ∀ j ∈ t.rows, j.live = true → dedupeKey.isSome = true →
        j.dedupeKey ≠ dedupeKey := by
      intro j hj hl hsome heq
      obtain ⟨key, rfl⟩ := Option.isSome_iff_exists.1 hsome
      exact hconflict (hasLive_iff.2 ⟨j, hj, heq, hl⟩)
    intro j hj k hk hjl hkl hkey hsame
    rcases List.mem_append.1 hj with hj | hj <;> rcases List.mem_append.1 hk with hk | hk
    · exact h j hj k hk hjl hkl hkey hsame
    · rw [List.mem_singleton.1 hk] at hsame
      have hsome : dedupeKey.isSome = true := (congrArg Option.isSome hsame).symm.trans hkey
      exact absurd hsame (hfresh j hj hjl hsome)
    · rw [List.mem_singleton.1 hj] at hsame hkey
      exact absurd hsame.symm (hfresh k hk hkl hkey)
    · rw [List.mem_singleton.1 hj, List.mem_singleton.1 hk]

end Deduped

theorem Numbered.enqueue (h : t.Numbered) :
    (t.enqueue type payload dedupeKey due maxAttempts).2.Numbered := by
  unfold JobTable.enqueue
  split_ifs
  · exact h
  · exact h.append rfl

theorem mem_enqueue_of_mem (h : j ∈ t.rows) :
    j ∈ (t.enqueue type payload dedupeKey due maxAttempts).2.rows := by
  unfold JobTable.enqueue
  split_ifs
  · exact h
  · exact mem_append_left _ h

theorem mem_enqueue (h : j ∈ (t.enqueue type payload dedupeKey due maxAttempts).2.rows) :
    j ∈ t.rows ∨ j = Job.fresh t.nextId type payload dedupeKey due maxAttempts := by
  unfold JobTable.enqueue at h
  split_ifs at h
  · exact .inl h
  · exact (List.mem_append.1 h).imp_right List.mem_singleton.1

theorem nextId_le_enqueue :
    t.nextId ≤ (t.enqueue type payload dedupeKey due maxAttempts).2.nextId := by
  unfold JobTable.enqueue
  split_ifs
  · exact le_rfl
  · exact Nat.le_succ _

theorem earliest_mem : ∀ {l : List Job} {j : Job}, earliest l = some j → j ∈ l
  | [], _, h => by simp [earliest] at h
  | k :: l, j, h => by
    simp only [earliest] at h
    split at h
    · simp only [Option.some.injEq] at h
      simp [h]
    · rename_i m hm
      split_ifs at h with hb <;> simp only [Option.some.injEq] at h
      · subst h
        exact mem_cons_of_mem _ (earliest_mem hm)
      · simp [h]

theorem claim_none {seconds : ℚ} {types : List JobType} {locked : List ℕ}
    (h : t.claim worker seconds types locked now = (none, t')) : t' = t := by
  unfold claim at h
  split at h
  · exact (Prod.mk.inj h).2.symm
  · simp at h

theorem claim_cases {seconds : ℚ} {types : List JobType} {locked : List ℕ} {job : Job}
    (h : t.claim worker seconds types locked now = (some job, t')) :
    ∃ j ∈ t.rows, j.state = .available ∧ job = lease worker seconds now j
      ∧ t' = t.update (fun k => k.id = j.id) (lease worker seconds now) := by
  unfold claim at h
  split at h
  · simp at h
  · rename_i j hj
    simp only [Prod.mk.injEq, Option.some.injEq] at h
    have hm := List.mem_filter.1 (earliest_mem hj)
    refine ⟨j, hm.1, ?_, h.1.symm, h.2.symm⟩
    have := hm.2
    simp only [claimable, Bool.and_eq_true, decide_eq_true_eq] at this
    exact this.1.1.1

theorem owned_iff {id : ℕ} : owned id worker j = true
    ↔ j.id = id ∧ j.state = .claimed ∧ j.leaseOwner = some worker := by
  simp [owned, and_assoc]

theorem fail_cases {id : ℕ} {retryable : Bool} {random : ℚ} {state : Option JobState}
    (h : t.fail id worker retryable random now = (state, t')) :
    (state = none ∧ t' = t ∧ ∀ j ∈ t.rows, owned id worker j = false)
    ∨ ∃ j ∈ t.rows, owned id worker j = true
      ∧ ((state = some .available ∧ j.attempts < j.maxAttempts
          ∧ ∃ due, t' = t.update (fun k => k.id = id) (requeue due))
        ∨ (state = some .dead ∧ ¬ (retryable = true ∧ j.attempts < j.maxAttempts)
          ∧ t' = t.update (fun k => k.id = id) (endAs .dead now))) := by
  unfold fail at h
  split at h
  · rename_i hnone
    simp only [Prod.mk.injEq] at h
    exact .inl ⟨h.1.symm, h.2.symm, by simpa using hnone⟩
  · rename_i j hj
    refine .inr ⟨j, mem_of_find?_eq_some hj, find?_some hj, ?_⟩
    split_ifs at h with hr <;> simp only [Prod.mk.injEq] at h
    · simp only [Bool.and_eq_true, decide_eq_true_eq] at hr
      exact .inl ⟨h.1.symm, hr.2, _, h.2.symm⟩
    · exact .inr ⟨h.1.symm, by simpa using hr, h.2.symm⟩

end JobTable

def Job.spent (now : Time) (j : Job) : Bool :=
  JobTable.expired now j && decide (j.maxAttempts ≤ j.attempts)

def JobTable.reaped (now : Time) (j : Job) : Job :=
  if j.spent now then endAs .dead now j else requeue j.availableAt j

theorem reaped_core (now : Time) (j : Job) : (JobTable.reaped now j).core = j.core := by
  unfold JobTable.reaped
  split_ifs <;> rfl

section Reap

variable {t : JobTable} {now : Time}

theorem spent_requeue (now : Time) (j : Job) :
    (if JobTable.expired now j && decide (j.attempts < j.maxAttempts)
      then JobTable.requeue j.availableAt j else j).spent now = j.spent now := by
  by_cases he : JobTable.expired now j = true <;> by_cases ha : j.attempts < j.maxAttempts
  · have hspent : j.spent now = false := by
      simp only [Job.spent, he, Bool.true_and, decide_eq_false_iff_not]
      omega
    rw [if_pos (by simp [he, ha]), hspent]
    rfl
  all_goals rw [if_neg (by simp [he, ha])]

theorem reapExpired_table : (t.reapExpired now).2.2
    = t.update (JobTable.expired now) (JobTable.reaped now) := by
  unfold JobTable.reapExpired JobTable.update
  simp only [map_map, JobTable.mk.injEq, and_true]
  refine map_congr_left fun j _ => ?_
  have hs := spent_requeue now j
  unfold Job.spent at hs
  simp only [Function.comp_apply, hs]
  by_cases he : JobTable.expired now j = true <;> by_cases ha : j.attempts < j.maxAttempts
  · simp [he, ha, JobTable.reaped, Job.spent, not_le.2 ha]
  · simp [he, ha, JobTable.reaped, Job.spent, not_lt.1 ha]
  · simp [he]
  · simp [he]

theorem mem_reapExpired_dead {j : Job} : j ∈ (t.reapExpired now).2.1
    ↔ ∃ k ∈ t.rows, k.spent now = true ∧ j = JobTable.endAs .dead now k := by
  unfold JobTable.reapExpired
  simp only [mem_map, mem_filter, JobTable.mem_update]
  constructor
  · rintro ⟨_, ⟨⟨k, hk, rfl⟩, hs⟩, rfl⟩
    have hspent : k.spent now = true := (spent_requeue now k).symm.trans hs
    refine ⟨k, hk, hspent, ?_⟩
    simp only [Job.spent, Bool.and_eq_true, decide_eq_true_eq] at hspent
    rw [if_neg (by simp [not_lt.2 hspent.2])]
  · rintro ⟨k, hk, hs, rfl⟩
    have hspent := hs
    simp only [Job.spent, Bool.and_eq_true, decide_eq_true_eq] at hspent
    refine ⟨_, ⟨⟨k, hk, rfl⟩, (spent_requeue now k).trans hs⟩, ?_⟩
    rw [if_neg (by simp [not_lt.2 hspent.2])]

end Reap

end Crewquarters
