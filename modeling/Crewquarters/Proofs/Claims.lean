import Crewquarters.Claims
import Crewquarters.Proofs.Queue

/-!
# Job rows and claims

A call of the access module moves rows one by one (`Job.Moves`): a claim needs the row available,
everything else but a cancellation needs it claimed, and no call touches a row that is finished.
Coherence of rows, the bound on claims and one live job a key follow from that.

Ownership is checked by job id and worker id.
-/

namespace Crewquarters

open List Option JobTable

variable {a : WorkerAction} {j : Job} {q q' : Queue}

/-- All that can happen to a row; leasing it only where `claims`. -/
inductive Job.Moves (claims : Prop) (j : Job) : Job → Prop where
  | stay : Moves claims j j
  | leased {worker : WorkerId} {seconds : ℚ} {now : Time} (claim : claims)
      (available : j.state = .available) : Moves claims j (JobTable.lease worker seconds now j)
  | extended {time : Time} (claimed : j.state = .claimed) :
      Moves claims j { j with leaseUntil := some time }
  | requeued {due : Time} (claimed : j.state = .claimed) (room : j.attempts < j.maxAttempts) :
      Moves claims j (JobTable.requeue due j)
  | ended {state : JobState} {now : Time} (claimed : j.state = .claimed)
      (final : state = .succeeded ∨ state = .dead) : Moves claims j (JobTable.endAs state now j)
  | cancelled {now : Time} (available : j.state = .available) :
      Moves claims j { j with state := .cancelled, finishedAt := some now }

def Job.finished (j : Job) : Bool := j.state = .succeeded || j.state = .dead || j.state = .cancelled

/-- The columns of a row agree with its state. -/
structure Job.Coherent (j : Job) : Prop where
  lease : j.state = .claimed ↔ j.leaseOwner.isSome ∧ j.leaseUntil.isSome
  finish : j.finishedAt.isSome ↔ j.finished = true
  attempts : j.attempts ≤ j.maxAttempts
  room : j.state = .available → j.attempts < j.maxAttempts

namespace Job.Moves

variable {claims : Prop} {j k : Job}

theorem core (h : j.Moves claims k) : k.core = j.core := by
  cases h <;> rfl

theorem live (h : j.Moves claims k) (hk : k.live = true) : j.live = true := by
  cases h with
  | stay => exact hk
  | leased _ available => simp [Job.live, available]
  | extended claimed | requeued claimed | ended claimed => simp [Job.live, claimed]
  | cancelled available => simp [Job.live, available]

theorem claimed (h : j.Moves False k) (hk : k.state = .claimed) :
    j.state = .claimed ∧ k.leaseOwner = j.leaseOwner := by
  cases h with
  | stay => exact ⟨hk, rfl⟩
  | leased claim => exact claim.elim
  | extended claimed => exact ⟨claimed, rfl⟩
  | requeued => exact absurd hk nofun
  | ended _ final =>
    rcases final with rfl | rfl <;> exact absurd hk nofun
  | cancelled => exact absurd hk nofun

theorem attempts (h : j.Moves False k) : k.attempts = j.attempts := by
  cases h with
  | leased claim => exact claim.elim
  | stay | extended | requeued | ended | cancelled => rfl

theorem attempts_le (h : j.Moves claims k) : j.attempts ≤ k.attempts := by
  cases h with
  | leased => exact Nat.le_succ _
  | stay | extended | requeued | ended | cancelled => exact le_rfl

theorem finished (h : j.Moves claims k) (hj : j.finished = true) : k = j := by
  cases h with
  | stay => rfl
  | leased _ available => simp [Job.finished, available] at hj
  | extended claimed | requeued claimed | ended claimed => simp [Job.finished, claimed] at hj
  | cancelled available => simp [Job.finished, available] at hj

theorem coherent (h : j.Moves claims k) (hj : j.Coherent) : k.Coherent := by
  obtain ⟨hlease, hfinish, hattempts, hroom⟩ := hj
  have hnone : j.finished = false → j.finishedAt.isSome = false := fun hf => by
    by_contra hsome
    exact absurd (hf.symm.trans (hfinish.1 (Bool.eq_true_of_not_eq_false hsome))) nofun
  cases h with
  | stay => exact ⟨hlease, hfinish, hattempts, hroom⟩
  | leased _ available =>
    have hf := hnone (by simp [Job.finished, available])
    have hlt := hroom available
    exact ⟨by simp [JobTable.lease], by simpa [JobTable.lease, Job.finished] using hf, hlt, nofun⟩
  | extended claimed =>
    have howner := (hlease.1 claimed).1
    exact ⟨by simp [claimed, howner], hfinish, hattempts, hroom⟩
  | requeued claimed room =>
    have hf := hnone (by simp [Job.finished, claimed])
    exact ⟨by simp [JobTable.requeue], by simpa [JobTable.requeue, Job.finished] using hf,
      hattempts, fun _ => room⟩
  | ended claimed final =>
    rcases final with rfl | rfl <;>
      exact ⟨by simp [JobTable.endAs], by simp [JobTable.endAs, Job.finished], hattempts, nofun⟩
  | cancelled available =>
    have hunleased : ¬ (j.leaseOwner.isSome ∧ j.leaseUntil.isSome) := fun h => by
      rw [hlease.2 h] at available
      exact absurd available nofun
    exact ⟨by simpa using hunleased, by simp [Job.finished], hattempts, nofun⟩

end Job.Moves

namespace JobTable

variable {claims : Prop} {t t' : JobTable} {p : Job → Bool} {f : Job → Job}

def Moves (claims : Prop) (t t' : JobTable) : Prop :=
  ∃ g : Job → Job, t' = { t with rows := t.rows.map g } ∧ ∀ j ∈ t.rows, j.Moves claims (g j)

theorem moves_update (h : ∀ j ∈ t.rows, p j = true → j.Moves claims (f j)) :
    t.Moves claims (t.update p f) := by
  refine ⟨fun j => if p j then f j else j, rfl, fun j hj => ?_⟩
  by_cases hp : p j = true
  · simpa only [hp, if_true] using h j hj hp
  · simpa only [hp] using .stay

theorem Moves.refl (t : JobTable) : t.Moves claims t :=
  ⟨id, by rw [List.map_id], fun _ _ => .stay⟩

theorem Moves.mem (h : t.Moves claims t') {k : Job} (hk : k ∈ t'.rows) :
    ∃ j ∈ t.rows, j.Moves claims k := by
  obtain ⟨g, rfl, hg⟩ := h
  obtain ⟨j, hj, rfl⟩ := mem_map.1 hk
  exact ⟨j, hj, hg j hj⟩

theorem Moves.of_mem (h : t.Moves claims t') (hj : j ∈ t.rows) :
    ∃ k ∈ t'.rows, j.Moves claims k := by
  obtain ⟨g, rfl, hg⟩ := h
  exact ⟨g j, mem_map_of_mem hj, hg j hj⟩

theorem Moves.numbered (h : t.Moves claims t') (hn : t.Numbered) : t'.Numbered := by
  obtain ⟨g, rfl, hg⟩ := h
  refine hn.of_core ?_ rfl
  rw [List.map_map]
  exact map_congr_left fun j hj => (hg j hj).core

theorem Moves.deduped (h : t.Moves claims t') (hd : t.Deduped) : t'.Deduped := by
  obtain ⟨g, rfl, hg⟩ := h
  intro j hj k hk hjl hkl hkey hsame
  obtain ⟨j, hj', rfl⟩ := mem_map.1 hj
  obtain ⟨k, hk', rfl⟩ := mem_map.1 hk
  have hkeys : ∀ i ∈ t.rows, (g i).dedupeKey = i.dedupeKey := fun i hi => by
    have hcore := (hg i hi).core
    simp only [Job.core, Prod.mk.injEq] at hcore
    exact hcore.2.2.2
  rw [hkeys j hj'] at hkey hsame
  rw [hkeys k hk'] at hsame
  rw [hd j hj' k hk' ((hg j hj').live hjl) ((hg k hk').live hkl) hkey hsame]

theorem heartbeat_moves (id : ℕ) (worker : WorkerId) (seconds : ℚ) (now : Time) :
    t.Moves False (t.heartbeat id worker seconds now).2 :=
  moves_update fun _ _ h => .extended (owned_iff.1 h).2.1

theorem complete_moves (id : ℕ) (worker : WorkerId) (now : Time) :
    t.Moves False (t.complete id worker now).2 :=
  moves_update fun _ _ h => .ended (owned_iff.1 h).2.1 (.inl rfl)

theorem expired_claimed {now : Time} (h : expired now j = true) : j.state = .claimed := by
  simp only [expired, Bool.and_eq_true, decide_eq_true_eq] at h
  exact h.1

theorem reapBack_moves (now : Time) : t.Moves False (t.reapBack now) := by
  refine moves_update fun j _ h => ?_
  simp only [Bool.and_eq_true, decide_eq_true_eq] at h
  exact .requeued (expired_claimed h.1) h.2

theorem reapSpent_moves (now : Time) : t.Moves False (t.reapSpent now) := by
  refine moves_update fun j _ h => ?_
  simp only [Bool.and_eq_true, decide_eq_true_eq] at h
  exact .ended (expired_claimed h.1) (.inr rfl)

theorem cancelByDedupe_moves (key : DedupeKey) (now : Time) :
    t.Moves False (t.cancelByDedupe key now).2 := by
  refine moves_update fun j _ h => ?_
  simp only [Bool.and_eq_true, decide_eq_true_eq] at h
  exact .cancelled h.2

theorem fail_moves (hn : t.Numbered) (id : ℕ) (worker : WorkerId) (retryable : Bool) (random : ℚ)
    (now : Time) : t.Moves False (t.fail id worker retryable random now).2 := by
  cases hfail : t.fail id worker retryable random now
  rcases fail_cases hfail with ⟨-, rfl, -⟩ | ⟨j, hj, howned, hcases⟩
  · exact .refl _
  · obtain ⟨hjid, hclaimed, -⟩ := owned_iff.1 howned
    have hrow : ∀ k ∈ t.rows, decide (k.id = id) = true → k = j := fun k hk hid =>
      hn.eq_of_id hk hj ((of_decide_eq_true hid).trans hjid.symm)
    rcases hcases with ⟨-, hroom, due, rfl⟩ | ⟨-, -, rfl⟩
    · refine moves_update fun k hk hid => ?_
      obtain rfl := hrow k hk hid
      exact .requeued hclaimed hroom
    · refine moves_update fun k hk hid => ?_
      obtain rfl := hrow k hk hid
      exact .ended hclaimed (.inr rfl)

theorem leased_moves (hn : t.Numbered) (hj : j ∈ t.rows) (h : j.state = .available)
    (worker : WorkerId) (seconds : ℚ) (now : Time) :
    t.Moves True (t.update (fun k => k.id = j.id) (lease worker seconds now)) := by
  refine moves_update fun k hk hid => ?_
  obtain rfl := hn.eq_of_id hk hj (of_decide_eq_true hid)
  exact .leased trivial h

theorem Moves.keeps_finished (h : t.Moves claims t') (hn : t.Numbered) (hj : j ∈ t.rows)
    (hf : j.finished = true) : j ∈ t'.rows ∧ ∀ k ∈ t'.rows, k.id = j.id → k = j := by
  obtain ⟨k, hk, hmoves⟩ := h.of_mem hj
  have hkj := hmoves.finished hf
  subst hkj
  exact ⟨hk, fun i hi hid => (h.numbered hn).eq_of_id hi hk hid⟩

end JobTable

namespace Queue

/-- What the queue promises of a state: its rows are coherent, no job was handed out more often
than it may be tried, one live job a key, and whatever comes next leaves finished jobs alone. -/
structure Coherent (q : Queue) : Prop where
  rows : ∀ j ∈ q.table.rows, j.Coherent
  bounded : ∀ j ∈ q.table.rows, q.handedOut.count j.id ≤ j.maxAttempts
  deduped : ∀ key : DedupeKey,
    (q.table.rows.filter fun j => j.dedupeKey = some key && j.live).length ≤ 1
  finished : ∀ a q', jobQueue.step a q = some q' → ∀ j ∈ q.table.rows, j.finished = true →
    j ∈ q'.table.rows ∧ ∀ k ∈ q'.table.rows, k.id = j.id → k = j

structure Sound (q : Queue) : Prop where
  numbered : q.table.Numbered
  deduped : q.table.Deduped
  rows : ∀ j ∈ q.table.rows, j.Coherent
  counted : ∀ j ∈ q.table.rows, q.handedOut.count j.id = j.attempts
  known : ∀ id ∈ q.handedOut, id < q.table.nextId

/-- What a step does: a row is added, a row is leased and handed out, or rows move. -/
inductive Did (q : Queue) : Queue → Prop where
  | enqueued {type : JobType} {payload : JobPayload} {dedupeKey : Option DedupeKey} {due : Time}
      {maxAttempts : ℕ+} :
      Did q { q with table := (q.table.enqueue type payload dedupeKey due maxAttempts).2 }
  | claimed {j : Job} {worker : WorkerId} {seconds : ℚ} {now : Time} (mem : j ∈ q.table.rows)
      (available : j.state = .available) :
      Did q ⟨q.table.update (fun k => k.id = j.id) (JobTable.lease worker seconds now),
        j.id :: q.handedOut⟩
  | moved {table : JobTable} (moves : q.table.Moves False table) : Did q { q with table }

theorem did_of_step {a : QueueAction} (hn : q.table.Numbered) (h : jobQueue.step a q = some q') :
    q.Did q' := by
  cases a with
  | enqueue =>
    obtain rfl := some.inj h
    exact .enqueued
  | claim worker seconds types locked now =>
    have hq' : q' = ⟨(q.table.claim worker seconds types locked now).2,
        ((q.table.claim worker seconds types locked now).1.map Job.id).toList ++ q.handedOut⟩ :=
      (some.inj h).symm
    rw [hq']
    cases hclaim : q.table.claim worker seconds types locked now with
    | mk job =>
      cases job with
      | none =>
        obtain rfl := claim_none hclaim
        exact .moved (.refl _)
      | some =>
        obtain ⟨j, hj, havailable, rfl, rfl⟩ := claim_cases hclaim
        exact .claimed hj havailable
  | heartbeat id worker seconds now =>
    obtain rfl := some.inj h
    exact .moved (heartbeat_moves id worker seconds now)
  | complete id worker now =>
    obtain rfl := some.inj h
    exact .moved (complete_moves id worker now)
  | fail id worker retryable random now =>
    obtain rfl := some.inj h
    exact .moved (fail_moves hn id worker retryable random now)
  | reapBack now =>
    obtain rfl := some.inj h
    exact .moved (reapBack_moves now)
  | reapSpent now =>
    obtain rfl := some.inj h
    exact .moved (reapSpent_moves now)
  | cancelByDedupe key now =>
    obtain rfl := some.inj h
    exact .moved (cancelByDedupe_moves key now)

theorem fresh_coherent (id : ℕ) (type : JobType) (payload : JobPayload)
    (dedupeKey : Option DedupeKey) (due : Time) (maxAttempts : ℕ+) :
    (Job.fresh id type payload dedupeKey due maxAttempts).Coherent :=
  ⟨by simp [Job.fresh], by simp [Job.fresh, Job.finished], Nat.zero_le _, fun _ => maxAttempts.pos⟩

theorem Sound.did (hq : q.Sound) (hdid : q.Did q') : q'.Sound := by
  cases hdid with
  | enqueued =>
    refine ⟨hq.numbered.enqueue, hq.deduped.enqueue, fun j hj => ?_,
      fun j hj => ?_, fun id hid => (hq.known id hid).trans_le ?_⟩
    · rcases mem_enqueue hj with hj | rfl
      · exact hq.rows j hj
      · exact fresh_coherent _ _ _ _ _ _
    · rcases mem_enqueue hj with hj | rfl
      · exact hq.counted j hj
      · -- an id of the sequence's future was never handed out
        exact count_eq_zero.2 fun hmem => lt_irrefl _ (hq.known _ hmem)
    · exact nextId_le_enqueue
  | @claimed j worker seconds now hj available =>
    have hmoves := leased_moves hq.numbered hj available worker seconds now
    refine ⟨hmoves.numbered hq.numbered, hmoves.deduped hq.deduped, fun k hk => ?_, fun k hk => ?_,
      fun id hid => ?_⟩
    · obtain ⟨i, hi, hik⟩ := hmoves.mem hk
      exact hik.coherent (hq.rows i hi)
    · obtain ⟨i, hi, rfl⟩ := mem_update.1 hk
      have hcount := hq.counted i hi
      by_cases hid : i.id = j.id
      · simp [JobTable.lease, hid, ← hcount]
      · simp [hid, hcount, Ne.symm hid]
    · rcases mem_cons.1 hid with rfl | hid
      · exact hq.numbered.bound j hj
      · exact hq.known id hid
  | moved moves =>
    refine ⟨moves.numbered hq.numbered, moves.deduped hq.deduped, fun k hk => ?_, fun k hk => ?_,
      fun id hid => ?_⟩
    · obtain ⟨i, hi, hik⟩ := moves.mem hk
      exact hik.coherent (hq.rows i hi)
    · obtain ⟨i, hi, hik⟩ := moves.mem hk
      have hid : k.id = i.id := congrArg Prod.fst hik.core
      rw [hik.attempts, ← hq.counted i hi, ← hid]
    · obtain ⟨g, rfl, -⟩ := moves
      exact hq.known id hid

theorem sound_empty : empty.Sound := by
  have hrows : ∀ j : Job, j ∉ empty.table.rows := fun _ => not_mem_nil
  exact ⟨⟨nodup_nil, fun j hj => absurd hj (hrows j)⟩, fun j hj => absurd hj (hrows j),
    fun j hj => absurd hj (hrows j), fun j hj => absurd hj (hrows j),
    fun id hid => absurd hid not_mem_nil⟩

theorem Sound.finished {a : QueueAction} (hq : q.Sound) (h : jobQueue.step a q = some q')
    (hj : j ∈ q.table.rows) (hf : j.finished = true) :
    j ∈ q'.table.rows ∧ ∀ k ∈ q'.table.rows, k.id = j.id → k = j := by
  have hdid := did_of_step hq.numbered h
  clear h
  cases hdid with
  | enqueued =>
    exact ⟨mem_enqueue_of_mem hj,
      fun k hk => hq.numbered.enqueue.eq_of_id hk (mem_enqueue_of_mem hj)⟩
  | claimed mem available =>
    exact (leased_moves hq.numbered mem available _ _ _).keeps_finished hq.numbered hj hf
  | moved moves => exact moves.keeps_finished hq.numbered hj hf

theorem Sound.coherent {q : Queue} (hq : q.Sound) : q.Coherent where
  rows := hq.rows
  bounded j hj := by
    rw [hq.counted j hj]
    exact (hq.rows j hj).attempts
  deduped key := by
    refine Table.length_le_one_of_nodup_map (hq.numbered.ids.sublist (filter_sublist.map _))
      fun j hj k hk => ?_
    simp only [mem_filter, Bool.and_eq_true, decide_eq_true_eq] at hj hk
    have hkey : j.dedupeKey = k.dedupeKey := hj.2.1.trans hk.2.1.symm
    exact congrArg Job.id (hq.deduped j hj.1 k hk.1 hj.2.2 hk.2.2 (by simp [hj.2.1]) hkey)
  finished _ _ hstep _ hj hf := hq.finished hstep hj hf

/-- Whatever calls come in whatever order, the queue keeps its promises. -/
theorem rows_coherent (actions : List QueueAction) :
    jobQueue.Along Queue.Coherent actions Queue.empty := by
  have hsound : jobQueue.Along Queue.Sound actions Queue.empty :=
    Machine.along_of_step (fun a q q' hq h => hq.did (did_of_step hq.numbered h)) actions
      sound_empty
  exact hsound.mono fun _ hq => hq.coherent

end Queue

namespace JobTable

variable {t : JobTable} {id : ℕ} {worker : WorkerId}

/-- Every call that asks for ownership is told it was lost, and changes nothing. -/
def Refuses (id : ℕ) (worker : WorkerId) (t : JobTable) : Prop :=
  (∀ seconds now, t.heartbeat id worker seconds now = (false, t))
    ∧ (∀ now, t.complete id worker now = (false, t))
    ∧ ∀ retryable random now, t.fail id worker retryable random now = (none, t)

theorem update_of_none {p : Job → Bool} (h : ∀ j ∈ t.rows, p j = false) (f : Job → Job) :
    t.update p f = t := by
  have hrows : (t.rows.map fun j => if p j then f j else j) = t.rows.map id :=
    map_congr_left fun j hj => by rw [h j hj]; rfl
  rw [update, hrows, List.map_id]

theorem refuses_iff : t.Refuses id worker ↔ ∀ j ∈ t.rows, owned id worker j = false := by
  constructor
  · rintro ⟨h, -, -⟩ j hj
    have hany : t.rows.any (owned id worker) = false := congrArg Prod.fst (h 0 0)
    exact Bool.eq_false_of_not_eq_true (any_eq_false.1 hany j hj)
  · intro h
    have hany : t.rows.any (owned id worker) = false :=
      any_eq_false.2 fun j hj => by simp [h j hj]
    refine ⟨fun seconds now => ?_, fun now => ?_, fun retryable random now => ?_⟩
    · rw [heartbeat, hany, update_of_none h]
    · rw [complete, hany, update_of_none h]
    · rw [fail, List.find?_eq_none.2 fun j hj => by simp [h j hj]]

instance : Decidable (t.Refuses id worker) := decidable_of_iff _ refuses_iff.symm

end JobTable

def Claim.stale (table : JobTable) (c : Claim) : Bool :=
  table.rows.any fun j => j.id = c.job.id && c.job.attempts < j.attempts

namespace Workers

variable {concurrency : ℕ} {s s' : Workers}

/-- Whoever holds a stale claim is refused. -/
def StaleRefused (s : Workers) : Prop :=
  ∀ c ∈ s.claims, c.stale s.table = true → s.table.Refuses c.job.id c.loop.worker

instance : DecidablePred StaleRefused := fun s =>
  inferInstanceAs (Decidable (∀ c ∈ s.claims, _ → _))

/-- A worker does not claim a job that another of its loops is still executing. -/
def ClaimsAnew : WorkerAction → Workers → Prop
  | .claim loop leaseSeconds types locked now, s =>
    ∀ c ∈ s.claims, c.loop.worker = loop.worker →
      (s.table.claim loop.worker leaseSeconds types locked now).1.map Job.id ≠ some c.job.id
  | _, _ => True

/-- What a step does: a row is added; a loop claims a job; or rows move and claims may end. -/
inductive Did (s : Workers) : WorkerAction → Workers → Prop where
  | enqueued {type : JobType} {payload : JobPayload} {dedupeKey : Option DedupeKey} {due : Time}
      {maxAttempts : ℕ+} : Did s (.enqueue type payload dedupeKey due maxAttempts)
        (s.setTable (s.table.enqueue type payload dedupeKey due maxAttempts).2)
  | claimed {loop : LoopId} {seconds : ℚ} {types : List JobType} {locked : List ℕ} {now : Time}
      {j : Job} (mem : j ∈ s.table.rows) (available : j.state = .available)
      (returned : (s.table.claim loop.worker seconds types locked now).1
        = some (JobTable.lease loop.worker seconds now j)) :
      Did s (.claim loop seconds types locked now)
        ⟨s.table.update (fun k => k.id = j.id) (JobTable.lease loop.worker seconds now),
          s.claims ++ [⟨loop, JobTable.lease loop.worker seconds now j⟩]⟩
  | moved {a : WorkerAction} {s' : Workers} (moves : s.table.Moves False s'.table)
      (claims : s'.claims ⊆ s.claims) (anew : ClaimsAnew a s) : Did s a s'

theorem did_of_step (hn : s.table.Numbered) (h : (workers concurrency).step a s = some s') :
    s.Did a s' := by
  have hdrop : ∀ (loop : LoopId) (t : Workers), (t.drop loop).claims ⊆ t.claims :=
    fun _ _ => filter_subset_self _
  cases a with
  | enqueue =>
    obtain rfl := some.inj h
    exact .enqueued
  | claim loop seconds types locked now =>
    simp only [workers, step] at h
    split_ifs at h
    unfold claim at h
    split at h
    · exact absurd h nofun
    · split at h
      · rename_i table hclaim
        obtain rfl := some.inj h
        obtain rfl := claim_none hclaim
        exact .moved (.refl _) (List.Subset.refl _) fun c _ _ => by simp [hclaim]
      · rename_i job table hclaim
        obtain rfl := some.inj h
        obtain ⟨j, hj, havailable, rfl, rfl⟩ := claim_cases hclaim
        exact .claimed hj havailable (congrArg Prod.fst hclaim)
  | heartbeat =>
    obtain ⟨c, -, rfl⟩ := map_eq_some_iff.1 h
    exact .moved (heartbeat_moves _ _ _ _) (List.Subset.refl _) trivial
  | complete loop =>
    obtain ⟨c, -, rfl⟩ := map_eq_some_iff.1 h
    exact .moved (complete_moves _ _ _) (hdrop loop _) trivial
  | fail loop =>
    obtain ⟨c, -, rfl⟩ := map_eq_some_iff.1 h
    exact .moved (fail_moves hn _ _ _ _ _) (hdrop loop _) trivial
  | crash loop =>
    obtain rfl := some.inj h
    exact .moved (.refl _) (hdrop loop _) trivial
  | reapBack now =>
    obtain rfl := some.inj h
    exact .moved (reapBack_moves now) (List.Subset.refl _) trivial
  | reapSpent now =>
    obtain rfl := some.inj h
    exact .moved (reapSpent_moves now) (List.Subset.refl _) trivial
  | cancelByDedupe key now =>
    obtain rfl := some.inj h
    exact .moved (cancelByDedupe_moves key now) (List.Subset.refl _) trivial

structure Sound (s : Workers) : Prop where
  numbered : s.table.Numbered
  past : ∀ c ∈ s.claims, c.job.id < s.table.nextId
    ∧ ∀ j ∈ s.table.rows, j.id = c.job.id → c.job.attempts ≤ j.attempts

theorem Sound.did (hs : s.Sound) (hdid : s.Did a s') : s'.Sound := by
  cases hdid with
  | enqueued =>
    refine ⟨hs.numbered.enqueue, fun c hc => ?_⟩
    obtain ⟨hknown, hpast⟩ := hs.past c hc
    refine ⟨hknown.trans_le nextId_le_enqueue, fun j hj hid => ?_⟩
    rcases mem_enqueue hj with hj | rfl
    · exact hpast j hj hid
    · exact absurd hid (Nat.ne_of_gt hknown)
  | @claimed loop seconds types locked now j hj available returned =>
    have hmoves := leased_moves hs.numbered hj available loop.worker seconds now
    refine ⟨hmoves.numbered hs.numbered, fun c hc => ?_⟩
    rcases mem_append.1 hc with hc | hc
    · obtain ⟨hknown, hpast⟩ := hs.past c hc
      refine ⟨hknown, fun k hk hid => ?_⟩
      obtain ⟨i, hi, hik⟩ := hmoves.mem hk
      have hiid : k.id = i.id := congrArg Prod.fst hik.core
      exact (hpast i hi (hiid.symm.trans hid)).trans hik.attempts_le
    · obtain rfl := mem_singleton.1 hc
      refine ⟨hs.numbered.bound j hj, fun k hk hid => ?_⟩
      obtain ⟨i, hi, rfl⟩ := mem_update.1 hk
      by_cases hij : i.id = j.id
      · obtain rfl := hs.numbered.eq_of_id hi hj hij
        simp
      · simp only [hij, decide_false] at hid
        exact absurd hid hij
  | moved moves claims =>
    refine ⟨moves.numbered hs.numbered, fun c hc => ?_⟩
    obtain ⟨hknown, hpast⟩ := hs.past c (claims hc)
    refine ⟨?_, fun k hk hid => ?_⟩
    · obtain ⟨g, hg, -⟩ := moves
      rw [hg]
      exact hknown
    · obtain ⟨i, hi, hik⟩ := moves.mem hk
      have hiid : k.id = i.id := congrArg Prod.fst hik.core
      exact (hpast i hi (hiid.symm.trans hid)).trans hik.attempts_le

theorem staleRefused_iff (hn : s.table.Numbered) : s.StaleRefused ↔
    ∀ c ∈ s.claims, ∀ j ∈ s.table.rows, JobTable.owned c.job.id c.loop.worker j = true →
      j.attempts ≤ c.job.attempts := by
  constructor
  · intro h c hc j hj howned
    by_contra hlt
    have hid := (owned_iff.1 howned).1
    have hstale : c.stale s.table = true := by
      simp only [Claim.stale, List.any_eq_true, Bool.and_eq_true, decide_eq_true_eq]
      exact ⟨j, hj, hid, not_le.1 hlt⟩
    have hnone := refuses_iff.1 (h c hc hstale) j hj
    exact absurd (howned.symm.trans hnone) nofun
  · intro h c hc hstale
    simp only [Claim.stale, List.any_eq_true, Bool.and_eq_true, decide_eq_true_eq] at hstale
    obtain ⟨j, hj, hid, hlt⟩ := hstale
    refine refuses_iff.2 fun k hk => ?_
    by_contra howned
    rw [Bool.not_eq_false] at howned
    obtain rfl := hn.eq_of_id hk hj ((owned_iff.1 howned).1.trans hid.symm)
    exact absurd (h c hc k hk howned) (not_le.2 hlt)

theorem StaleRefused.did (hs : s.Sound) (h : s.StaleRefused) (hok : ClaimsAnew a s)
    (hdid : s.Did a s') : s'.StaleRefused := by
  have hs' := hs.did hdid
  rw [staleRefused_iff hs.numbered] at h
  rw [staleRefused_iff hs'.numbered]
  clear hs'
  intro c hc k hk howned
  obtain ⟨hid, hclaimed, howner⟩ := owned_iff.1 howned
  cases hdid with
  | enqueued =>
    rcases mem_enqueue hk with hk | rfl
    · exact h c hc k hk howned
    · exact absurd hclaimed nofun
  | @claimed loop seconds types locked now j hj available returned =>
    obtain ⟨i, hi, rfl⟩ := mem_update.1 hk
    by_cases hij : i.id = j.id
    · obtain rfl := hs.numbered.eq_of_id hi hj hij
      simp only [decide_true, if_true] at hid howner ⊢
      rcases mem_append.1 hc with hc | hc
      · -- an older claim of the same worker on the job is what `ClaimsAnew` excludes
        have hworker : c.loop.worker = loop.worker := (some.inj howner).symm
        refine absurd ?_ (hok c hc hworker)
        rw [returned]
        exact congrArg some hid
      · rw [mem_singleton.1 hc]
    · simp only [hij, decide_false] at hid howned ⊢
      rcases mem_append.1 hc with hc | hc
      · exact h c hc i hi howned
      · rw [mem_singleton.1 hc] at hid
        exact absurd hid hij
  | moved moves claims =>
    obtain ⟨i, hi, hik⟩ := moves.mem hk
    obtain ⟨hiclaimed, hiowner⟩ := hik.claimed hclaimed
    have hiid : k.id = i.id := congrArg Prod.fst hik.core
    rw [hik.attempts]
    exact h c (claims hc) i hi
      (owned_iff.2 ⟨hiid.symm.trans hid, hiclaimed, hiowner.symm.trans howner⟩)

theorem not_staleRefused_of_did (hs : s.Sound) (hok : ¬ ClaimsAnew a s) (hdid : s.Did a s') :
    ¬ s'.StaleRefused := by
  have hs' := hs.did hdid
  rw [staleRefused_iff hs'.numbered]
  clear hs'
  intro h
  cases hdid with
  | enqueued => exact hok trivial
  | @claimed loop seconds types locked now j hj available returned =>
    simp only [ClaimsAnew, returned, not_forall, not_not] at hok
    obtain ⟨c, hc, hworker, hid⟩ := hok
    have hid : j.id = c.job.id := some.inj hid
    have hle := h c (mem_append_left _ hc) (JobTable.lease loop.worker seconds now j)
      (mem_update.2 ⟨j, hj, by simp⟩) (owned_iff.2 ⟨hid, rfl, by rw [hworker]; rfl⟩)
    have hpast := (hs.past c hc).2 j hj hid
    simp only [JobTable.lease] at hle
    omega
  | moved _ _ anew => exact hok anew

theorem sound_empty : empty.Sound :=
  ⟨⟨nodup_nil, fun _ hj => absurd hj not_mem_nil⟩,
    fun _ hc => absurd hc not_mem_nil⟩

/-- Stale claims are refused as long as no worker claims a job again that it is still executing,
and no longer. -/
theorem staleRefused_iff_claimsAnew (concurrency : ℕ) (actions : List WorkerAction) :
    (workers concurrency).Along StaleRefused actions empty
      ↔ (workers concurrency).Meets ClaimsAnew actions empty :=
  Machine.along_iff_meets (fun _ _ _ hs h => hs.did (did_of_step hs.numbered h))
    (fun _ _ _ hs hP hok h => hP.did hs hok (did_of_step hs.numbered h))
    (fun _ _ _ hs _ hok h => not_staleRefused_of_did hs hok (did_of_step hs.numbered h))
    actions sound_empty fun _ hc => absurd hc not_mem_nil

/-- A loop stalls, its lease runs out and is reaped, and its sibling claims the job. -/
theorem stale_owner_sibling : ¬ (workers 2).Along StaleRefused
    [.enqueue .runDispatch (.ofRun 1 1) none 0 3, .claim ⟨"w", 0⟩ 60 [] [] 0, .reapBack 61,
      .claim ⟨"w", 1⟩ 60 [] [] 61] empty := by
  decide +kernel

end Workers

end Crewquarters
