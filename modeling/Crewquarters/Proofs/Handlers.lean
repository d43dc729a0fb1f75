import Crewquarters.Proofs.Gateway

/-!
# The gateway's handlers and their jobs

Every job is a load or an unload of one model under that model's key, one live job a key
(`ModelJobs`).
-/

namespace Crewquarters

open JobTable List

variable {type : JobType}

def modelKey : JobType → ModelId → DedupeKey
  | .modelUnload, modelId => .unload modelId
  | _, modelId => .load modelId

def Job.IsForModel (type : JobType) (modelId : ModelId) (j : Job) : Prop :=
  j.type = type ∧ j.payload = .ofModel modelId ∧ j.dedupeKey = some (modelKey type modelId)

theorem Job.IsForModel.of_core {modelId : ModelId} {j k : Job} (h : j.IsForModel type modelId)
    (hc : j.core = k.core) : k.IsForModel type modelId := by
  simp only [Job.core, Prod.mk.injEq] at hc
  obtain ⟨-, htype, hpayload, hkey⟩ := hc
  exact ⟨htype ▸ h.1, hpayload ▸ h.2.1, hkey ▸ h.2.2⟩

/-- Every job is for a model, and no two live ones for the same. -/
structure ModelJobs (t : JobTable) : Prop extends t.Numbered where
  shape : ∀ j ∈ t.rows, ∃ type ∈ Gateway.handledTypes, ∃ modelId, j.IsForModel type modelId
  deduped : t.Deduped

namespace ModelJobs

variable {t : JobTable} {p : Job → Bool} {f : Job → Job}

theorem update (h : ModelJobs t) (hf : ∀ j, (f j).core = j.core)
    (hlive : ∀ j ∈ t.rows, p j = true → (f j).live = true → j.live = true) :
    ModelJobs (t.update p f) := by
  have hc : (t.update p f).rows.map Job.core = t.rows.map Job.core := map_core_update hf
  refine ⟨h.toNumbered.of_core hc rfl, fun j hj => ?_, ?_⟩
  · obtain ⟨k, hk, hkj⟩ := core_of_mem hc hj
    obtain ⟨type, ht, modelId, hfor⟩ := h.shape k hk
    exact ⟨type, ht, modelId, hfor.of_core hkj⟩
  · refine h.deduped.update (fun j => ?_) hlive
    have hj := hf j
    simp only [Job.core, Prod.mk.injEq] at hj
    exact hj.2.2.2

theorem enqueue (h : ModelJobs t) (ht : type ∈ Gateway.handledTypes) (modelId : ModelId)
    (due : Time) (maxAttempts : ℕ) :
    ModelJobs (t.enqueue type (.ofModel modelId) (some (modelKey type modelId)) due
      maxAttempts).2 := by
  refine ⟨h.toNumbered.enqueue, fun j hj => ?_, h.deduped.enqueue⟩
  rcases mem_enqueue hj with hj | rfl
  · exact h.shape j hj
  · exact ⟨type, ht, modelId, rfl, rfl, rfl⟩

end ModelJobs

/-- Jobs were added, available ones only. -/
structure JobTable.Gains (t t' : JobTable) : Prop where
  rows : ∀ j ∈ t.rows, j ∈ t'.rows
  fresh : ∀ j ∈ t'.rows, j ∈ t.rows ∨ j.state = .available
  sound : ModelJobs t → ModelJobs t'

theorem JobTable.Gains.refl (t : JobTable) : t.Gains t :=
  ⟨fun _ h => h, fun _ h => .inl h, fun h => h⟩

theorem JobTable.Gains.trans {t t' t'' : JobTable} (h : t.Gains t') (h' : t'.Gains t'') :
    t.Gains t'' :=
  ⟨fun j hj => h'.rows j (h.rows j hj), fun j hj => (h'.fresh j hj).elim (h.fresh j) .inr,
    fun hs => h'.sound (h.sound hs)⟩

theorem ModelJobs.gains (t : JobTable) (ht : type ∈ Gateway.handledTypes) (modelId : ModelId)
    (due : Time) (maxAttempts : ℕ) :
    t.Gains (t.enqueue type (.ofModel modelId) (some (modelKey type modelId)) due
      maxAttempts).2 := by
  refine ⟨fun j hj => mem_enqueue_of_mem hj, fun j hj => ?_, fun h =>
    h.enqueue ht modelId due maxAttempts⟩
  rcases mem_enqueue hj with hj | rfl
  · exact .inl hj
  · exact .inr rfl

namespace GatewayDb

variable {settings : GatewaySettings} {allowed : DedupeKey → Prop} {db db' : GatewayDb}
  {modelId : ModelId}

theorem enqueueLoad_gains (db : GatewayDb) (due : Time) (modelId : ModelId) :
    db.jobs.Gains (db.enqueueLoad due modelId).jobs := by
  have ht : JobType.modelLoad ∈ Gateway.handledTypes := by simp [Gateway.handledTypes]
  exact ModelJobs.gains db.jobs ht modelId due 1

theorem enqueueUnload_gains (db : GatewayDb) (due : Time) (modelId : ModelId) :
    db.jobs.Gains (db.enqueueUnload due modelId).jobs := by
  have ht : JobType.modelUnload ∈ Gateway.handledTypes := by simp [Gateway.handledTypes]
  exact ModelJobs.gains db.jobs ht modelId due 3

theorem Shift.gains (h : Shift settings allowed db db') : db.jobs.Gains db'.jobs := by
  cases h with
  | lease _ jobs | release _ jobs => exact jobs ▸ .refl _
  | files | change => exact .refl _
  | load => exact enqueueLoad_gains (db.setInst _ _) _ _
  | drain => exact enqueueUnload_gains (db.setInst _ _) _ _
  | requeue modelId => exact enqueueUnload_gains db _ modelId

theorem Shifts.gains (h : Shifts settings allowed db db') : db.jobs.Gains db'.jobs := by
  induction h with
  | refl => exact .refl _
  | tail _ hs ih => exact ih.trans hs.gains

theorem unloadFinish_gains {now due : Time} {report : Json}
    (h : db.unloadFinish now due report modelId = .ok db') : db.jobs.Gains db'.jobs := by
  obtain ⟨m, -, ⟨-, rfl⟩ | ⟨-, -, -, i, -, -, -, rfl⟩ | ⟨-, -, i, -, -, -, rfl⟩⟩ :=
    unloadFinish_cases h
  · exact .refl _
  · exact enqueueLoad_gains (db.setInst m i) due modelId
  · exact .refl _

theorem map_id_setInst (m : Model) (i : ModelInstance) :
    (db.setInst m i).models.map Model.id = db.models.map Model.id :=
  Table.map_key_put _ _

theorem Shift.map_id (h : Shift settings allowed db db') :
    db'.models.map Model.id = db.models.map Model.id := by
  cases h with
  | lease models => rw [models]
  | release models => rw [models]
  | files => exact Table.map_key_put _ _
  | change | load | drain => exact map_id_setInst _ _
  | requeue => rfl

theorem Shifts.map_id (h : Shifts settings allowed db db') :
    db'.models.map Model.id = db.models.map Model.id := by
  induction h with
  | refl => rfl
  | tail _ hs ih => exact hs.map_id.trans ih

theorem unloadFinish_map_id {now due : Time} {report : Json}
    (h : db.unloadFinish now due report modelId = .ok db') :
    db'.models.map Model.id = db.models.map Model.id := by
  obtain ⟨m, -, ⟨-, rfl⟩ | ⟨-, -, -, i, -, -, -, rfl⟩ | ⟨-, -, i, -, -, -, rfl⟩⟩ :=
    unloadFinish_cases h
  · rfl
  · exact map_id_setInst m i
  · exact map_id_setInst m i

end GatewayDb

/-- The row is the handler's job, perhaps claimed again since; while it is claimed, the handler's
worker owns it exactly if it was not. -/
structure GatewayHandler.Has (h : GatewayHandler) (j : Job) : Prop where
  core : j.core = h.job.core
  attempts : h.job.attempts ≤ j.attempts
  owner : j.state = .claimed → (j.attempts = h.job.attempts ↔ j.leaseOwner = some h.worker)

namespace Gateway

/-- Handlers and the jobs they run. -/
structure Sound (s : Gateway) : Prop where
  models : (s.db.models.map Model.id).Nodup
  jobs : ModelJobs s.db.jobs
  handlerIds : (s.handlers.map GatewayHandler.id).Nodup
  handlerBound : ∀ h ∈ s.handlers, h.id < s.nextHandler
  rows : ∀ h ∈ s.handlers, ∃ j ∈ s.db.jobs.rows, h.Has j
  /-- a claim has one handler -/
  claims : ∀ h ∈ s.handlers, ∀ k ∈ s.handlers, h.job.id = k.job.id →
    h.job.attempts = k.job.attempts → h = k
  /-- a worker runs one job at a time -/
  workers : ∀ h ∈ s.handlers, ∀ k ∈ s.handlers, h.worker = k.worker → h = k
  kinds : ∀ h ∈ s.handlers, ∀ type, h.pc.kind = some type → h.job.type = type

variable {settings : GatewaySettings} {allowed : DedupeKey → Prop} {s t : Gateway}
  {a : GatewayAction} {h : GatewayHandler}

namespace Sound

section

variable (hs : Sound s)
include hs

theorem has_row (hh : h ∈ s.handlers) {j : Job} (hj : j ∈ s.db.jobs.rows) (hid : j.id = h.job.id) :
    h.Has j := by
  obtain ⟨k, hk, hhas⟩ := hs.rows h hh
  have hkid : k.id = h.job.id := congrArg Prod.fst hhas.core
  rwa [hs.jobs.toNumbered.eq_of_id hj hk (hid.trans hkid.symm)]

theorem setDb {db : GatewayDb} (hg : s.db.jobs.Gains db.jobs)
    (hid : db.models.map Model.id = s.db.models.map Model.id) : Sound (s.setDb db) where
  models := by
    have hmodels := hs.models
    rw [← hid] at hmodels
    exact hmodels
  jobs := hg.sound hs.jobs
  handlerIds := hs.handlerIds
  handlerBound := hs.handlerBound
  rows := fun h hh => by
    obtain ⟨j, hj, hhas⟩ := hs.rows h hh
    exact ⟨j, hg.rows j hj, hhas⟩
  claims := hs.claims
  workers := hs.workers
  kinds := hs.kinds

theorem shifts {db : GatewayDb} (h : GatewayDb.Shifts settings allowed s.db db) :
    Sound (s.setDb db) :=
  hs.setDb h.gains h.map_id

theorem goto (hh : h ∈ s.handlers) {pc : GatewayPc}
    (hkind : ∀ type, pc.kind = some type → h.job.type = type) : Sound (s.goto h pc) := by
  have hmem : ∀ k ∈ (s.goto h pc).handlers, k = { h with pc } ∨ (k ∈ s.handlers ∧ k.id ≠ h.id) :=
    fun k hk => Table.mem_put hk
  have hother : ∀ k ∈ s.handlers, k.id ≠ h.id → k ≠ h := fun k _ hid hk => hid (congrArg _ hk)
  refine ⟨hs.models, hs.jobs, ?_, fun k hk => ?_, fun k hk => ?_, ?_, ?_, fun k hk => ?_⟩
  · rw [Gateway.goto, Table.map_key_put]
    exact hs.handlerIds
  · rcases hmem k hk with rfl | ⟨hk, -⟩
    · exact hs.handlerBound h hh
    · exact hs.handlerBound k hk
  · rcases hmem k hk with rfl | ⟨hk, -⟩
    · obtain ⟨j, hj, hhas⟩ := hs.rows h hh
      exact ⟨j, hj, hhas.core, hhas.attempts, hhas.owner⟩
    · exact hs.rows k hk
  · intro k hk l hl hid hatt
    rcases hmem k hk with rfl | ⟨hk, hkid⟩ <;> rcases hmem l hl with rfl | ⟨hl, hlid⟩
    · rfl
    · exact absurd (hs.claims h hh l hl hid hatt).symm (hother l hl hlid)
    · exact absurd (hs.claims k hk h hh hid hatt) (hother k hk hkid)
    · exact hs.claims k hk l hl hid hatt
  · intro k hk l hl hworker
    rcases hmem k hk with rfl | ⟨hk, hkid⟩ <;> rcases hmem l hl with rfl | ⟨hl, hlid⟩
    · rfl
    · exact absurd (hs.workers h hh l hl hworker).symm (hother l hl hlid)
    · exact absurd (hs.workers k hk h hh hworker) (hother k hk hkid)
    · exact hs.workers k hk l hl hworker
  · rcases hmem k hk with rfl | ⟨hk, -⟩
    · exact hkind
    · exact hs.kinds k hk

theorem drop : Sound (s.drop h) := by
  have hmem : ∀ k ∈ (s.drop h).handlers, k ∈ s.handlers := fun k hk => (mem_filter.1 hk).1
  exact ⟨hs.models, hs.jobs, hs.handlerIds.sublist ((filter_sublist).map _),
    fun k hk => hs.handlerBound k (hmem k hk), fun k hk => hs.rows k (hmem k hk),
    fun k hk l hl => hs.claims k (hmem k hk) l (hmem l hl),
    fun k hk l hl => hs.workers k (hmem k hk) l (hmem l hl), fun k hk => hs.kinds k (hmem k hk)⟩

theorem update {p : Job → Bool} {f : Job → Job} (hf : ∀ j, (f j).core = j.core)
    (hattempts : ∀ j, (f j).attempts = j.attempts)
    (howner : ∀ j, (f j).state = .claimed → j.state = .claimed ∧ (f j).leaseOwner = j.leaseOwner)
    (hlive : ∀ j ∈ s.db.jobs.rows, p j = true → (f j).live = true → j.live = true) :
    Sound (s.setJobs (s.db.jobs.update p f)) := by
  refine ⟨hs.models, hs.jobs.update hf hlive, hs.handlerIds, hs.handlerBound, fun k hk => ?_,
    hs.claims, hs.workers, hs.kinds⟩
  obtain ⟨j, hj, hhas⟩ := hs.rows k hk
  refine ⟨_, mem_update.2 ⟨j, hj, rfl⟩, ?_⟩
  split_ifs
  · refine ⟨(hf j).trans hhas.core, (hattempts j).symm ▸ hhas.attempts, fun hclaimed => ?_⟩
    obtain ⟨hstate, hsame⟩ := howner j hclaimed
    rw [hattempts j, hsame]
    exact hhas.owner hstate
  · exact hhas

theorem endAs (p : Job → Bool) {state : JobState} (now : Time)
    (hstate : state = .succeeded ∨ state = .dead) :
    Sound (s.setJobs (s.db.jobs.update p (JobTable.endAs state now))) := by
  refine hs.update (fun _ => rfl) (fun _ => rfl) (fun j hj => ?_) fun j _ _ hl => ?_
  · rcases hstate with rfl | rfl <;> exact absurd hj (by simp [JobTable.endAs])
  · rcases hstate with rfl | rfl <;> exact absurd hl (by simp [JobTable.endAs, Job.live])

theorem fail {random : ℚ} {now : Time} :
    Sound (s.setJobs (s.db.jobs.fail h.job.id h.worker true random now).2) := by
  cases hfail : s.db.jobs.fail h.job.id h.worker true random now
  rcases fail_cases hfail with
    ⟨-, rfl, -⟩ | ⟨j, hj, howned, ⟨-, -, due, rfl⟩ | ⟨-, -, rfl⟩⟩
  · exact hs
  · refine hs.update (fun _ => rfl) (fun _ => rfl)
      (fun k hk => absurd hk (by simp [JobTable.requeue])) fun k hk hid _ => ?_
    obtain ⟨hjid, hclaimed, -⟩ := owned_iff.1 howned
    have hkj : k = j := hs.jobs.toNumbered.eq_of_id hk hj ((of_decide_eq_true hid).trans hjid.symm)
    simp [hkj, Job.live, hclaimed]
  · exact hs.endAs _ now (.inr rfl)

theorem claimed {worker : WorkerId} {now : Time} {j : Job}
    (hidle : ∀ h ∈ s.handlers, h.worker ≠ worker) (hj : j ∈ s.db.jobs.rows)
    (havailable : j.state = .available) : Sound (s.claimed settings worker now j) := by
  -- an older handler's claim of the same job is not the last one any more
  have hrow : ∀ k ∈ s.handlers, ∀ i ∈ s.db.jobs.rows, k.Has i →
      k.Has (if i.id = j.id then JobTable.lease worker settings.jobLeaseSeconds now i else i) := by
    intro k hk i hi hhas
    split_ifs
    · refine ⟨hhas.core, hhas.attempts.trans (Nat.le_succ _), fun _ => ?_⟩
      have hatt := hhas.attempts
      have hne := hidle k hk
      simp only [JobTable.lease, Option.some.injEq]
      constructor
      · intro heq
        omega
      · exact fun heq => absurd heq.symm hne
    · exact hhas
  have hnew : ∀ k ∈ s.handlers, k.job.id = j.id → k.job.attempts ≠ j.attempts + 1 := by
    intro k hk hid heq
    have hatt := (hs.has_row hk hj hid.symm).attempts
    omega
  refine ⟨hs.models, hs.jobs.update (fun _ => rfl) ?_, ?_, ?_, ?_, ?_, ?_, ?_⟩
  · intro i hi hid _
    have hij : i = j := hs.jobs.toNumbered.eq_of_id hi hj (of_decide_eq_true hid)
    simp [hij, Job.live, havailable]
  · rw [Gateway.claimed, map_append, nodup_append]
    refine ⟨hs.handlerIds, by simp, fun x hx y hy => ?_⟩
    obtain ⟨k, hk, rfl⟩ := mem_map.1 hx
    simp only [map_cons, map_nil, mem_singleton] at hy
    exact hy ▸ (hs.handlerBound k hk).ne
  · intro k hk
    rcases mem_append.1 hk with hk | hk
    · exact (hs.handlerBound k hk).trans (Nat.lt_succ_self _)
    · rw [mem_singleton.1 hk]
      exact Nat.lt_succ_self _
  · intro k hk
    rcases mem_append.1 hk with hk | hk
    · obtain ⟨i, hi, hhas⟩ := hs.rows k hk
      refine ⟨_, mem_update.2 ⟨i, hi, rfl⟩, ?_⟩
      simpa using hrow k hk i hi hhas
    · refine ⟨_, mem_update.2 ⟨j, hj, rfl⟩, ?_⟩
      rw [mem_singleton.1 hk, if_pos (by simp)]
      exact ⟨rfl, le_rfl, fun _ => by simp [JobTable.lease]⟩
  · intro k hk l hl hid hatt
    rcases mem_append.1 hk with hk | hk <;> rcases mem_append.1 hl with hl | hl
    · exact hs.claims k hk l hl hid hatt
    · rw [mem_singleton.1 hl] at hid hatt
      exact absurd hatt (hnew k hk hid)
    · rw [mem_singleton.1 hk] at hid hatt
      exact absurd hatt.symm (hnew l hl hid.symm)
    · rw [mem_singleton.1 hk, mem_singleton.1 hl]
  · intro k hk l hl hworker
    rcases mem_append.1 hk with hk | hk <;> rcases mem_append.1 hl with hl | hl
    · exact hs.workers k hk l hl hworker
    · rw [mem_singleton.1 hl] at hworker
      exact absurd hworker (hidle k hk)
    · rw [mem_singleton.1 hk] at hworker
      exact absurd hworker.symm (hidle l hl)
    · rw [mem_singleton.1 hk, mem_singleton.1 hl]
  · intro k hk type hkind
    rcases mem_append.1 hk with hk | hk
    · exact hs.kinds k hk type hkind
    · rw [mem_singleton.1 hk] at hkind
      exact absurd hkind (by simp [GatewayPc.kind])

theorem did (hdid : Did settings allowed s a t) : Sound t := by
  cases hdid with
  | commit shifts => exact hs.shifts shifts
  | claim idle row available => exact hs.claimed idle row available
  | work handler next kind shifts =>
    refine (hs.shifts shifts).goto handler fun type htype => ?_
    rcases kind with hnone | hsame | ⟨hload, hjob⟩
    · rw [hnone] at htype
      exact absurd htype nofun
    · exact hs.kinds _ handler type (hsame ▸ htype)
    · rw [hload, Option.some.injEq] at htype
      exact htype ▸ hjob
  | loaded handler payload type shifts => exact (hs.shifts shifts).goto handler nofun
  | unloadBegin handler payload type start began =>
    have hshifts : GatewayDb.Shifts settings allowed s.db _ := GatewayDb.unloadBegin_shifts began
    refine (hs.shifts hshifts).goto handler fun type' htype' => ?_
    split_ifs at htype'
    · exact absurd htype' nofun
    · exact type.trans (Option.some.inj htype')
  | unloadFinish handler payload pc finished =>
    exact (hs.setDb (GatewayDb.unloadFinish_gains finished)
      (GatewayDb.unloadFinish_map_id finished)).goto handler nofun
  | complete => exact (hs.endAs _ _ (.inl rfl)).drop
  | fail => exact hs.fail.drop
  | lost => exact hs.drop
  | keepLease =>
    exact hs.update (fun _ => rfl) (fun _ => rfl) (fun j hj => ⟨hj, rfl⟩) fun j _ _ hl => hl
  | reapJobs =>
    refine hs.update (reaped_core _) (fun j => ?_) (fun j hj => ?_) fun j _ hexpired _ => ?_
    · unfold JobTable.reaped
      split_ifs <;> rfl
    · unfold JobTable.reaped at hj
      split_ifs at hj <;> exact absurd hj (by simp [JobTable.endAs, JobTable.requeue])
    · simp only [JobTable.expired, Bool.and_eq_true, decide_eq_true_eq] at hexpired
      simp [Job.live, hexpired.1]

end

theorem init {models : List Model} (hids : (models.map Model.id).Nodup) :
    Sound (Gateway.init models) where
  models := hids
  jobs := ⟨⟨by simp [Gateway.init], by simp [Gateway.init]⟩, by simp [Gateway.init],
    by simp [Gateway.init, JobTable.Deduped]⟩
  handlerIds := by simp [Gateway.init]
  handlerBound := by simp [Gateway.init]
  rows := by simp [Gateway.init]
  claims := by simp [Gateway.init]
  workers := by simp [Gateway.init]
  kinds := by simp [Gateway.init]

end Sound

end Gateway

end Crewquarters
