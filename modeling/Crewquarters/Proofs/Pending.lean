import Crewquarters.Proofs.Leases

/-!
# Every pending model has a worker

A model that is loading or draining waits for a job. The job may be claimed by a handler that did
its last transaction already, and an enqueue in that window does nothing: the model is then left
without a worker.
-/

namespace Crewquarters

open List Option JobTable Table GatewayDb DedupeKey

variable {key : DedupeKey} {modelId : ModelId}

def DedupeKey.awaited : DedupeKey → Option (ModelId × InstanceState)
  | .load modelId => some (modelId, .loading)
  | .unload modelId => some (modelId, .draining)
  | _ => none

def GatewayDb.pendingOn (key : DedupeKey) (db : GatewayDb) : Bool :=
  key.awaited.any fun (modelId, state) =>
    (Table.get Model.id modelId db.models).any fun m => m.inst.state = state

def GatewayDb.pendingJob (j : Job) (db : GatewayDb) : Bool := j.dedupeKey.any (db.pendingOn ·)

/-- The handler's claim is the job's last one, and the handler is not done with the instance. -/
def GatewayHandler.worksOn (j : Job) (h : GatewayHandler) : Bool :=
  h.job.id = j.id && h.job.attempts = j.attempts && !h.pc.finished

theorem DedupeKey.awaited_loading (h : key.awaited = some (modelId, .loading)) :
    key = .load modelId := by
  cases key <;> simp_all [DedupeKey.awaited]

theorem DedupeKey.awaited_draining (h : key.awaited = some (modelId, .draining)) :
    key = .unload modelId := by
  cases key <;> simp_all [DedupeKey.awaited]

theorem DedupeKey.awaited_state {state : InstanceState} (h : key.awaited = some (modelId, state)) :
    state = .loading ∨ state = .draining := by
  cases key <;> simp_all [DedupeKey.awaited]

theorem GatewayDb.pendingOn_iff {db : GatewayDb} : db.pendingOn key = true
    ↔ ∃ modelId state m, key.awaited = some (modelId, state)
      ∧ Table.get Model.id modelId db.models = some m ∧ m.inst.state = state := by
  simp [GatewayDb.pendingOn, Option.any_eq_true]

namespace Gateway

def attended (j : Job) (s : Gateway) : Bool :=
  j.state = .available || (j.state = .claimed && s.handlers.any (·.worksOn j))

def hasWorker (key : DedupeKey) (s : Gateway) : Bool :=
  s.db.jobs.rows.any fun j => j.dedupeKey = some key && s.attended j

def blocked (key : DedupeKey) (s : Gateway) : Bool :=
  s.db.jobs.rows.any fun j =>
    j.dedupeKey = some key && (j.state = .claimed && !s.handlers.any (·.worksOn j))

/-- A model that is loading or draining has a worker to finish it. -/
def Attended (s : Gateway) : Prop :=
  ∀ m ∈ s.db.models, (m.inst.state = .loading → s.hasWorker (.load m.id) = true)
    ∧ (m.inst.state = .draining → s.hasWorker (.unload m.id) = true)

instance : DecidablePred Attended := fun s =>
  inferInstanceAs (Decidable (∀ m ∈ s.db.models, _ ∧ _))

def isRaised : GatewayPc → Bool
  | .raised => true
  | _ => false

def putsBack (clk : ℕ → Time) (random : ℚ) : Reply → GatewayHandler → Gateway → Bool
  | .value _ _ _, h, s =>
    (s.db.jobs.fail h.job.id h.worker true random (clk 0)).1 ≠ some .dead
  | _, _, _ => false

/-- No job that a model waits for ends, or loses its handler, before its handler is done. -/
def losesNone : GatewayAction → Gateway → Bool
  | .crash _, _ => false
  | .advance id clk random reply, s => (s.getHandler id).all fun h =>
    !(isRaised h.pc && s.db.pendingJob h.job) || putsBack clk random reply h s
  | .reapJobs now, s => s.db.jobs.rows.all fun j => !(j.spent now && s.db.pendingJob j)
  | _, _ => true

/-- No load or drain begins while its job is claimed by a handler that is done. -/
def Timely (settings : GatewaySettings) (a : GatewayAction) (s : Gateway) : Prop :=
  (∀ key ∈ starts settings a s, s.blocked key = false) ∧ losesNone a s = true

instance (settings : GatewaySettings) (a : GatewayAction) (s : Gateway) :
    Decidable (Timely settings a s) :=
  inferInstanceAs (Decidable (_ ∧ _))

variable {settings : GatewaySettings} {allowed : DedupeKey → Prop} {s t : Gateway}
  {a : GatewayAction} {h : GatewayHandler} {key : DedupeKey}
variable {j : Job} {db db' : GatewayDb} {modelId : ModelId}

theorem worksOn_iff : h.worksOn j = true
    ↔ h.job.id = j.id ∧ h.job.attempts = j.attempts ∧ h.pc.finished = false := by
  simp [GatewayHandler.worksOn, and_assoc]

theorem attended_iff : s.attended j = true
    ↔ j.state = .available ∨ (j.state = .claimed ∧ ∃ h ∈ s.handlers, h.worksOn j = true) := by
  simp [attended]

theorem hasWorker_iff : s.hasWorker key = true
    ↔ ∃ j ∈ s.db.jobs.rows, j.dedupeKey = some key ∧ s.attended j = true := by
  simp [hasWorker]

theorem hasWorker_of_live (hlive : s.db.jobs.hasLive key = true) (hb : s.blocked key = false) :
    s.hasWorker key = true := by
  obtain ⟨j, hj, hkey, hl⟩ := hasLive_iff.1 hlive
  refine hasWorker_iff.2 ⟨j, hj, hkey, attended_iff.2 ?_⟩
  simp only [Job.live, Bool.or_eq_true, decide_eq_true_eq] at hl
  refine hl.imp_right fun hclaimed => ⟨hclaimed, ?_⟩
  simp only [blocked, List.any_eq_false, Bool.and_eq_true, decide_eq_true_eq, not_and] at hb
  simpa using hb j hj hkey hclaimed

def Served (s : Gateway) : Prop := ∀ key, s.db.pendingOn key = true → s.hasWorker key = true

theorem Served.attended (hp : Served s) (hs : Sound s) : Attended s := by
  intro m hm
  have hget : Table.get Model.id m.id s.db.models = some m := get_of_mem hs.models hm
  exact ⟨fun hstate => hp (.load m.id) (pendingOn_iff.2 ⟨_, _, m, rfl, hget, hstate⟩),
    fun hstate => hp (.unload m.id) (pendingOn_iff.2 ⟨_, _, m, rfl, hget, hstate⟩)⟩

theorem hasWorker_gains (hw : s.hasWorker key = true) (hg : s.db.jobs.Gains db.jobs) :
    (s.setDb db).hasWorker key = true := by
  obtain ⟨j, hj, hkey, hatt⟩ := hasWorker_iff.1 hw
  exact hasWorker_iff.2 ⟨j, hg.rows j hj, hkey, hatt⟩

theorem blocked_gains (hb : s.blocked key = false) (hg : s.db.jobs.Gains db.jobs) :
    (s.setDb db).blocked key = false := by
  simp only [blocked, List.any_eq_false] at hb ⊢
  intro j hj
  rcases hg.fresh j hj with hj | havailable
  · exact hb j hj
  · simp [havailable]

theorem pendingOn_shift (hs : GatewayDb.Shift settings allowed db db')
    (hp : db'.pendingOn key = true) :
    db.pendingOn key = true ∨ (allowed key ∧ db'.jobs.hasLive key = true) := by
  obtain ⟨modelId, state, m', hkey, hm', hstate⟩ := pendingOn_iff.1 hp
  obtain ⟨m, hm, -, hstep⟩ := hs.row hm'
  have hwas : m.inst.state = m'.inst.state → db.pendingOn key = true := fun h =>
    pendingOn_iff.2 ⟨modelId, state, m, hkey, hm, h.trans hstate⟩
  rw [← hstate] at hkey
  have hwaits := awaited_state hkey
  cases hstep with
  | same same => exact .inl (hwas (by rw [same]))
  | change change =>
    cases change with
    | touch state => exact .inl (hwas state.symm)
    | stop source _ state => exact .inl (hwas (source.trans state.symm))
    | revive _ _ state | ready _ state => rw [state] at hwaits; exact absurd hwaits (by simp)
    | free _ state =>
      rcases hwaits with hwaits | hwaits <;> rw [hwaits] at state <;> exact absurd state nofun
  | load _ state _ allow live =>
    rw [state] at hkey
    rw [awaited_loading hkey]
    exact .inr ⟨allow, live⟩
  | drain _ _ state _ allow live =>
    rw [state] at hkey
    rw [awaited_draining hkey]
    exact .inr ⟨allow, live⟩

theorem Served.shifts (hp : Served s) (hallowed : ∀ key, allowed key → s.blocked key = false)
    (hs : GatewayDb.Shifts settings allowed s.db db) : Served (s.setDb db) := by
  induction hs with
  | refl => exact hp
  | @tail db₁ db₂ hbefore hshift ih =>
    have hgains : s.db.jobs.Gains db₁.jobs := GatewayDb.Shifts.gains hbefore
    intro key hpending
    rcases pendingOn_shift hshift hpending with hbefore' | ⟨hkey, hlive⟩
    · exact hasWorker_gains (s := s.setDb db₁) (ih key hbefore') hshift.gains
    · exact hasWorker_of_live hlive
        (blocked_gains (hallowed key hkey) (hgains.trans hshift.gains))

theorem Sound.key_of_row (hs : Sound s) (hh : h ∈ s.handlers) (hj : j ∈ s.db.jobs.rows)
    (hid : j.id = h.job.id) : j.dedupeKey = h.job.dedupeKey := by
  have hcore := (hs.has_row hh hj hid).core
  simp only [Job.core, Prod.mk.injEq] at hcore
  exact hcore.2.2.2

theorem Sound.key_eq (hs : Sound s) (hh : h ∈ s.handlers)
    (hpayload : h.job.payload.modelId = some modelId) :
    h.job.dedupeKey = some (modelKey h.job.type modelId) := by
  obtain ⟨j, hj, hhas⟩ := hs.rows h hh
  obtain ⟨type, -, id, hfor⟩ := hs.jobs.shape j hj
  obtain ⟨htype, hpay, hkey⟩ := hfor.of_core hhas.core
  rw [hpay] at hpayload
  obtain rfl : id = modelId := some.inj hpayload
  rw [hkey, htype]

theorem hasWorker_goto (hw : s.hasWorker key = true) (hs : Sound s) (hh : h ∈ s.handlers)
    {pc : GatewayPc} (hpc : pc.finished = true → h.job.dedupeKey ≠ some key) :
    (s.goto h pc).hasWorker key = true := by
  obtain ⟨j, hj, hkey, hatt⟩ := hasWorker_iff.1 hw
  refine hasWorker_iff.2 ⟨j, hj, hkey, attended_iff.2 ?_⟩
  refine (attended_iff.1 hatt).imp_right fun ⟨hclaimed, k, hk, hworks⟩ => ⟨hclaimed, ?_⟩
  obtain ⟨hid, hattempts, hfinished⟩ := worksOn_iff.1 hworks
  by_cases hkh : k.id = h.id
  · obtain rfl : k = h := inj_on_of_nodup_map hs.handlerIds hk hh hkh
    refine ⟨{ k with pc }, mem_put_self hk rfl, worksOn_iff.2 ⟨hid, hattempts, ?_⟩⟩
    by_contra hdone
    exact hpc (by simpa using hdone) ((hs.key_of_row hk hj hid.symm).symm.trans hkey)
  · exact ⟨k, mem_put_of_mem hk hkh, hworks⟩

theorem hasWorker_drop (hw : s.hasWorker key = true)
    (hh : ∀ j ∈ s.db.jobs.rows, j.dedupeKey = some key → j.state = .claimed →
      ∀ k ∈ s.handlers, k.worksOn j = true → k.id ≠ h.id) :
    (s.drop h).hasWorker key = true := by
  obtain ⟨j, hj, hkey, hatt⟩ := hasWorker_iff.1 hw
  refine hasWorker_iff.2 ⟨j, hj, hkey, attended_iff.2 ?_⟩
  refine (attended_iff.1 hatt).imp_right fun ⟨hclaimed, k, hk, hworks⟩ => ⟨hclaimed, k, ?_, hworks⟩
  exact mem_filter.2 ⟨hk, by simpa using hh j hj hkey hclaimed k hk hworks⟩

theorem hasWorker_update {p : Job → Bool} {f : Job → Job} (hw : s.hasWorker key = true)
    (hf : ∀ j, (f j).core = j.core)
    (hp : ∀ j ∈ s.db.jobs.rows, j.dedupeKey = some key → s.attended j = true → p j = true →
      s.attended (f j) = true) :
    (s.setJobs (s.db.jobs.update p f)).hasWorker key = true := by
  obtain ⟨j, hj, hkey, hatt⟩ := hasWorker_iff.1 hw
  refine hasWorker_iff.2 ⟨_, mem_update.2 ⟨j, hj, rfl⟩, ?_, ?_⟩
  · split_ifs
    · have hcore := hf j
      simp only [Job.core, Prod.mk.injEq] at hcore
      exact hcore.2.2.2.trans hkey
    · exact hkey
  · split_ifs with hpj
    · exact hp j hj hkey hatt hpj
    · exact hatt

theorem Sound.owned_of_works (hs : Sound s) (hh : h ∈ s.handlers) (hj : j ∈ s.db.jobs.rows)
    (hclaimed : j.state = .claimed) (hworks : h.worksOn j = true) :
    JobTable.owned h.job.id h.worker j = true := by
  obtain ⟨hid, hattempts, -⟩ := worksOn_iff.1 hworks
  have howner := ((hs.has_row hh hj hid.symm).owner hclaimed).1 hattempts.symm
  exact owned_iff.2 ⟨hid.symm, hclaimed, howner⟩

theorem Sound.eq_of_owned (hs : Sound s) {k : GatewayHandler} (hh : h ∈ s.handlers)
    (hk : k ∈ s.handlers) (hj : j ∈ s.db.jobs.rows)
    (howned : JobTable.owned h.job.id h.worker j = true) (hworks : k.worksOn j = true) : k = h := by
  obtain ⟨hid, hclaimed, howner⟩ := owned_iff.1 howned
  obtain ⟨hkid, hkattempts, -⟩ := worksOn_iff.1 hworks
  have hattempts := ((hs.has_row hh hj hid).owner hclaimed).2 howner
  exact hs.claims k hk h hh (hkid.trans hid) (hkattempts.trans hattempts)

theorem not_pendingOn_unload {m : Model} (hm : Table.get Model.id modelId db.models = some m)
    (hstate : m.inst.state ≠ .draining) : db.pendingOn (.unload modelId) = false := by
  by_contra hp
  obtain ⟨id, state, k, hkey, hk, hkstate⟩ := pendingOn_iff.1 (by simpa using hp)
  obtain ⟨rfl, rfl⟩ : modelId = id ∧ InstanceState.draining = state := by
    simpa [DedupeKey.awaited] using hkey
  obtain rfl : k = m := some.inj (hk.symm.trans hm)
  exact hstate hkstate

theorem unloadBegin_settled (h : db.unloadBegin modelId = .ok (none, db')) :
    db'.pendingOn (.unload modelId) = false := by
  obtain ⟨m, hm, ⟨hstate, -, rfl⟩ | ⟨-, -, -, -, rfl⟩ | ⟨-, -, hr, -⟩ | ⟨-, -, -, hr, -⟩⟩ :=
    unloadBegin_cases h
  · exact not_pendingOn_unload hm hstate
  · exact not_pendingOn_unload (get_setInst_self hm) nofun
  · exact absurd hr nofun
  · exact absurd hr nofun

theorem pendingOn_unloadFinish {now due : Time} {report : Json}
    (h : db.unloadFinish now due report modelId = .ok db') (hp : db'.pendingOn key = true) :
    key ≠ .unload modelId ∧ (db.pendingOn key = true
      ∨ (key = .load modelId ∧ reloads report modelId db = true
        ∧ db'.jobs.hasLive key = true)) := by
  obtain ⟨id, state, m', hkey, hm', hstate⟩ := pendingOn_iff.1 hp
  by_cases hid : id = modelId
  · subst hid
    have hne : m'.inst.state ≠ .draining → key ≠ .unload id := by
      rintro hnot rfl
      exact absurd hp (by rw [not_pendingOn_unload hm' hnot]; exact Bool.false_ne_true)
    obtain ⟨m, hm, ⟨hnot, rfl⟩ | ⟨hdraining, hremoved, hleased, i, hi, -, -, rfl⟩
      | ⟨-, -, i, hi, -, -, rfl⟩⟩ := unloadFinish_cases h
    · obtain rfl : m' = m := some.inj (hm'.symm.trans hm)
      exact ⟨hne hnot, .inl hp⟩
    · have hrow : m'.inst.state = .loading := by
        have hset : Table.get Model.id id (db.setInst m i).models = some m' := hm'
        rw [get_setInst_self hm, some.injEq] at hset
        rw [← hset]
        exact hi
      rw [← hstate, hrow] at hkey
      obtain rfl := awaited_loading hkey
      refine ⟨(fun h => by cases h), .inr ⟨rfl, ?_, hasLive_enqueueLoad ..⟩⟩
      simp [reloads, hremoved, hleased, hm, hdraining]
    · have hrow : m'.inst.state.resident = false := by
        rw [get_setInst_self hm, some.injEq] at hm'
        rw [← hm']
        exact hi
      rcases awaited_state hkey with rfl | rfl <;> rw [hstate] at hrow <;>
        cases hrow
  · rw [unloadFinish_other h hid] at hm'
    refine ⟨?_, .inl (pendingOn_iff.2 ⟨id, state, m', hkey, hm', hstate⟩)⟩
    rintro rfl
    simp only [DedupeKey.awaited, some.injEq, Prod.mk.injEq] at hkey
    exact hid hkey.1.symm

theorem Served.returned (hp : Served s) (hs : Sound s) (hh : h ∈ s.handlers) {key : DedupeKey}
    (hjob : h.job.dedupeKey = some key) (hdone : s.db.pendingOn key = false) :
    Served (s.goto h .returned) := by
  intro k hk
  refine hasWorker_goto (hp k hk) hs hh fun _ heq => ?_
  rw [hjob, some.injEq] at heq
  rw [← heq] at hk
  exact absurd (hdone.symm.trans hk) Bool.false_ne_true

theorem Served.goto (hp : Served s) (hs : Sound s) (hh : h ∈ s.handlers) {pc : GatewayPc}
    (hpc : pc.finished = false) : Served (s.goto h pc) :=
  fun k hk => hasWorker_goto (hp k hk) hs hh fun hdone => by
    rw [hpc] at hdone
    exact absurd hdone Bool.false_ne_true

theorem Sound.ne_of_finished (hs : Sound s) (hh : h ∈ s.handlers) (hdone : h.pc.finished = true)
    {k : GatewayHandler} (hk : k ∈ s.handlers) (hworks : k.worksOn j = true) : k.id ≠ h.id := by
  intro hid
  obtain rfl : k = h := inj_on_of_nodup_map hs.handlerIds hk hh hid
  obtain ⟨-, -, hfinished⟩ := worksOn_iff.1 hworks
  rw [hdone] at hfinished
  exact absurd hfinished nofun

section

variable (hp : Served s)
include hp

theorem Served.claimed (hs : Sound s) {worker : WorkerId} {now : Time} {j : Job}
    (hj : j ∈ s.db.jobs.rows) : Served (s.claimed settings worker now j) := by
  intro key hk
  obtain ⟨i, hi, hkey, hatt⟩ := hasWorker_iff.1 (hp key hk)
  refine hasWorker_iff.2 ⟨_, mem_update.2 ⟨i, hi, rfl⟩, ?_⟩
  by_cases hij : i.id = j.id
  · obtain rfl := hs.jobs.toNumbered.eq_of_id hi hj hij
    rw [if_pos (by simp)]
    refine ⟨hkey, attended_iff.2 (.inr ⟨rfl, _, mem_append_right _ (mem_singleton.2 rfl), ?_⟩)⟩
    exact worksOn_iff.2 ⟨rfl, rfl, rfl⟩
  · rw [if_neg (by simpa using hij)]
    refine ⟨hkey, attended_iff.2 ((attended_iff.1 hatt).imp_right ?_)⟩
    exact fun ⟨hclaimed, k, hk, hworks⟩ => ⟨hclaimed, k, mem_append_left _ hk, hworks⟩

theorem Served.complete (hs : Sound s) (hh : h ∈ s.handlers) (hpc : h.pc = .returned) (now : Time) :
    Served ((s.setJobs (s.db.jobs.update (JobTable.owned h.job.id h.worker)
      (JobTable.endAs .succeeded now))).drop h) := by
  have hdone : h.pc.finished = true := by rw [hpc]; rfl
  intro key hk
  -- a job that the handler's worker owns is attended by nobody else
  have hupdate : (s.setJobs (s.db.jobs.update (JobTable.owned h.job.id h.worker)
      (JobTable.endAs .succeeded now))).hasWorker key = true := by
    refine hasWorker_update (hp key hk) (fun _ => rfl) fun j hj _ hatt howned => ?_
    rcases attended_iff.1 hatt with havailable | ⟨-, k, hk, hworks⟩
    · have hclaimed := (owned_iff.1 howned).2.1
      rw [havailable] at hclaimed
      exact absurd hclaimed nofun
    · have hkh := hs.eq_of_owned hh hk hj howned hworks
      exact absurd (congrArg GatewayHandler.id hkh) (hs.ne_of_finished hh hdone hk hworks)
  exact hasWorker_drop hupdate fun j _ _ _ k hk hworks => hs.ne_of_finished hh hdone hk hworks

theorem Served.dropped (hs : Sound s) (hh : h ∈ s.handlers)
    (hnone : s.db.pendingJob h.job = false) :
    Served (s.drop h) := by
  intro key hk
  refine hasWorker_drop (hp key hk) fun j hj hkey _ k hkmem hworks hid => ?_
  obtain rfl : k = h := inj_on_of_nodup_map hs.handlerIds hkmem hh hid
  have hjob := hs.key_of_row hh hj (worksOn_iff.1 hworks).1.symm
  rw [GatewayDb.pendingJob, ← hjob, hkey, any_some] at hnone
  exact absurd (hnone.symm.trans hk) Bool.false_ne_true

theorem Served.fail (hs : Sound s) (hh : h ∈ s.handlers) {random : ℚ} {now : Time}
    (hok : s.db.pendingJob h.job = false
      ∨ (s.db.jobs.fail h.job.id h.worker true random now).1 ≠ some .dead) :
    Served ((s.setJobs (s.db.jobs.fail h.job.id h.worker true random now).2).drop h) := by
  cases hfail : s.db.jobs.fail h.job.id h.worker true random now
  rw [hfail] at hok
  rcases fail_cases hfail with
    ⟨-, rfl, hnone⟩ | ⟨j, hj, howned, ⟨-, -, due, rfl⟩ | ⟨rfl, -, rfl⟩⟩
  · -- the job is another claim's
    intro key hk
    refine hasWorker_drop (hp key hk) fun i hi _ hclaimed k hkmem hworks hid => ?_
    obtain rfl : k = h := inj_on_of_nodup_map hs.handlerIds hkmem hh hid
    have howned := hs.owned_of_works hh hi hclaimed hworks
    exact absurd (howned.symm.trans (hnone i hi)) nofun
  · intro key hk
    obtain ⟨i, hi, hkey, hatt⟩ := hasWorker_iff.1 (hp key hk)
    refine hasWorker_iff.2 ⟨_, mem_update.2 ⟨i, hi, rfl⟩, ?_⟩
    split_ifs with hid
    · exact ⟨hkey, attended_iff.2 (.inl rfl)⟩
    · refine ⟨hkey, attended_iff.2 ((attended_iff.1 hatt).imp_right ?_)⟩
      rintro ⟨hclaimed, k, hkmem, hworks⟩
      refine ⟨hclaimed, k, mem_filter.2 ⟨hkmem, ?_⟩, hworks⟩
      simp only [decide_eq_true_eq]
      intro hkid
      obtain rfl : k = h := inj_on_of_nodup_map hs.handlerIds hkmem hh hkid
      exact hid (by simpa using (worksOn_iff.1 hworks).1.symm)
  · have hnone : s.db.pendingJob h.job = false := hok.resolve_right fun hne => hne rfl
    have hother : ∀ key, s.db.pendingOn key = true → ∀ i ∈ s.db.jobs.rows,
        i.dedupeKey = some key → i.id ≠ h.job.id := by
      intro key hk i hi hkey hid
      rw [GatewayDb.pendingJob, ← hs.key_of_row hh hi hid, hkey, any_some] at hnone
      exact absurd (hnone.symm.trans hk) Bool.false_ne_true
    intro key hk
    have hupdate : (s.setJobs (s.db.jobs.update (fun k => k.id = h.job.id)
        (JobTable.endAs .dead now))).hasWorker key = true := by
      refine hasWorker_update (hp key hk) (fun _ => rfl) fun i hi hkey _ hid => ?_
      exact absurd (of_decide_eq_true hid) (hother key hk i hi hkey)
    refine hasWorker_drop hupdate fun i hi hkey _ k hkmem hworks hkid => ?_
    obtain rfl : k = h := inj_on_of_nodup_map hs.handlerIds hkmem hh hkid
    obtain ⟨i, hi', rfl⟩ := mem_update.1 hi
    have hsame := (worksOn_iff.1 hworks).1
    split_ifs at hkey hsame with hid
    · exact hother key hk i hi' hkey (of_decide_eq_true hid)
    · exact hother key hk i hi' hkey hsame.symm

theorem Served.keepLease (now : Time) :
    Served (s.setJobs (s.db.jobs.update (JobTable.owned h.job.id h.worker)
      fun j => { j with leaseUntil := some now })) :=
  fun key hk => hasWorker_update (hp key hk) (fun _ => rfl) fun _ _ _ hatt _ => hatt

theorem Served.reap {now : Time}
    (hok : ∀ j ∈ s.db.jobs.rows, j.spent now = true → s.db.pendingJob j = false) :
    Served (s.setJobs (s.db.jobs.update (JobTable.expired now) (JobTable.reaped now))) := by
  intro key hk
  refine hasWorker_update (hp key hk) (reaped_core now) fun j hj hkey _ _ => ?_
  have hspent : j.spent now = false := by
    by_contra hspent
    have hnone := hok j hj (by simpa using hspent)
    rw [GatewayDb.pendingJob, hkey, any_some] at hnone
    exact absurd (hnone.symm.trans hk) Bool.false_ne_true
  rw [JobTable.reaped, hspent]
  exact attended_iff.2 (.inl rfl)

theorem Served.unloadFinish (hs : Sound s) (hh : h ∈ s.handlers) {modelId : ModelId} {report : Json}
    {now due : Time} {db : GatewayDb} (hallowed : ∀ key, allowed key → s.blocked key = false)
    (hpayload : h.job.payload.modelId = some modelId) (hpc : h.pc = .stopped report)
    (hfinish : s.db.unloadFinish now due report modelId = .ok db)
    (hallow : reloads report modelId s.db = true → allowed (.load modelId)) :
    Served ((s.setDb db).goto h .returned) := by
  have hgains := unloadFinish_gains hfinish
  have hsound : Sound (s.setDb db) := hs.setDb hgains (unloadFinish_map_id hfinish)
  have htype : h.job.type = .modelUnload := hs.kinds h hh _ (by rw [hpc]; rfl)
  have hjob : h.job.dedupeKey = some (.unload modelId) := by
    rw [hs.key_eq hh hpayload, htype]
    rfl
  intro key hk
  obtain ⟨hne, hcases⟩ := pendingOn_unloadFinish hfinish hk
  refine hasWorker_goto ?_ hsound hh fun _ heq => ?_
  · rcases hcases with hbefore | ⟨rfl, hreloads, hlive⟩
    · exact hasWorker_gains (hp key hbefore) hgains
    · exact hasWorker_of_live hlive (blocked_gains (hallowed _ (hallow hreloads)) hgains)
  · rw [hjob, some.injEq] at heq
    exact hne heq.symm

theorem Served.did (hs : Sound s) (hallowed : ∀ key, allowed key → s.blocked key = false)
    (hok : losesNone a s = true) (hdid : Did settings allowed s a t) : Served t := by
  cases hdid with
  | commit shifts => exact hp.shifts hallowed shifts
  | claim idle row => exact hp.claimed hs row
  | work handler next kind shifts =>
    exact (hp.shifts hallowed shifts).goto (hs.shifts shifts) handler next
  | @loaded _ h modelId db handler payload type shifts settled =>
    have htype : h.job.type = .modelLoad := type.elim (hs.kinds h handler _) id
    have hjob : h.job.dedupeKey = some (.load modelId) := by
      rw [hs.key_eq handler payload, htype]
      rfl
    refine (hp.shifts hallowed shifts).returned (hs.shifts shifts) handler hjob ?_
    by_contra hpending
    obtain ⟨id, state, m, hkey, hm, hstate⟩ :=
      pendingOn_iff.1 (by simpa using hpending)
    obtain ⟨rfl, rfl⟩ : modelId = id ∧ InstanceState.loading = state := by
      simpa [DedupeKey.awaited] using hkey
    exact settled m hm hstate
  | @unloadBegin _ h modelId r db handler payload type start began =>
    have hshifts : GatewayDb.Shifts settings allowed s.db db := unloadBegin_shifts began
    cases r with
    | none =>
      have hjob : h.job.dedupeKey = some (.unload modelId) := by
        rw [hs.key_eq handler payload, type]
        rfl
      exact (hp.shifts hallowed hshifts).returned (hs.shifts hshifts) handler hjob
        (unloadBegin_settled began)
    | some => exact (hp.shifts hallowed hshifts).goto (hs.shifts hshifts) handler rfl
  | unloadFinish handler payload pc finished allow =>
    exact hp.unloadFinish hs handler hallowed payload pc finished allow
  | complete handler pc => exact hp.complete hs handler pc _
  | @fail clk random v healthy late h handler pc =>
    have hget : s.getHandler h.id = some h := get_of_mem hs.handlerIds handler
    refine hp.fail hs handler ?_
    simpa [losesNone, hget, pc, isRaised, putsBack] using hok
  | @lost a h handler how =>
    rcases how with hreturned | rfl | ⟨hraised, clk, random, reply, rfl, hreply⟩
    · exact fun key hk => hasWorker_drop (hp key hk) fun j _ _ _ k hkmem hworks =>
        hs.ne_of_finished handler (by rw [hreturned]; rfl) hkmem hworks
    · exact absurd hok nofun
    · have hget : s.getHandler h.id = some h := get_of_mem hs.handlerIds handler
      have hback : putsBack clk random reply h s = false := by
        cases reply with
        | value v healthy late => exact absurd rfl (hreply v healthy late)
        | error => rfl
        | exception => rfl
      refine hp.dropped hs handler ?_
      simpa [losesNone, hget, hraised, isRaised, hback] using hok
  | keepLease => exact hp.keepLease _
  | reapJobs =>
    refine hp.reap fun j hj hspent => ?_
    simp only [losesNone, List.all_eq_true, Bool.not_eq_true', Bool.and_eq_false_iff] at hok
    rcases hok j hj with hnot | hnone
    · exact absurd (hspent.symm.trans hnot) nofun
    · exact hnone

end

theorem Served.init {models : List Model}
    (hnone : ∀ m ∈ models, m.inst.state.resident = false) : Served (Gateway.init models) := by
  intro key hk
  obtain ⟨id, state, m, hkey, hm, hstate⟩ := pendingOn_iff.1 hk
  have hres := hnone m (get_mem hm)
  rcases awaited_state hkey with rfl | rfl <;> rw [hstate] at hres <;>
    exact absurd hres nofun

end Gateway

/-- In every run whose steps are timely, every pending model has a worker in every state. -/
theorem pending_attended (settings : GatewaySettings) (models : List Model)
    (actions : List GatewayAction) (hids : (models.map Model.id).Nodup)
    (hnone : ∀ m ∈ models, m.inst.state.resident = false)
    (hmeets : (gateway settings).Meets (Gateway.Timely settings) actions (Gateway.init models)) :
    (gateway settings).Along Gateway.Attended actions (Gateway.init models) := by
  have hserved : (gateway settings).Along (fun s => Gateway.Sound s ∧ Gateway.Served s) actions
      (Gateway.init models) := by
    refine Machine.along_of_meets (fun a s t hs hok hstep => ?_) actions
      ⟨.init hids, .init hnone⟩ hmeets
    have hdid : Gateway.Did settings (fun key => s.blocked key = false) s a t :=
      Gateway.did_of_step hs.1.models hok.1 hstep
    exact ⟨hs.1.did hdid, hs.2.did hs.1 (fun _ h => h) hok.2 hdid⟩
  exact hserved.mono fun _ hs => hs.2.attended hs.1

/-- A load fails, and a second request for the model comes before the job is marked succeeded. -/
def acquiredInWindow : List GatewayAction :=
  let next (reply : Reply) : GatewayAction := .advance 0 (fun _ => 2) 0 reply
  let done : Reply := .value .null true false
  [.acquire (.ok 1000) 0 0 "a" .run "r" "" 60, .claim "w" [] 1, next done,
    next (.exception "RuntimeError"), next done, next done,
    .acquire (.ok 1000) 3 3 "a" .run "q" "" 60]

/-- The model is loading, and its only job is about to be marked succeeded. -/
theorem unattended_acquiredInWindow :
    ¬ (gateway ⟨0, 100, 10, true, 600, 60⟩).Along Gateway.Attended acquiredInWindow
      (Gateway.init [⟨⟨"a", 60, ["chat"]⟩, .installed, .fresh⟩]) := by
  decide

/-- The same requests, with the job marked succeeded in between. -/
theorem pending_attended_afterWindow :
    (gateway ⟨0, 100, 10, true, 600, 60⟩).Along Gateway.Attended
      (acquiredInWindow.take 6 ++ [.advance 0 (fun _ => 2) 0 (.value .null true false)]
        ++ acquiredInWindow.drop 6)
      (Gateway.init [⟨⟨"a", 60, ["chat"]⟩, .installed, .fresh⟩]) :=
  pending_attended _ _ _ (by decide) (by decide) (by decide)

end Crewquarters
