import Crewquarters.Proofs.Admission
import Crewquarters.Proofs.Handlers

/-!
# Leases and drains

A drain by hand has no leases and gets none; an idle drain that got one is called off by the
acquisition, or by the unload handler before it begins to stop the container. Once the handler
began, a lease waits: the handler's last transaction finds the model still draining and loads it
again.
-/

namespace Crewquarters

open Option Table JobTable GatewayDb List

namespace GatewayDb

variable {settings : GatewaySettings} {allowed : DedupeKey → Prop} {db db' : GatewayDb}
  {m m' : Model} {modelId id : ModelId} {now due : Time} {report : Json}

/-- All that a transaction can do to an instance. -/
inductive InstStep (allowed : DedupeKey → Prop) (db db' : GatewayDb) (modelId : ModelId)
    (i i' : ModelInstance) : Prop where
  | same (same : i' = i)
  | change (change : Change i i')
  | load (source : i.state.resident = false) (state : i'.state = .loading)
      (kept : i'.drainReason = i.drainReason) (allow : allowed (.load modelId))
      (live : db'.jobs.hasLive (.load modelId) = true)
  | drain (source : i.state.resident = true) (unleased : db.activeLeases modelId = [])
      (state : i'.state = .draining)
      (reason : i'.drainReason = some .manual ∨ i.state = .ready)
      (allow : allowed (.unload modelId)) (live : db'.jobs.hasLive (.unload modelId) = true)

theorem get_put {k : Model} (hm : Table.get Model.id modelId db.models = some m)
    (hentry : m'.entry = m.entry)
    (hk : Table.get Model.id id (Table.put Model.id m' db.models) = some k) :
    (id = modelId ∧ k = m') ∨ (id ≠ modelId ∧ Table.get Model.id id db.models = some k) := by
  have hid : m.entry.id = modelId := id_of_get hm
  have hkey : Model.id m' = modelId := (congrArg ModelCatalogEntry.id hentry).trans hid
  by_cases hsame : modelId = id
  · subst hsame
    rw [← hkey] at hm hk
    rw [get_put_self hm, some.injEq] at hk
    exact .inl ⟨rfl, hk.symm⟩
  · rw [get_put_of_ne fun h => hsame (hkey.symm.trans h)] at hk
    exact .inr ⟨fun h => hsame h.symm, hk⟩

theorem get_setInst {i : ModelInstance} {k : Model}
    (hm : Table.get Model.id modelId db.models = some m)
    (hk : Table.get Model.id id (db.setInst m i).models = some k) :
    (id = modelId ∧ k = { m with inst := i })
      ∨ (id ≠ modelId ∧ Table.get Model.id id db.models = some k) :=
  get_put hm rfl hk

theorem hasLive_enqueueLoad (db : GatewayDb) (due : Time) (modelId : ModelId) :
    (db.enqueueLoad due modelId).jobs.hasLive (.load modelId) = true :=
  hasLive_enqueue

theorem hasLive_enqueueUnload (db : GatewayDb) (due : Time) (modelId : ModelId) :
    (db.enqueueUnload due modelId).jobs.hasLive (.unload modelId) = true :=
  hasLive_enqueue

theorem Shift.row (h : Shift settings allowed db db')
    (hm' : Table.get Model.id id db'.models = some m') :
    ∃ m, Table.get Model.id id db.models = some m ∧ m'.entry = m.entry
      ∧ InstStep allowed db db' id m.inst m'.inst := by
  cases h with
  | lease models | release models => exact ⟨m', models ▸ hm', rfl, .same rfl⟩
  | @files modelId m row files =>
    have hentry : Model.entry { m with files } = m.entry := rfl
    rcases get_put row hentry hm' with ⟨rfl, rfl⟩ | ⟨-, hm'⟩
    · exact ⟨m, row, rfl, .same rfl⟩
    · exact ⟨m', hm', rfl, .same rfl⟩
  | change row change =>
    rcases get_setInst row hm' with ⟨rfl, rfl⟩ | ⟨-, hm'⟩
    · exact ⟨_, row, rfl, .change change⟩
    · exact ⟨m', hm', rfl, .same rfl⟩
  | load row source admitted state reserved allow kept =>
    rcases get_setInst row hm' with ⟨rfl, rfl⟩ | ⟨-, hm'⟩
    · exact ⟨_, row, rfl, .load source state kept allow (hasLive_enqueueLoad ..)⟩
    · exact ⟨m', hm', rfl, .same rfl⟩
  | drain row source unleased state reserved reason allow =>
    rcases get_setInst row hm' with ⟨rfl, rfl⟩ | ⟨-, hm'⟩
    · exact ⟨_, row, rfl, .drain source unleased state reason allow (hasLive_enqueueUnload ..)⟩
    · exact ⟨m', hm', rfl, .same rfl⟩
  | requeue => exact ⟨m', hm', rfl, .same rfl⟩

theorem Shift.unleased (h : Shift settings allowed db db') (hnone : db.activeLeases id = []) :
    db'.activeLeases id = [] ∨ (db'.models = db.models ∧ ∃ m,
      Table.get Model.id id db.models = some m
        ∧ ¬ (m.inst.state = .draining ∧ m.inst.drainReason = some .manual)) := by
  cases h with
  | @lease db' modelId m models jobs row open_ other =>
    by_cases hid : id = modelId
    · exact .inr ⟨models, m, hid ▸ row, open_⟩
    · exact .inl (other id hid hnone)
  | release models jobs fewer => exact .inl (fewer id hnone)
  | files | change | load | drain | requeue => exact .inl hnone

theorem exists_of_map_id (hid : db'.models.map Model.id = db.models.map Model.id)
    (hm : Table.get Model.id id db.models = some m) :
    ∃ m', Table.get Model.id id db'.models = some m' := by
  have hsome : (Table.get Model.id id db.models).isSome := by rw [hm]; rfl
  rw [isSome_get, ← hid, ← isSome_get] at hsome
  exact isSome_iff_exists.1 hsome

def Drains (R : Option DrainReason → Prop) (modelId : ModelId) (db : GatewayDb) : Prop :=
  ∃ m, Table.get Model.id modelId db.models = some m ∧ m.inst.state = .draining
    ∧ R m.inst.drainReason

abbrev Committed : ModelId → GatewayDb → Prop := Drains fun r => r ≠ some .idle

abbrev ByHand : ModelId → GatewayDb → Prop := Drains fun r => r = some .manual

theorem Drains.shift {R : Option DrainReason → Prop} (hmanual : R (some .manual))
    (hstop : ∀ r, R r → r ≠ some .manual → R (some .stopping)) (hidle : ¬ R (some .idle))
    (h : db.Drains R id) (hs : Shift settings allowed db db') : db'.Drains R id := by
  obtain ⟨m, hm, hstate, hreason⟩ := h
  obtain ⟨m', hm'⟩ := exists_of_map_id hs.map_id hm
  obtain ⟨k, hk, -, hstep⟩ := hs.row hm'
  obtain rfl : k = m := some.inj (hk.symm.trans hm)
  refine ⟨m', hm', ?_⟩
  cases hstep with
  | same same => exact same ▸ ⟨hstate, hreason⟩
  | change change =>
    cases change with
    | touch state reason => exact ⟨state.trans hstate, reason ▸ hreason⟩
    | revive source reason => exact absurd (reason ▸ hreason) hidle
    | stop source manual state reason => exact ⟨state, reason ▸ hstop _ hreason manual⟩
    | ready source => rw [source] at hstate; exact absurd hstate nofun
    | free source =>
      rw [hstate] at source
      exact absurd source (by simp)
  | load source => rw [hstate] at source; exact absurd source nofun
  | drain source unleased state reason =>
    refine ⟨state, ?_⟩
    rcases reason with reason | reason
    · exact reason ▸ hmanual
    · rw [hstate] at reason
      exact absurd reason nofun

theorem Committed.shifts (h : db.Committed id) (hs : Shifts settings allowed db db') :
    db'.Committed id := by
  induction hs with
  | refl => exact h
  | tail _ hs ih => exact Drains.shift nofun (fun _ _ _ => nofun) (fun h => h rfl) ih hs

/-- A reason to drain means a drain, and one by hand has no leases. -/
structure Tidy (db : GatewayDb) : Prop where
  reasons : ∀ id m, Table.get Model.id id db.models = some m → m.inst.drainReason ≠ none →
    m.inst.state = .draining
  manual : ∀ id m, Table.get Model.id id db.models = some m → m.inst.drainReason = some .manual →
    db.activeLeases id = []

theorem Tidy.byHand (h : db.Tidy) (hm : Table.get Model.id id db.models = some m)
    (hreason : m.inst.drainReason = some .manual) : db.ByHand id :=
  ⟨m, hm, h.reasons id m hm (by rw [hreason]; exact nofun), hreason⟩

theorem Tidy.reasons_shift (h : db.Tidy) (hs : Shift settings allowed db db')
    (hm' : Table.get Model.id id db'.models = some m') (hreason : m'.inst.drainReason ≠ none) :
    m'.inst.state = .draining := by
  obtain ⟨m, hm, -, hstep⟩ := hs.row hm'
  have hold := h.reasons id m hm
  cases hstep with
  | same same => exact same ▸ hold (same ▸ hreason)
  | change change =>
    cases change with
    | touch state reason => exact state.trans (hold (reason ▸ hreason))
    | revive _ _ _ _ cleared => exact absurd cleared hreason
    | stop _ _ state => exact state
    | ready source _ _ kept =>
      have hdraining := hold (kept ▸ hreason)
      rw [source] at hdraining
      exact absurd hdraining nofun
    | free source _ _ kept =>
      have hdraining := hold (kept ▸ hreason)
      rw [hdraining] at source
      exact absurd source (by simp)
  | load source _ kept =>
    have hdraining := hold (kept ▸ hreason)
    rw [hdraining] at source
    exact absurd source nofun
  | drain _ _ state => exact state

theorem Tidy.manual_shift (h : db.Tidy) (hs : Shift settings allowed db db')
    (hm' : Table.get Model.id id db'.models = some m')
    (hreason : m'.inst.drainReason = some .manual) : db'.activeLeases id = [] := by
  have hstate := h.reasons_shift hs hm' (by rw [hreason]; exact nofun)
  obtain ⟨m, hm, -, hstep⟩ := hs.row hm'
  have hnone : db.activeLeases id = [] := by
    cases hstep with
    | same same => exact h.manual id m hm (same ▸ hreason)
    | change change =>
      cases change with
      | touch _ reason => exact h.manual id m hm (reason ▸ hreason)
      | revive _ _ _ _ cleared => rw [cleared] at hreason; exact absurd hreason nofun
      | stop _ _ _ reason => rw [reason] at hreason; exact absurd hreason nofun
      | ready _ state => rw [state] at hstate; exact absurd hstate nofun
      | free _ state => rw [hstate] at state; exact absurd state nofun
    | load _ state => rw [state] at hstate; exact absurd hstate nofun
    | drain _ unleased => exact unleased
  rcases hs.unleased hnone with hnil | ⟨hmodels, k, hk, hopen⟩
  · exact hnil
  · rw [hmodels, hk, some.injEq] at hm'
    exact absurd (hm' ▸ ⟨hstate, hreason⟩) hopen

theorem Tidy.shift (h : db.Tidy) (hs : Shift settings allowed db db') : db'.Tidy :=
  ⟨fun _ _ hm' => h.reasons_shift hs hm', fun _ _ hm' => h.manual_shift hs hm'⟩

theorem Tidy.shifts (h : db.Tidy) (hs : Shifts settings allowed db db') : db'.Tidy := by
  induction hs with
  | refl => exact h
  | tail _ hs ih => exact ih.shift hs

theorem Tidy.byHand_shifts (h : db.Tidy) (hm : db.ByHand id)
    (hs : Shifts settings allowed db db') : db'.activeLeases id = [] := by
  have hkept : db'.Tidy ∧ db'.ByHand id := by
    induction hs with
    | refl => exact ⟨h, hm⟩
    | tail _ hs ih =>
      exact ⟨ih.1.shift hs, Drains.shift rfl (fun _ hr hne => absurd hr hne) nofun ih.2 hs⟩
  obtain ⟨htidy, m, hm, -, hreason⟩ := hkept
  exact htidy.manual id m hm hreason

theorem unloadBegin_cases {r : Option Bool} (h : db.unloadBegin modelId = .ok (r, db')) :
    ∃ m, Table.get Model.id modelId db.models = some m
      ∧ ((m.inst.state ≠ .draining ∧ r = none ∧ db' = db)
        ∨ (m.inst.state = .draining ∧ m.inst.drainReason = some .idle
          ∧ db.activeLeases modelId ≠ [] ∧ r = none ∧ db' = db.setInst m (revived m.inst))
        ∨ (m.inst.state = .draining ∧ m.inst.drainReason = some .manual ∧ r = some true ∧ db' = db)
        ∨ (m.inst.state = .draining ∧ m.inst.drainReason ≠ some .manual
          ∧ (m.inst.drainReason = some .idle → db.activeLeases modelId = []) ∧ r = some false
          ∧ db' = db.setInst m
            { m.inst with drainReason := some .stopping, stage := some "Stopping" })) := by
  obtain ⟨m, hm, h⟩ := bind_eq_ok.1 h
  refine ⟨m, rows_eq_ok.1 hm, ?_⟩
  split_ifs at h with hstate hidle hmanual <;>
    simp only [Except.ok.injEq, Prod.mk.injEq] at h <;> obtain ⟨rfl, rfl⟩ := h
  · exact .inl ⟨hstate, rfl, rfl⟩
  · exact .inr (.inl ⟨not_not.1 hstate, hidle.1, by simpa using hidle.2, rfl, rfl⟩)
  · exact .inr (.inr (.inl ⟨not_not.1 hstate, hmanual, rfl, rfl⟩))
  · refine .inr (.inr (.inr ⟨not_not.1 hstate, hmanual, fun hr => ?_, rfl, rfl⟩))
    by_contra hleased
    exact hidle ⟨hr, by simpa using hleased⟩

theorem unloadBegin_committed {r : Bool} (h : db.unloadBegin modelId = .ok (some r, db')) :
    db'.Committed modelId := by
  obtain ⟨m, hm, ⟨-, hr, -⟩ | ⟨-, -, -, hr, -⟩ | ⟨hstate, hreason, -, rfl⟩
    | ⟨hstate, -, -, -, rfl⟩⟩ := unloadBegin_cases h
  · exact absurd hr nofun
  · exact absurd hr nofun
  · exact ⟨m, hm, hstate, by rw [hreason]; exact nofun⟩
  · exact ⟨_, get_setInst_self hm, hstate, nofun⟩

theorem unloadFinish_total (hm : Table.get Model.id modelId db.models = some m) (now due : Time)
    (report : Json) : ∃ db', db.unloadFinish now due report modelId = .ok db' := by
  unfold unloadFinish
  rw [rows_eq_ok.2 hm]
  change ∃ db', (if m.inst.state ≠ .draining then _ else _) = _
  split_ifs <;> exact ⟨_, rfl⟩

theorem unloadFinish_other (h : db.unloadFinish now due report modelId = .ok db')
    (hid : id ≠ modelId) : Table.get Model.id id db'.models = Table.get Model.id id db.models := by
  obtain ⟨m, hm, ⟨-, rfl⟩ | ⟨-, -, -, i, -, -, -, rfl⟩ | ⟨-, -, i, -, -, -, rfl⟩⟩ :=
    unloadFinish_cases h
  · rfl
  · exact get_setInst_of_ne hm hid.symm
  · exact get_setInst_of_ne hm hid.symm

theorem unloadFinish_leases (h : db.unloadFinish now due report modelId = .ok db') :
    db'.leases = db.leases := by
  obtain ⟨m, -, ⟨-, rfl⟩ | ⟨-, -, -, i, -, -, -, rfl⟩ | ⟨-, -, i, -, -, -, rfl⟩⟩ :=
    unloadFinish_cases h <;> rfl

theorem activeLeases_congr (h : db'.leases = db.leases) :
    db'.activeLeases id = db.activeLeases id := by
  unfold activeLeases
  rw [h]

theorem Tidy.of_tables (h : db.Tidy) (hmodels : db'.models = db.models)
    (hleases : db'.leases = db.leases) : db'.Tidy := by
  refine ⟨fun id m hm => h.reasons id m (hmodels ▸ hm), fun id m hm hreason => ?_⟩
  rw [activeLeases_congr hleases]
  exact h.manual id m (hmodels ▸ hm) hreason

theorem Tidy.unloadFinish (h : db.Tidy) (hf : db.unloadFinish now due report modelId = .ok db') :
    db'.Tidy := by
  have hrow : ∀ k m', Table.get Model.id k db'.models = some m' → m'.inst.drainReason ≠ none →
      Table.get Model.id k db.models = some m' := by
    intro k m' hm' hreason
    by_cases hk : k = modelId
    · subst hk
      obtain ⟨m, hm, ⟨-, rfl⟩ | ⟨-, -, -, i, -, -, hi, rfl⟩ | ⟨-, -, i, -, -, hi, rfl⟩⟩ :=
        unloadFinish_cases hf
      · exact hm'
      all_goals
        have hset : Table.get Model.id k (db.setInst m i).models = some m' := hm'
        rw [get_setInst_self hm, some.injEq] at hset
        exact absurd (hset ▸ hi) hreason
    · rwa [unloadFinish_other hf hk] at hm'
  refine ⟨fun k m' hm' hreason => h.reasons k m' (hrow k m' hm' hreason) hreason,
    fun k m' hm' hreason => ?_⟩
  rw [activeLeases_congr (unloadFinish_leases hf)]
  exact h.manual k m' (hrow k m' hm' (by rw [hreason]; exact nofun)) hreason

end GatewayDb

namespace Gateway

variable {settings : GatewaySettings} {allowed : DedupeKey → Prop} {s t : Gateway}
  {a : GatewayAction} {h : GatewayHandler}

/-- What holds of the gateway after every step. -/
structure Steady (settings : GatewaySettings) (s : Gateway) : Prop where
  sound : Sound s
  orderly : s.db.Orderly settings
  tidy : s.db.Tidy

theorem Steady.step (hs : Steady settings s) (hstep : Gateway.step settings a s = some t) :
    Steady settings t := by
  have hdid : Did settings (fun _ => True) s a t :=
    did_of_step hs.sound.models (fun _ _ => trivial) hstep
  refine ⟨hs.sound.did hdid, orderly_step hs.orderly hstep, ?_⟩
  rcases hdid.tables with ⟨db, hshifts, hmodels, hleases⟩ | ⟨_, _, _, _, hfinish, -⟩
  · exact (hs.tidy.shifts hshifts).of_tables hmodels hleases
  · exact hs.tidy.unloadFinish hfinish

theorem Steady.init {models : List Model} (hids : (models.map Model.id).Nodup)
    (hnone : ∀ m ∈ models, m.inst.state.resident = false ∧ m.inst.reservedBytes = 0
      ∧ m.inst.drainReason = none) : Steady settings (Gateway.init models) := by
  have hreason : ∀ id m, Table.get Model.id id models = some m → m.inst.drainReason = none :=
    fun id m hm => (hnone m (get_mem hm)).2.2
  refine ⟨.init hids, .of_none hids fun m hm => ⟨(hnone m hm).1, (hnone m hm).2.1⟩,
    fun id m hm hne => absurd (hreason id m hm) hne, fun id m hm hmanual => ?_⟩
  rw [hreason id m hm] at hmanual
  exact absurd hmanual nofun

theorem Steady.unleased (hs : Steady settings s) {id : ModelId} (hm : s.db.ByHand id)
    (hstep : Gateway.step settings a s = some t) : t.db.activeLeases id = [] := by
  rcases tables_of_step hs.sound.models hstep with
    ⟨db, hshifts, -, hleases⟩ | ⟨_, _, _, _, hfinish⟩
  · rw [activeLeases_congr hleases]
    exact hs.tidy.byHand_shifts hm hshifts
  · rw [activeLeases_congr (unloadFinish_leases hfinish)]
    obtain ⟨m, hm, -, hreason⟩ := hm
    exact hs.tidy.manual id m hm hreason

/-- Job leases last: a reaping finds none run out whose handler still works. -/
def KeepsLeases : GatewayAction → Gateway → Prop
  | .reapJobs now, s => ∀ h ∈ s.handlers, ∀ j ∈ s.db.jobs.rows, j.id = h.job.id →
    JobTable.expired now j = false
  | _, _ => True

instance : ∀ (a : GatewayAction) (s : Gateway), Decidable (KeepsLeases a s)
  | .reapJobs now, s => inferInstanceAs (Decidable (∀ h ∈ s.handlers, ∀ j ∈ s.db.jobs.rows,
    j.id = h.job.id → JobTable.expired now j = false))
  | .acquire .., _ | .release .., _ | .releaseHolder .., _ | .unload .., _
  | .refreshInstallation .., _ | .claim .., _ | .advance .., _ | .crash .., _ | .keepLease .., _
  | .expireLeases .., _ | .drainIdle .., _ | .markCrashed .., _ | .adopt .., _ | .failStuck .., _
  | .requeueUnload .., _ => isTrue trivial

/-- Every handler's job is claimed, and the claim is the handler's. -/
def Held (s : Gateway) : Prop :=
  ∀ h ∈ s.handlers, ∀ j ∈ s.db.jobs.rows, j.id = h.job.id →
    j.state = .claimed ∧ j.attempts = h.job.attempts

section

variable (hheld : Held s)
include hheld

theorem Held.owner (hs : Sound s) (hh : h ∈ s.handlers) {j : Job} (hj : j ∈ s.db.jobs.rows)
    (hid : j.id = h.job.id) : j.leaseOwner = some h.worker := by
  obtain ⟨hclaimed, hattempts⟩ := hheld h hh j hj hid
  exact ((hs.has_row hh hj hid).owner hclaimed).1 hattempts

theorem Held.single (hs : Sound s) {k : GatewayHandler} (hh : h ∈ s.handlers) (hk : k ∈ s.handlers)
    (htype : h.job.type = k.job.type) (hpayload : h.job.payload.modelId = k.job.payload.modelId) :
    h = k := by
  obtain ⟨i, hi, hhas⟩ := hs.rows h hh
  obtain ⟨j, hj, hhas'⟩ := hs.rows k hk
  have hiid : i.id = h.job.id := congrArg Prod.fst hhas.core
  have hjid : j.id = k.job.id := congrArg Prod.fst hhas'.core
  obtain ⟨hclaimed, hatt⟩ := hheld h hh i hi hiid
  obtain ⟨hclaimed', hatt'⟩ := hheld k hk j hj hjid
  obtain ⟨type, -, id, hfor⟩ := hs.jobs.shape i hi
  obtain ⟨type', -, id', hfor'⟩ := hs.jobs.shape j hj
  have hf := hfor.of_core hhas.core
  have hf' := hfor'.of_core hhas'.core
  have htypes : type = type' := hf.1.symm.trans (htype.trans hf'.1)
  have hids : id = id' := by
    rw [hf.2.1, hf'.2.1] at hpayload
    exact some.inj hpayload
  have hij : i = j := hs.jobs.deduped i hi j hj (by simp [Job.live, hclaimed])
    (by simp [Job.live, hclaimed']) (by rw [hfor.2.2]; rfl)
    (by rw [hfor.2.2, hfor'.2.2, htypes, hids])
  subst hij
  exact hs.claims h hh k hk (hiid.symm.trans hjid) (hatt.symm.trans hatt')

theorem Held.gains (hs : Sound s) {db : GatewayDb} (hg : s.db.jobs.Gains db.jobs) :
    Held (s.setDb db) := by
  intro k hk j hj hid
  obtain ⟨i, hi, hhas⟩ := hs.rows k hk
  have hiid : i.id = k.job.id := congrArg Prod.fst hhas.core
  have hij : j = i :=
    (hg.sound hs.jobs).toNumbered.eq_of_id hj (hg.rows i hi) (hid.trans hiid.symm)
  exact hij ▸ hheld k hk i hi hiid

theorem Held.goto (hh : h ∈ s.handlers) (pc : GatewayPc) : Held (s.goto h pc) := by
  intro k hk
  rcases mem_put hk with rfl | ⟨hk, -⟩
  · exact hheld h hh
  · exact hheld k hk

theorem Held.drop : Held (s.drop h) :=
  fun k hk => hheld k (mem_filter.1 hk).1

theorem Held.leave (hs : Sound s) (hh : h ∈ s.handlers) {p : Job → Bool} {f : Job → Job}
    (hf : ∀ j, (f j).core = j.core)
    (hp : ∀ j ∈ s.db.jobs.rows, p j = true → j.id = h.job.id ∧ j.leaseOwner = some h.worker) :
    Held ((s.setJobs (s.db.jobs.update p f)).drop h) := by
  intro k hk j hj hid
  obtain ⟨hk, hne⟩ := mem_filter.1 hk
  obtain ⟨i, hi, rfl⟩ := mem_update.1 hj
  have hcore : (if p i then f i else i).core = i.core := by
    split_ifs
    · exact hf i
    · rfl
  have hiid : i.id = k.job.id := (congrArg Prod.fst hcore).symm.trans hid
  split_ifs with hpi
  · have howner := hheld.owner hs hk hi hiid
    rw [(hp i hi hpi).2, some.injEq] at howner
    exact absurd (congrArg GatewayHandler.id (hs.workers h hh k hk howner)).symm
      (of_decide_eq_true hne)
  · exact hheld k hk i hi hiid

theorem Held.claimed (hs : Sound s) {worker : WorkerId} {now : Time} {j : Job}
    (hj : j ∈ s.db.jobs.rows) (havailable : j.state = .available) :
    Held (s.claimed settings worker now j) := by
  intro k hk i hi hid
  obtain ⟨i, hi', rfl⟩ := mem_update.1 hi
  rcases mem_append.1 hk with hk | hk
  · have hiid : i.id = k.job.id := by
      split_ifs at hid <;> exact hid
    have hrow := hheld k hk i hi' hiid
    rw [if_neg]
    · exact hrow
    · intro hsame
      have hij := hs.jobs.toNumbered.eq_of_id hi' hj (of_decide_eq_true hsame)
      rw [hij, havailable] at hrow
      exact absurd hrow.1 nofun
  · rw [mem_singleton.1 hk] at hid ⊢
    have hiid : i.id = j.id := by
      split_ifs at hid <;> exact hid
    obtain rfl := hs.jobs.toNumbered.eq_of_id hi' hj hiid
    rw [if_pos (by simp)]
    exact ⟨rfl, rfl⟩

theorem Held.fail (hs : Sound s) (hh : h ∈ s.handlers) {random : ℚ} {now : Time} :
    Held ((s.setJobs (s.db.jobs.fail h.job.id h.worker true random now).2).drop h) := by
  cases hfail : s.db.jobs.fail h.job.id h.worker true random now
  rcases fail_cases hfail with
    ⟨-, rfl, -⟩ | ⟨j, hj, howned, hcases⟩
  · exact hheld.drop
  · -- the row with the id is the one that was found to be owned
    obtain ⟨hjid, -, howner⟩ := owned_iff.1 howned
    have hp : ∀ k ∈ s.db.jobs.rows, decide (k.id = h.job.id) = true →
        k.id = h.job.id ∧ k.leaseOwner = some h.worker := by
      intro k hk hid
      have hkj := hs.jobs.toNumbered.eq_of_id hk hj ((of_decide_eq_true hid).trans hjid.symm)
      exact hkj ▸ ⟨hjid, howner⟩
    rcases hcases with ⟨-, -, due, rfl⟩ | ⟨-, -, rfl⟩ <;>
      exact hheld.leave hs hh (fun _ => rfl) hp

theorem Held.did (hs : Sound s) (hok : KeepsLeases a s) (hdid : Did settings allowed s a t) :
    Held t := by
  cases hdid with
  | commit shifts => exact hheld.gains hs shifts.gains
  | claim idle row available => exact hheld.claimed hs row available
  | work handler _ _ shifts | loaded handler _ _ shifts =>
    exact (hheld.gains hs shifts.gains).goto handler _
  | unloadBegin handler _ _ _ began =>
    have hshifts : GatewayDb.Shifts settings allowed s.db _ := unloadBegin_shifts began
    exact (hheld.gains hs hshifts.gains).goto handler _
  | unloadFinish handler _ _ finished =>
    exact (hheld.gains hs (unloadFinish_gains finished)).goto handler _
  | complete handler =>
    refine hheld.leave hs handler (fun _ => rfl) fun j _ howned => ?_
    obtain ⟨hid, -, howner⟩ := owned_iff.1 howned
    exact ⟨hid, howner⟩
  | fail handler => exact hheld.fail hs handler
  | lost => exact hheld.drop
  | keepLease =>
    intro k hk j hj hid
    obtain ⟨i, hi, rfl⟩ := mem_update.1 hj
    split_ifs at hid ⊢ <;> exact hheld k hk i hi hid
  | reapJobs =>
    intro k hk j hj hid
    obtain ⟨i, hi, rfl⟩ := mem_update.1 hj
    have hiid : i.id = k.job.id := by
      split_ifs at hid
      · exact (congrArg Prod.fst (reaped_core _ i)).symm.trans hid
      · exact hid
    rw [if_neg (by rw [hok k hk i hi hiid]; exact Bool.false_ne_true)]
    exact hheld k hk i hi hiid

end

/-- With the leases of jobs kept, an unload handler past its first transaction has a model that
is draining for good. -/
structure Working (s : Gateway) : Prop where
  held : Held s
  committed : ∀ h ∈ s.handlers, h.pc.kind = some .modelUnload →
    ∀ id, h.job.payload.modelId = some id → s.db.Committed id

theorem Working.goto (hw : Working s) (hh : h ∈ s.handlers) {pc : GatewayPc}
    (hpc : pc.kind = some .modelUnload → ∀ id, h.job.payload.modelId = some id →
      s.db.Committed id) : Working (s.goto h pc) := by
  refine ⟨hw.held.goto hh pc, fun k hk => ?_⟩
  rcases mem_put hk with rfl | ⟨hk, -⟩
  · exact hpc
  · exact hw.committed k hk

theorem Working.shifts (hw : Working s) (hs : Sound s) {db : GatewayDb}
    (h : GatewayDb.Shifts settings allowed s.db db) : Working (s.setDb db) :=
  ⟨hw.held.gains hs h.gains, fun k hk hkind id hid =>
    GatewayDb.Committed.shifts (hw.committed k hk hkind id hid) h⟩

theorem Working.did (hw : Working s) (hs : Sound s) (hok : KeepsLeases a s)
    (hdid : Did settings allowed s a t) : Working t := by
  have hheld : Held t := hw.held.did hs hok hdid
  cases hdid with
  | commit shifts => exact hw.shifts hs shifts
  | claim =>
    refine ⟨hheld, fun k hk hkind => ?_⟩
    rcases mem_append.1 hk with hk | hk
    · exact hw.committed k hk hkind
    · rw [mem_singleton.1 hk] at hkind
      exact absurd hkind nofun
  | work handler next kind shifts =>
    refine (hw.shifts hs shifts).goto handler fun hunload => ?_
    rcases kind with hnone | hsame | ⟨hload, -⟩
    · rw [hnone] at hunload
      exact absurd hunload nofun
    · exact (hw.shifts hs shifts).committed _ handler (hsame.symm.trans hunload)
    · rw [hload] at hunload
      exact absurd hunload nofun
  | loaded handler _ _ shifts => exact (hw.shifts hs shifts).goto handler nofun
  | @unloadBegin _ h modelId r db handler payload _ _ began =>
    have hshifts : GatewayDb.Shifts settings allowed s.db db := unloadBegin_shifts began
    refine (hw.shifts hs hshifts).goto handler fun hunload id hid => ?_
    cases r with
    | none => exact absurd hunload nofun
    | some =>
      rw [payload, some.injEq] at hid
      exact hid ▸ unloadBegin_committed began
  | @unloadFinish _ _ _ h modelId report db handler payload pc finished _ =>
    refine ⟨hheld, fun k hk hkind id hid => ?_⟩
    rcases mem_put hk with rfl | ⟨hk, hne⟩
    · exact absurd hkind nofun
    · -- it is another model's: this one has no other unload handler
      have hother : id ≠ modelId := by
        rintro rfl
        have htype := hs.kinds h handler .modelUnload (by rw [pc]; rfl)
        have hsame := hw.held.single hs hk handler ((hs.kinds k hk _ hkind).trans htype.symm)
          (hid.trans payload.symm)
        have hids : k.id = h.id := congrArg GatewayHandler.id hsame
        exact hne hids
      obtain ⟨m, hm, hdrains⟩ := hw.committed k hk hkind id hid
      exact ⟨m, (unloadFinish_other finished hother).trans hm, hdrains⟩
  | complete | fail | lost => exact ⟨hheld, fun k hk => hw.committed k (mem_filter.1 hk).1⟩
  | keepLease | reapJobs => exact ⟨hheld, hw.committed⟩

theorem Working.init (models : List Model) : Working (Gateway.init models) :=
  ⟨by simp [Held, Gateway.init], by simp [Gateway.init]⟩

/-- The unload handler goes on to stop a container only without leases, and a drain by hand gets
none. -/
structure LeasesKept (settings : GatewaySettings) (s : Gateway) : Prop where
  stops : ∀ modelId m r db, Table.get Model.id modelId s.db.models = some m →
    s.db.unloadBegin modelId = .ok (some r, db) →
    m.inst.drainReason = some .idle ∨ m.inst.drainReason = some .manual →
    s.db.activeLeases modelId = []
  manual : ∀ modelId m, Table.get Model.id modelId s.db.models = some m →
    m.inst.drainReason = some .manual →
    ∀ a t, step settings a s = some t → t.db.activeLeases modelId = []

/-- A lease that came while the container was stopping gets its model back, and no handler that
began to stop a container finds an idle drain. -/
structure Reloads (settings : GatewaySettings) (s : Gateway) : Prop where
  reloads : ∀ h ∈ s.handlers, ∀ modelId report, h.job.payload.modelId = some modelId →
    h.pc = .stopped report → GatewayDb.containerRemoved report = true →
    s.db.activeLeases modelId ≠ [] →
    ∀ clk random v healthy late t,
      step settings (.advance h.id clk random (.value v healthy late)) s = some t →
      ∃ m m', Table.get Model.id modelId s.db.models = some m
        ∧ Table.get Model.id modelId t.db.models = some m' ∧ m'.inst.state = .loading
        ∧ m'.inst.reservedBytes = m.inst.reservedBytes
        ∧ t.db.jobs.hasLive (.load modelId) = true
  idle : ∀ h ∈ s.handlers, h.pc.kind = some .modelUnload → ∀ modelId m,
    h.job.payload.modelId = some modelId → Table.get Model.id modelId s.db.models = some m →
    m.inst.drainReason ≠ some .idle

theorem Steady.leasesKept (hs : Steady settings s) : LeasesKept settings s where
  stops := by
    intro modelId m r db hm hbegin hreason
    obtain ⟨k, hk, hcases⟩ := unloadBegin_cases hbegin
    obtain rfl : k = m := some.inj (hk.symm.trans hm)
    rcases hcases with ⟨-, hr, -⟩ | ⟨-, -, -, hr, -⟩ | ⟨-, hmanual, -⟩ | ⟨-, hmanual, hidle, -⟩
    · exact absurd hr nofun
    · exact absurd hr nofun
    · exact hs.tidy.manual modelId k hm hmanual
    · exact hidle (hreason.resolve_right hmanual)
  manual := fun _ _ hm hreason _ _ hstep => hs.unleased (hs.tidy.byHand hm hreason) hstep

theorem Working.reloads (hw : Working s) (hs : Steady settings s) : Reloads settings s where
  reloads := by
    intro h hh modelId report hpayload hpc hremoved hleased clk random v healthy late t hstep
    obtain ⟨m, hm, hstate, -⟩ := hw.committed h hh (by rw [hpc]; rfl) modelId hpayload
    have hget : s.getHandler h.id = some h := get_of_mem hs.sound.handlerIds hh
    have hadvance : step settings (.advance h.id clk random (.value v healthy late)) s
        = some (s.commitGoto h .returned
          (s.db.unloadFinish (clk 0) (clk 1) report modelId)) := by
      simp only [step, hget, map_some, advance, handle, hpc, hpayload]
    rw [hadvance, some.injEq] at hstep
    subst hstep
    obtain ⟨db, hdb⟩ := unloadFinish_total hm (clk 0) (clk 1) report
    rw [hdb]
    obtain ⟨k, hk, ⟨hnot, -⟩ | ⟨-, -, -, i, hi, hreserved, -, rfl⟩ | ⟨-, hnot, -⟩⟩ :=
      unloadFinish_cases hdb
    · obtain rfl : k = m := some.inj (hk.symm.trans hm)
      exact absurd hstate hnot
    · have hkept : k.inst.reservedBytes = k.entry.expectedMemoryBytes := by
        obtain rfl : k = m := some.inj (hk.symm.trans hm)
        rw [hs.orderly.admitted.reserves k (get_mem hk), GatewayDb.dueBytes, hstate]
        rfl
      exact ⟨k, _, hk, get_setInst_self hk, hi, hreserved.trans hkept.symm,
        hasLive_enqueueLoad _ _ _⟩
    · exact absurd ⟨hremoved, hleased⟩ hnot
  idle := by
    intro h hh hkind modelId m hpayload hm
    obtain ⟨k, hk, -, hreason⟩ := hw.committed h hh hkind modelId hpayload
    obtain rfl : k = m := some.inj (hk.symm.trans hm)
    exact hreason

end Gateway

/-- The model is ready, with the server it had. -/
def GatewayDb.ReadyAgain (modelId : ModelId) (m : Model) (db : GatewayDb) : Prop :=
  ∃ m', Table.get Model.id modelId db.models = some m' ∧ m'.inst.state = .ready
    ∧ m'.inst.endpoint = m.inst.endpoint

theorem GatewayDb.acquire_readyAgain {settings : GatewaySettings}
    {capacity : Except PlatformError ℤ} {modelId : ModelId} {holderType : HolderType}
    {holderId label : String} {ttl lease : ℕ} {db db' : GatewayDb} {m : Model}
    (hm : Table.get Model.id modelId db.models = some m) (hstate : m.inst.state = .draining)
    (hreason : m.inst.drainReason = some .idle)
    (h : db.acquire settings capacity now due modelId holderType holderId label ttl
      = .ok (lease, db')) : db'.ReadyAgain modelId m := by
  obtain ⟨k, hk, h⟩ := bind_eq_ok.1 h
  obtain rfl : k = m := some.inj ((rows_eq_ok.1 hk).symm.trans hm)
  have hmodels : (db.putLease (now + ttl) modelId holderType holderId label).2.models
      = db.models := (putLease_frame ..).1
  have hm' := hmodels ▸ hm
  dsimp only at h
  split_ifs at h with hfiles hmanual hres hidle
  · rw [hstate] at hres
    exact absurd hres nofun
  · simp only [Except.ok.injEq, Prod.mk.injEq] at h
    obtain ⟨-, rfl⟩ := h
    exact ⟨_, get_setInst_self hm', rfl, rfl⟩
  · exact absurd ⟨hstate, hreason⟩ hidle

theorem GatewayDb.unloadBegin_readyAgain {modelId : ModelId} {r : Option Bool}
    {db db' : GatewayDb} {m : Model} (hm : Table.get Model.id modelId db.models = some m)
    (hstate : m.inst.state = .draining) (hreason : m.inst.drainReason = some .idle)
    (hleased : db.activeLeases modelId ≠ []) (h : db.unloadBegin modelId = .ok (r, db')) :
    db'.ReadyAgain modelId m := by
  obtain ⟨k, hk, hcases⟩ := unloadBegin_cases h
  obtain rfl : k = m := some.inj (hk.symm.trans hm)
  rcases hcases with ⟨hnot, -⟩ | ⟨-, -, -, -, rfl⟩ | ⟨-, hmanual, -⟩ | ⟨-, -, hnone, -⟩
  · exact absurd hstate hnot
  · exact ⟨_, get_setInst_self hm, rfl, rfl⟩
  · rw [hreason] at hmanual
    exact absurd hmanual nofun
  · exact absurd (hnone hreason) hleased

/-- A leased model is not stopped under its holder. Whatever the tables, an idle drain with a lease
is called off by the next acquisition or unload handler; in every run the point of no return and
drains by hand are without leases; and where job leases last, a lease that came after that point
gets its model back. -/
theorem leases_respected (settings : GatewaySettings) (models : List Model)
    (actions : List GatewayAction) (hids : (models.map Model.id).Nodup)
    (hnone : ∀ m ∈ models, m.inst.state.resident = false ∧ m.inst.reservedBytes = 0
      ∧ m.inst.drainReason = none) :
    (∀ (db : GatewayDb) (modelId : ModelId) (m : Model),
      Table.get Model.id modelId db.models = some m → m.inst.state = .draining →
      m.inst.drainReason = some .idle → db.activeLeases modelId ≠ [] →
      (∀ capacity now due holderType holderId label ttl lease db',
        db.acquire settings capacity now due modelId holderType holderId label ttl
          = .ok (lease, db') → db'.ReadyAgain modelId m)
      ∧ ∀ r db', db.unloadBegin modelId = .ok (r, db') → db'.ReadyAgain modelId m)
    ∧ (gateway settings).Along (Gateway.LeasesKept settings) actions (Gateway.init models)
    ∧ ((gateway settings).Meets Gateway.KeepsLeases actions (Gateway.init models) →
      (gateway settings).Along (Gateway.Reloads settings) actions (Gateway.init models)) := by
  have hinit : Gateway.Steady settings (Gateway.init models) := .init hids hnone
  refine ⟨fun db modelId m hm hstate hreason hleased => ⟨?_, ?_⟩, ?_, fun hmeets => ?_⟩
  · intro capacity now due holderType holderId label ttl lease db' h
    exact acquire_readyAgain hm hstate hreason h
  · intro r db' h
    exact unloadBegin_readyAgain hm hstate hreason hleased h
  · have hsteady : (gateway settings).Along (Gateway.Steady settings) actions _ :=
      Machine.along_of_step (fun _ _ _ hs hstep => hs.step hstep) actions hinit
    exact hsteady.mono fun _ hs => hs.leasesKept
  · have hworking : (gateway settings).Along
        (fun s => Gateway.Steady settings s ∧ Gateway.Working s) actions (Gateway.init models) := by
      refine Machine.along_of_meets (fun a s t hs hok hstep => ?_) actions
        ⟨hinit, .init models⟩ hmeets
      have hdid : Gateway.Did settings (fun _ => True) s a t :=
        Gateway.did_of_step hs.1.sound.models (fun _ _ => trivial) hstep
      exact ⟨hs.1.step hstep, hs.2.did hs.1.sound hok hdid⟩
    exact hworking.mono fun _ hs => hs.2.reloads hs.1

/-- A step of a handler whose call is answered with `v`. -/
def answered (h : ℕ) (v : Json) : GatewayAction :=
  .advance h (fun _ => 10) 0 (.value v true false)

def startedReport : Json :=
  .obj [("container", .obj [("endpoint", .obj [("inprocess", .bool true)])])]

def removedReport : Json := .obj [("containerRemoved", .bool true)]

/-- A load handler works off its job. -/
def loadsModel (h : ℕ) : List GatewayAction :=
  [.null, .null, .null, .null, startedReport, .null, startedReport, .null, .null].map (answered h)

/-- A model is loaded, falls idle and is drained; a lease comes while its container stops. -/
def leasedAtStop : List GatewayAction :=
  .acquire (.ok 1000) 0 0 "a" .run "r" "" 60 :: .claim "w" [] 1 :: loadsModel 0
    ++ [.release (fun _ => 10) (fun _ => 20) 0 "released", .drainIdle 1000 (fun _ => 1000) [],
      .claim "w" [] 1001, answered 1 .null, .acquire (.ok 1000) 1002 1002 "a" .run "q" "" 60]

def leasedWhileStopping : List GatewayAction :=
  leasedAtStop ++ [.reapJobs 1003, answered 1 removedReport, answered 1 .null]

def oneModel : Gateway := Gateway.init [⟨⟨"a", 60, ["chat"]⟩, .installed, .fresh⟩]

theorem leases_respected_whileStopping :
    (gateway ⟨0, 100, 10, true, 600, 60⟩).Along (Gateway.Reloads ⟨0, 100, 10, true, 600, 60⟩)
      leasedWhileStopping oneModel :=
  (leases_respected ⟨0, 100, 10, true, 600, 60⟩ _ leasedWhileStopping (by decide)
    (by decide +kernel)).2.2 (by decide +kernel)

/-- At the end of that run the model is loading again. -/
example : ((gateway ⟨0, 100, 10, true, 600, 60⟩).run leasedWhileStopping oneModel).map
      (fun s => s.db.models.map fun m => (m.inst.state, m.inst.reservedBytes))
    = some [(.loading, 60)] := by
  decide +kernel

/-- The lease of the job that the first handler works on runs out while it stops the container. A
second worker gets the job and stops the container too, the model is loaded for its lease, and only
then the first handler hears that the container is removed. -/
def stoppedTwice : List GatewayAction :=
  leasedAtStop ++ .reapJobs 2000 :: .claim "w2" [] 3000
    :: [.null, removedReport, .null, .null].map (answered 2)
    ++ .claim "w2" [] 3001 :: loadsModel 3 ++ [answered 1 removedReport]

/-- A handler that is about to finish for a removed container leaves a leased model loading. -/
def Gateway.reloadsNext (settings : GatewaySettings) (s : Gateway) : Bool :=
  s.handlers.all fun h => match h.pc, h.job.payload.modelId with
    | .stopped report, some modelId => !GatewayDb.containerRemoved report
      || (s.db.activeLeases modelId).isEmpty
      || (Gateway.step settings (answered h.id .null) s).all fun t =>
        (Table.get Model.id modelId t.db.models).any fun m => m.inst.state = .loading
    | _, _ => true

theorem Gateway.Reloads.reloadsNext {settings : GatewaySettings} {s : Gateway}
    (hs : Gateway.Reloads settings s) : s.reloadsNext settings = true := by
  refine all_eq_true.2 fun h hh => ?_
  split
  · rename_i report modelId hpc hpayload
    rw [Bool.or_eq_true, Bool.or_eq_true, Bool.not_eq_true']
    by_contra! hnot
    obtain ⟨⟨hremoved, hleased⟩, hnext⟩ := hnot
    refine hnext (all_eq_true _ _ |>.2 fun t ht => ?_)
    obtain ⟨-, m', -, hm', hstate, -⟩ := hs.reloads h hh modelId report hpayload hpc
      (Bool.eq_true_of_not_eq_false hremoved)
      (fun hnil => hleased (by rw [hnil]; rfl)) _ _ _ _ _ t ht
    rw [hm']
    exact decide_eq_true hstate
  · rfl

/-- Its last transaction leaves the leased model ready, with no container. -/
theorem stoppedTwice_not_reloads :
    ¬ (gateway ⟨0, 100, 10, true, 600, 60⟩).Along (Gateway.Reloads ⟨0, 100, 10, true, 600, 60⟩)
      stoppedTwice oneModel := by
  intro halong
  have hany : ((gateway ⟨0, 100, 10, true, 600, 60⟩).run stoppedTwice oneModel).any
      (fun s => !s.reloadsNext ⟨0, 100, 10, true, 600, 60⟩) = true := by
    decide +kernel
  obtain ⟨s, hs, hbad⟩ := (any_eq_true _ _).1 hany
  rw [(halong.last hs).reloadsNext] at hbad
  cases hbad

end Crewquarters
