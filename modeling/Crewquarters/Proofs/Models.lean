import Crewquarters.Gateway
import Crewquarters.Lib.Outcome

/-!
# What a transaction of the gateway does

Every transaction is a sequence of `Shift`s: leases come or go, or one instance changes, and a
change that begins a load or a drain enqueues its job. `Change` lists how an instance can change;
the transactions are taken apart here and nowhere else.
-/

namespace Crewquarters

open Option Except List

/-- The ways in which an instance changes without a job. -/
inductive Change (i i' : ModelInstance) : Prop where
  | touch (state : i'.state = i.state) (reason : i'.drainReason = i.drainReason)
      (reserved : i'.reservedBytes = i.reservedBytes)
  | revive (source : i.state = .draining) (reason : i.drainReason = some .idle)
      (state : i'.state = .ready) (reserved : i'.reservedBytes = i.reservedBytes)
      (cleared : i'.drainReason = none)
  | stop (source : i.state = .draining) (manual : i.drainReason ≠ some .manual)
      (state : i'.state = .draining) (reason : i'.drainReason = some .stopping)
      (reserved : i'.reservedBytes = i.reservedBytes)
  | ready (source : i.state = .loading) (state : i'.state = .ready)
      (reserved : i'.reservedBytes = i.reservedBytes) (kept : i'.drainReason = i.drainReason)
  | free (source : i.state = .loading ∨ i.state = .ready) (state : i'.state.resident = false)
      (reserved : i'.reservedBytes = 0) (kept : i'.drainReason = i.drainReason)

/-- One change of the gateway's tables. The jobs of loads and drains that begin have keys with
`allowed`. -/
inductive GatewayDb.Shift (settings : GatewaySettings) (allowed : DedupeKey → Prop)
    (db : GatewayDb) : GatewayDb → Prop where
  /-- a lease of a model that is not being unloaded by hand comes, or is renewed -/
  | lease {db' modelId m} (models : db'.models = db.models) (jobs : db'.jobs = db.jobs)
      (row : Table.get Model.id modelId db.models = some m)
      (open_ : ¬ (m.inst.state = .draining ∧ m.inst.drainReason = some .manual))
      (other : ∀ id, id ≠ modelId → db.activeLeases id = [] → db'.activeLeases id = []) :
      Shift settings allowed db db'
  | release {db'} (models : db'.models = db.models) (jobs : db'.jobs = db.jobs)
      (fewer : ∀ id, db.activeLeases id = [] → db'.activeLeases id = []) :
      Shift settings allowed db db'
  | files {modelId m} (row : Table.get Model.id modelId db.models = some m)
      (files : DownloadState) :
      Shift settings allowed db { db with models := Table.put Model.id { m with files } db.models }
  | change {modelId m i} (row : Table.get Model.id modelId db.models = some m)
      (change : Change m.inst i) : Shift settings allowed db (db.setInst m i)
  | load {modelId m i capacity due} (row : Table.get Model.id modelId db.models = some m)
      (source : m.inst.state.resident = false)
      (admitted : db.admitModel settings capacity m.entry = .ok ()) (state : i.state = .loading)
      (reserved : i.reservedBytes = m.entry.expectedMemoryBytes) (allow : allowed (.load modelId))
      (kept : i.drainReason = m.inst.drainReason) :
      Shift settings allowed db ((db.setInst m i).enqueueLoad due modelId)
  | drain {modelId m i due} (row : Table.get Model.id modelId db.models = some m)
      (source : m.inst.state.resident = true) (unleased : db.activeLeases modelId = [])
      (state : i.state = .draining) (reserved : i.reservedBytes = m.inst.reservedBytes)
      (reason : i.drainReason = some .manual ∨ m.inst.state = .ready)
      (allow : allowed (.unload modelId)) :
      Shift settings allowed db ((db.setInst m i).enqueueUnload due modelId)
  | requeue {due} (modelId : ModelId) : Shift settings allowed db (db.enqueueUnload due modelId)

abbrev GatewayDb.Shifts (settings : GatewaySettings) (allowed : DedupeKey → Prop) :
    GatewayDb → GatewayDb → Prop :=
  Relation.ReflTransGen (GatewayDb.Shift settings allowed)

namespace GatewayDb

variable {settings : GatewaySettings} {allowed : DedupeKey → Prop} {db db' : GatewayDb}
  {m : Model} {modelId : ModelId}
variable {i : ModelInstance} {id : ModelId} {due now : Time} {endpoint : Json}

theorem rows_eq_ok : db.rows modelId = .ok m ↔ Table.get Model.id modelId db.models = some m := by
  unfold rows
  split <;> simp_all

theorem id_of_get (h : Table.get Model.id modelId db.models = some m) : m.entry.id = modelId := by
  have hid : Model.id m = modelId := Table.get_key h
  exact hid

theorem get_setInst_self (hm : Table.get Model.id modelId db.models = some m) :
    Table.get Model.id modelId (db.setInst m i).models = some { m with inst := i } := by
  have hid : m.entry.id = modelId := id_of_get hm
  have hkey : Model.id { m with inst := i } = modelId := hid
  rw [← hkey] at hm ⊢
  exact Table.get_put_self hm

theorem get_setInst_of_ne (hm : Table.get Model.id modelId db.models = some m)
    (hid : modelId ≠ id) :
    Table.get Model.id id (db.setInst m i).models = Table.get Model.id id db.models := by
  have hkey : Model.id { m with inst := i } ≠ id := fun h => hid ((id_of_get hm).symm.trans h)
  exact Table.get_put_of_ne hkey

theorem activeLeases_eq_nil : db.activeLeases modelId = []
    ↔ ∀ l ∈ db.leases, l.modelId = modelId → l.releasedAt.isSome := by
  simp [activeLeases, filter_eq_nil_iff, isSome_iff_ne_none]

theorem releaseWhere_fewer (p : ModelLease → Bool) (now : ℕ → Time) (reason : String)
    (h : db.activeLeases modelId = []) :
    (db.releaseWhere p now reason).activeLeases modelId = [] := by
  rw [activeLeases_eq_nil] at h ⊢
  intro l hl hid
  obtain ⟨k, hk, rfl⟩ := mem_map.1 hl
  split_ifs at hid ⊢
  · rfl
  · exact h k hk hid

theorem activeLeases_releaseWhere (now : ℕ → Time) (reason : String) :
    (db.releaseWhere (fun l => l.modelId = modelId) now reason).activeLeases modelId = [] := by
  rw [activeLeases_eq_nil]
  intro l hl hid
  obtain ⟨k, hk, rfl⟩ := mem_map.1 hl
  split_ifs at hid ⊢ with hp
  · rfl
  · simp only [hid, decide_true, Bool.and_true, isNone_iff_eq_none] at hp
    exact isSome_iff_ne_none.2 hp

theorem putLease_frame (expires : Time) (holderType : HolderType) (holderId label : String) :
    (db.putLease expires modelId holderType holderId label).2.models = db.models
      ∧ (db.putLease expires modelId holderType holderId label).2.jobs = db.jobs := by
  unfold putLease
  split <;> exact ⟨rfl, rfl⟩

theorem putLease_other (expires : Time) (holderType : HolderType) (holderId label : String)
    (hid : id ≠ modelId) (h : db.activeLeases id = []) :
    (db.putLease expires modelId holderType holderId label).2.activeLeases id = [] := by
  rw [activeLeases_eq_nil] at h ⊢
  intro l hl hlid
  unfold putLease at hl
  split at hl
  · rename_i k hk
    have hkmem : k ∈ db.activeLeases modelId := mem_of_find?_eq_some hk
    rcases Table.mem_put hl with rfl | ⟨hl, -⟩
    · have hkid : k.modelId = modelId := by
        simp only [activeLeases, mem_filter, Bool.and_eq_true, decide_eq_true_eq] at hkmem
        exact hkmem.2.1
      exact absurd (hlid.symm.trans hkid) hid
    · exact h l hl hlid
  · rcases mem_append.1 hl with hl | hl
    · exact h l hl hlid
    · rw [mem_singleton.1 hl] at hlid
      exact absurd hlid.symm hid

theorem Shift.setInst (hm : Table.get Model.id modelId db.models = some m) (h : Change m.inst i) :
    Shifts settings allowed db (db.setInst m i) :=
  .single (.change hm h)

theorem markIdle_shifts (now : Time) (modelId : ModelId) :
    Shifts settings allowed db (db.markIdleIfUnused now modelId) := by
  unfold markIdleIfUnused
  split
  · split
    · exact .refl
    · split_ifs
      · exact Shift.setInst ‹_› (.touch rfl rfl rfl)
      · exact .refl
  · exact .refl

theorem releaseAll_shifts (p : ModelLease → Bool) (released : ℕ → Time) (idle : ModelId → Time)
    (reason : String) : Shifts settings allowed db (db.releaseAll p released idle reason) := by
  have hfold : ∀ (ids : List ModelId) (b : GatewayDb),
      Shifts settings allowed b (ids.foldl (fun db id => db.markIdleIfUnused (idle id) id) b) := by
    intro ids
    induction ids with
    | nil => exact fun b => .refl
    | cons id ids ih => exact fun b => (markIdle_shifts (idle id) id).trans (ih _)
  refine .trans (.single ?_) (hfold _ _)
  exact .release rfl rfl fun id => releaseWhere_fewer p released reason

theorem acquire_shifts {capacity : Except PlatformError ℤ} {holderType : HolderType}
    {holderId label : String} {ttl lease : ℕ}
    (h : db.acquire settings capacity now due modelId holderType holderId label ttl
      = .ok (lease, db'))
    (hallow : ∀ m, Table.get Model.id modelId db.models = some m → m.inst.state.resident = false →
      allowed (.load modelId)) :
    Shifts settings allowed db db' := by
  obtain ⟨m, hm, h⟩ := bind_eq_ok.1 h
  have hm := rows_eq_ok.1 hm
  obtain ⟨hmodels, hjobs⟩ : (db.putLease (now + ttl) modelId holderType holderId label).2.models
      = db.models ∧ _ = db.jobs := putLease_frame ..
  have hm' := hmodels ▸ hm
  have hlease : ¬ (m.inst.state = .draining ∧ m.inst.drainReason = some .manual) →
      Shifts settings allowed db (db.putLease (now + ttl) modelId holderType holderId label).2 :=
    fun hmanual =>
      .single (.lease hmodels hjobs hm hmanual fun id hid => putLease_other _ _ _ _ hid)
  dsimp only at h
  split_ifs at h with hfiles hmanual hres hidle
  · obtain ⟨_, hadmit, h⟩ := bind_eq_ok.1 h
    simp only [ok.injEq, Prod.mk.injEq] at h
    obtain ⟨-, rfl⟩ := h
    exact (hlease hmanual).tail (.load hm' hres hadmit rfl rfl (hallow m hm hres) rfl)
  · simp only [ok.injEq, Prod.mk.injEq] at h
    obtain ⟨-, rfl⟩ := h
    exact (hlease hmanual).trans (Shift.setInst hm' (.revive hidle.1 hidle.2 rfl rfl rfl))
  · simp only [ok.injEq, Prod.mk.injEq] at h
    obtain ⟨-, rfl⟩ := h
    exact (hlease hmanual).trans (Shift.setInst hm' (.touch rfl rfl rfl))

theorem unload_shifts {released : ℕ → Time} {force : Bool}
    (h : db.unload released due modelId force = .ok db')
    (hallow : ∀ m, Table.get Model.id modelId db.models = some m → m.inst.state.resident = true →
      allowed (.unload modelId)) :
    Shifts settings allowed db db' := by
  obtain ⟨m, hm, h⟩ := bind_eq_ok.1 h
  have hm := rows_eq_ok.1 hm
  split_ifs at h with hres hused
  · rw [ok.injEq] at h
    exact h ▸ .refl
  · rw [ok.injEq] at h
    subst h
    have hrelease : Shifts settings allowed db
        (db.releaseWhere (fun l => l.modelId = modelId) released "forced_unload") :=
      .single (.release rfl rfl fun id => releaseWhere_fewer _ released "forced_unload")
    have hres' : m.inst.state.resident = true := by simpa using hres
    exact hrelease.tail (.drain hm hres' (activeLeases_releaseWhere released "forced_unload")
      rfl rfl (.inl rfl) (hallow m hm hres'))

theorem setStage_shifts (stage : String) (modelId : ModelId) :
    Shifts settings allowed db (db.setStage stage modelId) := by
  unfold setStage
  split
  · exact .refl
  · exact Shift.setInst ‹_› (.touch rfl rfl rfl)

theorem finishLoad_shifts {ready idle : Time}
    (h : db.finishLoad ready idle endpoint modelId = .ok db') : Shifts settings allowed db db' := by
  obtain ⟨m, hm, h⟩ := bind_eq_ok.1 h
  split at h <;> rw [ok.injEq] at h <;> subst h
  · exact .refl
  · exact Shift.setInst (rows_eq_ok.1 hm) (.ready (not_not.1 ‹_›) rfl rfl rfl)

theorem failLoad_shifts {code message : String} {details : List (String × Json)}
    (h : db.failLoad code message details modelId = .ok db') : Shifts settings allowed db db' := by
  obtain ⟨m, hm, h⟩ := bind_eq_ok.1 h
  split_ifs at h with hstate <;> rw [ok.injEq] at h <;> subst h
  · exact .refl
  · exact Shift.setInst (rows_eq_ok.1 hm) (.free (.inl (not_not.1 hstate)) rfl rfl rfl)

theorem finishLoad_settled {ready idle : Time}
    (h : db.finishLoad ready idle endpoint modelId = .ok db') :
    ∀ m, Table.get Model.id modelId db'.models = some m → m.inst.state ≠ .loading := by
  obtain ⟨k, hk, h⟩ := bind_eq_ok.1 h
  have hk := rows_eq_ok.1 hk
  intro m hm
  split at h <;> rw [ok.injEq] at h <;> subst h
  · rw [hk, some.injEq] at hm
    exact hm ▸ ‹_›
  · rw [get_setInst_self hk, some.injEq] at hm
    rw [← hm]
    exact nofun

theorem failLoad_settled {code message : String} {details : List (String × Json)}
    (h : db.failLoad code message details modelId = .ok db') :
    ∀ m, Table.get Model.id modelId db'.models = some m → m.inst.state ≠ .loading := by
  obtain ⟨k, hk, h⟩ := bind_eq_ok.1 h
  have hk := rows_eq_ok.1 hk
  intro m hm
  split_ifs at h with hstate <;> rw [ok.injEq] at h <;> subst h
  · rw [hk, some.injEq] at hm
    exact hm ▸ hstate
  · rw [get_setInst_self hk, some.injEq] at hm
    rw [← hm]
    exact nofun

theorem unloadBegin_shifts {r : Option Bool} (h : db.unloadBegin modelId = .ok (r, db')) :
    Shifts settings allowed db db' := by
  obtain ⟨m, hm, h⟩ := bind_eq_ok.1 h
  have hm := rows_eq_ok.1 hm
  split_ifs at h with hstate hidle hmanual <;>
    simp only [ok.injEq, Prod.mk.injEq] at h <;> obtain ⟨-, rfl⟩ := h
  · exact .refl
  · exact Shift.setInst hm (.revive (not_not.1 hstate) hidle.1 rfl rfl rfl)
  · exact .refl
  · exact Shift.setInst hm (.stop (not_not.1 hstate) hmanual (not_not.1 hstate) rfl rfl)

/-- The unload handler's last transaction: there is nothing to do, the model is loaded again for
its leases, or it is gone. -/
theorem unloadFinish_cases {report : Json} (h : db.unloadFinish now due report modelId = .ok db') :
    ∃ m, Table.get Model.id modelId db.models = some m
      ∧ ((m.inst.state ≠ .draining ∧ db' = db)
        ∨ (m.inst.state = .draining ∧ containerRemoved report = true
          ∧ db.activeLeases modelId ≠ [] ∧ ∃ i : ModelInstance, i.state = .loading
            ∧ i.reservedBytes = m.entry.expectedMemoryBytes ∧ i.drainReason = none
            ∧ db' = (db.setInst m i).enqueueLoad due modelId)
        ∨ (m.inst.state = .draining
          ∧ ¬ (containerRemoved report = true ∧ db.activeLeases modelId ≠ [])
          ∧ ∃ i : ModelInstance, i.state.resident = false ∧ i.reservedBytes = 0
            ∧ i.drainReason = none ∧ db' = db.setInst m i)) := by
  obtain ⟨m, hm, h⟩ := bind_eq_ok.1 h
  refine ⟨m, rows_eq_ok.1 hm, ?_⟩
  dsimp only at h
  split at h
  · rw [ok.injEq] at h
    exact .inl ⟨‹_›, h.symm⟩
  · rename_i hstate
    have hstate := not_not.1 hstate
    split at h <;> rw [ok.injEq] at h <;> subst h <;> rename_i hre
    · simp only [isEmpty_eq_false_iff] at hre
      exact .inr (.inl ⟨hstate, hre.1, hre.2, _, rfl, rfl, rfl, rfl⟩)
    · simp only [isEmpty_eq_false_iff] at hre
      refine .inr (.inr ⟨hstate, hre, _, ?_, rfl, rfl, rfl⟩)
      dsimp only
      split_ifs <;> rfl

def idleDue (settings : GatewaySettings) (now : Time) (modelId : ModelId) (db : GatewayDb) : Bool :=
  (Table.get Model.id modelId db.models).any fun m =>
    m.inst.state = .ready && (db.activeLeases modelId).isEmpty
      && m.inst.idleSince.any fun since => settings.idleUnloadSeconds ≤ now - since

theorem drainIfIdle_shifts (due : ModelId → Time)
    (hallow : db.idleDue settings now modelId = true → allowed (.unload modelId)) :
    Shifts settings allowed db (db.drainIfIdle settings now due modelId) := by
  unfold drainIfIdle
  split
  · exact .refl
  · rename_i m hm
    split_ifs with hready
    · have hnone := isEmpty_iff.1 hready.2
      split
      · exact Shift.setInst hm (.touch rfl rfl rfl)
      · rename_i since hsince
        split_ifs with hdue
        · have hidle : db.idleDue settings now modelId = true := by
            simp [idleDue, hm, hready.1, hready.2, hsince, hdue]
          exact .single (.drain hm (by rw [hready.1]; rfl) hnone rfl rfl (.inr hready.1)
            (hallow hidle))
        · exact .refl
    · exact .refl

theorem drainIfIdle_other {due : ModelId → Time} (hid : modelId ≠ id) :
    (db.drainIfIdle settings now due modelId).idleDue settings now id
      = db.idleDue settings now id := by
  unfold drainIfIdle
  split
  · rfl
  · rename_i m hm
    split_ifs
    · split
      · unfold idleDue
        rw [get_setInst_of_ne hm hid]
        rfl
      · split_ifs
        · unfold idleDue
          rw [show Table.get Model.id id (enqueueUnload _ _ (db.setInst m _)).models
            = Table.get Model.id id db.models from get_setInst_of_ne hm hid]
          rfl
        · rfl
    · rfl

theorem drainIdle_shifts (due : ModelId → Time) (locked : List ModelId)
    (hn : (db.models.map Model.id).Nodup)
    (hallow : ∀ id ∈ db.models.map Model.id, id ∉ locked → db.idleDue settings now id = true →
      allowed (.unload id)) :
    Shifts settings allowed db (db.drainIdle settings now due locked) := by
  have hfold : ∀ (ids : List ModelId) (b : GatewayDb), ids.Nodup →
      (∀ id ∈ ids, b.idleDue settings now id = true → allowed (.unload id)) →
      Shifts settings allowed b (ids.foldl (drainIfIdle settings now due) b) := by
    intro ids
    induction ids with
    | nil => exact fun b _ _ => .refl
    | cons id ids ih =>
      intro b hnd hb
      obtain ⟨hnotin, hnd⟩ := nodup_cons.1 hnd
      refine (drainIfIdle_shifts due (hb id (by simp))).trans (ih _ hnd fun k hk hdue => ?_)
      have hne : id ≠ k := fun h => hnotin (h ▸ hk)
      exact hb k (mem_cons_of_mem _ hk) ((drainIfIdle_other hne).symm.trans hdue)
  refine hfold _ _ (hn.filter _) fun id hid => ?_
  obtain ⟨hmem, hlocked⟩ := mem_filter.1 hid
  exact hallow id hmem (by simpa using hlocked)

theorem markCrashed_shifts {container : Json}
    (h : db.markCrashed container modelId = .ok db') : Shifts settings allowed db db' := by
  obtain ⟨m, hm, h⟩ := bind_eq_ok.1 h
  split_ifs at h with hstate <;> rw [ok.injEq] at h <;> subst h
  · exact .refl
  · exact Shift.setInst (rows_eq_ok.1 hm) (.free (.inr (not_not.1 hstate)) rfl rfl rfl)

theorem adopt_shifts (h : db.adopt now endpoint modelId = .ok db') :
    Shifts settings allowed db db' := by
  obtain ⟨m, hm, h⟩ := bind_eq_ok.1 h
  split_ifs at h with hstate <;> rw [ok.injEq] at h <;> subst h
  · exact .refl
  · exact Shift.setInst (rows_eq_ok.1 hm) (.ready (not_not.1 hstate) rfl rfl rfl)

theorem refreshInstallation_shifts (files : DownloadState) (modelId : ModelId) :
    Shifts settings allowed db (db.refreshInstallation files modelId) := by
  unfold refreshInstallation
  split
  · exact .refl
  · exact .single (.files ‹_› files)

end GatewayDb

end Crewquarters
