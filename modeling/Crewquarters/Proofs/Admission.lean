import Crewquarters.Proofs.Gateway

/-!
# Memory admission

Only `acquire` asks whether a model fits (`admitModel`), and every transaction that makes a model
resident either asked or found it resident. A resident model reserves what its catalog entry says,
so changes among the resident states keep the sum, and the others only make it smaller.
-/

namespace Crewquarters

open List Table

namespace GatewayDb

def residents (db : GatewayDb) : List Model := db.models.filter fun m => m.inst.state.resident

def generatives (db : GatewayDb) : List Model :=
  db.residents.filter fun m => isGenerative m.entry.capabilities

def reservedBytes (db : GatewayDb) : ℕ := (db.residents.map fun m => m.inst.reservedBytes).sum

def dueBytes (m : Model) : ℕ := if m.inst.state.resident then m.entry.expectedMemoryBytes else 0

/-- The resident models fit into the serving memory, each reserves what its entry says, and there
is one generative model among them at most if the policy asks for that. -/
structure Admitted (settings : GatewaySettings) (db : GatewayDb) : Prop where
  fits : db.residents ≠ [] →
    db.reservedBytes + settings.loadSafetyMarginBytes ≤ settings.maxServingBytes
  reserves : ∀ m ∈ db.models, m.inst.reservedBytes = dueBytes m
  single : settings.oneGenerativeModel = true → db.generatives.length ≤ 1

variable {settings : GatewaySettings} {allowed : DedupeKey → Prop} {db db' : GatewayDb}
  {m m' : Model} {modelId : ModelId}

theorem admit_ok {capacity : Except PlatformError ℤ} {entry : ModelCatalogEntry}
    (h : db.admitModel settings capacity entry = .ok ()) :
    ((db.others entry).map fun m => m.inst.reservedBytes).sum + entry.expectedMemoryBytes
        + settings.loadSafetyMarginBytes ≤ settings.maxServingBytes
      ∧ (settings.oneGenerativeModel = true → isGenerative entry.capabilities = true →
        (db.others entry).filter (fun m => isGenerative m.entry.capabilities) = []) := by
  unfold admitModel at h
  dsimp only at h
  split_ifs at h with hpolicy hroom
  refine ⟨not_lt.1 hroom, fun hone hgen => ?_⟩
  by_contra hloaded
  exact hpolicy ⟨hone, hgen, by simpa using hloaded⟩

namespace Admitted

theorem of_models (h : db.Admitted settings) (hdb : db'.models = db.models) :
    db'.Admitted settings := by
  obtain ⟨hfits, hreserves, hsingle⟩ := h
  unfold reservedBytes residents at hfits
  unfold generatives residents at hsingle
  rw [← hdb] at hfits hreserves hsingle
  exact ⟨hfits, hreserves, hsingle⟩

theorem reservedBytes_eq (h : db.Admitted settings) :
    db.reservedBytes = (db.models.map fun m => m.inst.reservedBytes).sum := by
  refine sum_filter _ _ fun m hm hres => ?_
  rw [h.reserves m hm, dueBytes, hres]
  rfl

theorem generatives_eq (db : GatewayDb) : db.generatives.length
    = db.models.countP fun m => isGenerative m.entry.capabilities && m.inst.state.resident := by
  rw [countP_eq_length_filter, ← filter_filter]
  rfl

theorem split (hn : (db.models.map Model.id).Nodup)
    (hm : Table.get Model.id modelId db.models = some m) (hentry : m'.entry = m.entry) :
    ∃ l₁ l₂, db.models = l₁ ++ m :: l₂ ∧ Table.put Model.id m' db.models = l₁ ++ m' :: l₂
      ∧ db.others m.entry = (l₁ ++ l₂).filter fun k => k.inst.state.resident := by
  have hid : m.entry.id = modelId := id_of_get hm
  obtain ⟨l₁, l₂, hmodels, hrest, hput⟩ := split_of_get hn hm
  refine ⟨l₁, l₂, hmodels, hput m' ((congrArg _ hentry).trans hid), ?_⟩
  rw [← hrest, filter_filter, others, hid]

section Put

variable (h : db.Admitted settings) (hn : (db.models.map Model.id).Nodup)
  (hm : Table.get Model.id modelId db.models = some m) (hentry : m'.entry = m.entry)
  (hfrom : m'.inst.state.resident = true → m.inst.state.resident = true
    ∨ ∃ capacity, db.admitModel settings capacity m.entry = .ok ())

include h hn hm hentry hfrom

theorem fits_put (hdue : m'.inst.reservedBytes = dueBytes m')
    (hne : ∃ k ∈ Table.put Model.id m' db.models, k.inst.state.resident = true) :
    ((Table.put Model.id m' db.models).map fun k => k.inst.reservedBytes).sum
      + settings.loadSafetyMarginBytes ≤ settings.maxServingBytes := by
  obtain ⟨l₁, l₂, hmodels, hput, hothers⟩ := split hn hm hentry
  have hold := h.reserves m (get_mem hm)
  -- with a resident model in the table before, the sum was in bounds
  have hbefore : (∃ k ∈ db.models, k.inst.state.resident = true) →
      ((l₁ ++ m :: l₂).map fun k => k.inst.reservedBytes).sum + settings.loadSafetyMarginBytes
        ≤ settings.maxServingBytes := by
    rintro ⟨k, hk, hres⟩
    rw [← hmodels, ← h.reservedBytes_eq]
    exact h.fits (ne_nil_of_mem (mem_filter.2 ⟨hk, hres⟩))
  rw [hput]
  simp only [map_append, map_cons, sum_append, sum_cons] at hbefore ⊢
  by_cases hres' : m'.inst.state.resident = true
  · rcases hfrom hres' with hres | ⟨capacity, hadmit⟩
    · have hsum := hbefore ⟨m, get_mem hm, hres⟩
      have hsame : m'.inst.reservedBytes = m.inst.reservedBytes := by
        rw [hdue, hold, dueBytes, dueBytes, hres, hres', hentry]
      omega
    · have hroom := (admit_ok hadmit).1
      have hrest : ∀ k ∈ l₁ ++ l₂, k.inst.state.resident = false → k.inst.reservedBytes = 0 := by
        intro k hk hkres
        have hkm : k ∈ db.models := by
          rw [hmodels]
          exact mem_append.2 ((mem_append.1 hk).imp_right (mem_cons_of_mem _))
        rw [h.reserves k hkm, dueBytes, hkres]
        rfl
      rw [hothers, sum_filter _ _ hrest] at hroom
      simp only [map_append, sum_append] at hroom
      have hpeak : m'.inst.reservedBytes = m.entry.expectedMemoryBytes := by
        rw [hdue, dueBytes, hres', hentry]
        rfl
      omega
  · have hzero : m'.inst.reservedBytes = 0 := by
      rw [hdue, dueBytes, if_neg hres']
    obtain ⟨k, hk, hkres⟩ := hne
    have hkm : k ∈ db.models := by
      rcases mem_put hk with rfl | ⟨hk, -⟩
      · exact absurd hkres hres'
      · exact hk
    have hsum := hbefore ⟨k, hkm, hkres⟩
    omega

theorem single_put (hone : settings.oneGenerativeModel = true) :
    ((Table.put Model.id m' db.models).countP fun k =>
      isGenerative k.entry.capabilities && k.inst.state.resident) ≤ 1 := by
  obtain ⟨l₁, l₂, hmodels, hput, hothers⟩ := split hn hm hentry
  have hbefore := h.single hone
  rw [generatives_eq, hmodels, countP_append, countP_cons] at hbefore
  rw [hput, countP_append, countP_cons]
  by_cases hgen : isGenerative m'.entry.capabilities = true ∧ m'.inst.state.resident = true
  · rcases hfrom hgen.2 with hres | ⟨capacity, hadmit⟩
    · rw [if_pos (by rw [← hentry, hgen.1, hres]; rfl)] at hbefore
      rw [if_pos (by rw [hgen.1, hgen.2]; rfl)]
      exact hbefore
    · have hnone := (admit_ok hadmit).2 hone (hentry ▸ hgen.1)
      have hcount : (l₁ ++ l₂).countP
          (fun k => isGenerative k.entry.capabilities && k.inst.state.resident) = 0 := by
        rw [countP_eq_length_filter, ← filter_filter, ← hothers, hnone]
        rfl
      rw [countP_append] at hcount
      split_ifs <;> omega
  · rw [if_neg (by simpa using hgen)]
    omega

variable (m') in
theorem put (hdue : m'.inst.reservedBytes = dueBytes m')
    (hdb : db'.models = Table.put Model.id m' db.models) : db'.Admitted settings := by
  have hreserves : ∀ k ∈ db'.models, k.inst.reservedBytes = dueBytes k := by
    intro k hk
    rcases mem_put (hdb ▸ hk) with rfl | ⟨hk, -⟩
    · exact hdue
    · exact h.reserves k hk
  refine ⟨fun hne => ?_, hreserves, fun hone => ?_⟩
  · obtain ⟨k, hk⟩ := exists_mem_of_ne_nil _ hne
    obtain ⟨hk, hres⟩ := mem_filter.1 hk
    have hsum : db'.reservedBytes = (db'.models.map fun k => k.inst.reservedBytes).sum := by
      refine sum_filter _ _ fun k hk hkres => ?_
      rw [hreserves k hk, dueBytes, hkres]
      rfl
    rw [hsum, hdb]
    exact fits_put h hn hm hentry hfrom hdue ⟨k, hdb ▸ hk, hres⟩
  · rw [generatives_eq, hdb]
    exact single_put h hn hm hentry hfrom hone

end Put

end Admitted

/-- One row a model, and what is resident fits. -/
structure Orderly (settings : GatewaySettings) (db : GatewayDb) : Prop where
  ids : (db.models.map Model.id).Nodup
  admitted : db.Admitted settings

namespace Orderly

theorem of_models (h : db.Orderly settings) (hdb : db'.models = db.models) : db'.Orderly settings :=
  ⟨hdb ▸ h.ids, h.admitted.of_models hdb⟩

theorem setInst {i : ModelInstance} (h : db.Orderly settings)
    (hm : Table.get Model.id modelId db.models = some m)
    (hdue : i.reservedBytes = if i.state.resident then m.entry.expectedMemoryBytes else 0)
    (hfrom : i.state.resident = true → m.inst.state.resident = true
      ∨ ∃ capacity, db.admitModel settings capacity m.entry = .ok ()) :
    (db.setInst m i).Orderly settings := by
  have hput : (db.setInst m i).models = Table.put Model.id { m with inst := i } db.models := rfl
  refine ⟨?_, h.admitted.put { m with inst := i } h.ids hm rfl hfrom hdue hput⟩
  rw [hput, map_key_put]
  exact h.ids

end Orderly

end GatewayDb

section Changes

variable {m : Model} {i : ModelInstance}

theorem Change.resident (h : Change m.inst i) (hres : i.state.resident = true) :
    m.inst.state.resident = true := by
  cases h with
  | touch state => exact state ▸ hres
  | revive source | stop source | ready source => rw [source]; rfl
  | free _ state => rw [state] at hres; exact absurd hres Bool.false_ne_true

theorem Change.due (h : Change m.inst i) (hm : m.inst.reservedBytes = GatewayDb.dueBytes m) :
    i.reservedBytes = if i.state.resident then m.entry.expectedMemoryBytes else 0 := by
  unfold GatewayDb.dueBytes at hm
  cases h with
  | touch state _ reserved => rw [reserved, hm, state]
  | revive source _ state reserved => rw [reserved, hm, source, state]; rfl
  | stop source _ state _ reserved => rw [reserved, hm, source, state]
  | ready source state reserved => rw [reserved, hm, source, state]; rfl
  | free _ state reserved => rw [reserved, state]; rfl

end Changes

namespace GatewayDb

variable {settings : GatewaySettings} {allowed : DedupeKey → Prop} {db db' : GatewayDb}
  {modelId : ModelId}

theorem Orderly.shift (h : db.Orderly settings) (hs : Shift settings allowed db db') :
    db'.Orderly settings := by
  cases hs with
  | lease models | release models => exact h.of_models models
  | @files id m row files =>
    have hids := h.ids
    rw [← map_key_put { m with files }] at hids
    exact ⟨hids, h.admitted.put { m with files } h.ids row rfl .inl
      (h.admitted.reserves m (get_mem row)) rfl⟩
  | @change id m i row change =>
    exact h.setInst row (change.due (h.admitted.reserves m (get_mem row)))
      fun hres => .inl (change.resident hres)
  | load row source admitted state reserved =>
    exact (h.setInst row (by rw [reserved, state]; rfl) fun _ => .inr ⟨_, admitted⟩).of_models rfl
  | @drain id m i due row source unleased state reserved =>
    have hold := h.admitted.reserves m (get_mem row)
    unfold dueBytes at hold
    exact (h.setInst row (by rw [reserved, hold, source, state]; rfl) fun _ =>
      .inl source).of_models rfl
  | requeue => exact h.of_models rfl

theorem Orderly.shifts (h : db.Orderly settings) (hs : Shifts settings allowed db db') :
    db'.Orderly settings := by
  induction hs with
  | refl => exact h
  | tail _ hs ih => exact ih.shift hs

theorem Orderly.unloadFinish {now due : Time} {report : Json} (h : db.Orderly settings)
    (hf : db.unloadFinish now due report modelId = .ok db') : db'.Orderly settings := by
  obtain ⟨m, hm, ⟨-, rfl⟩ | ⟨hstate, -, -, i, hi, hreserved, -, rfl⟩
    | ⟨-, -, i, hi, hreserved, -, rfl⟩⟩ := unloadFinish_cases hf
  · exact h
  · exact (h.setInst hm (by rw [hreserved, hi]; rfl) fun _ =>
      .inl (by rw [hstate]; rfl)).of_models rfl
  · refine h.setInst hm (by rw [hreserved, hi]; rfl) fun hres => ?_
    rw [hi] at hres
    exact absurd hres Bool.false_ne_true

end GatewayDb

namespace Gateway

variable {settings : GatewaySettings} {s t : Gateway} {a : GatewayAction}

theorem orderly_step (h : s.db.Orderly settings) (hstep : step settings a s = some t) :
    t.db.Orderly settings := by
  rcases tables_of_step h.ids hstep with ⟨db, hshifts, hmodels, -⟩ | ⟨_, _, _, _, hfinish⟩
  · exact (h.shifts hshifts).of_models hmodels
  · exact h.unloadFinish hfinish

end Gateway

theorem GatewayDb.Orderly.of_none {settings : GatewaySettings} {db : GatewayDb}
    (hids : (db.models.map Model.id).Nodup)
    (hnone : ∀ m ∈ db.models, m.inst.state.resident = false ∧ m.inst.reservedBytes = 0) :
    db.Orderly settings := by
  have hnil : db.residents = [] :=
    filter_eq_nil_iff.2 fun m hm => by rw [(hnone m hm).1]; exact Bool.false_ne_true
  refine ⟨hids, fun hne => absurd hnil hne, fun m hm => ?_, fun _ => ?_⟩
  · rw [(hnone m hm).2, GatewayDb.dueBytes, (hnone m hm).1]
    rfl
  · rw [GatewayDb.generatives, hnil]
    exact Nat.zero_le 1

/-- Serving memory and the one-model policy, in every run of the gateway that starts without a
resident model. -/
theorem memory_admitted (settings : GatewaySettings) (s : Gateway) (actions : List GatewayAction)
    (hids : (s.db.models.map Model.id).Nodup)
    (hnone : ∀ m ∈ s.db.models, m.inst.state.resident = false ∧ m.inst.reservedBytes = 0) :
    (gateway settings).Along (fun t => t.db.Admitted settings) actions s := by
  have horderly : (gateway settings).Along (fun t => t.db.Orderly settings) actions s :=
    Machine.along_of_step (fun _ _ _ h hstep => Gateway.orderly_step h hstep) actions
      (.of_none hids hnone)
  exact horderly.mono fun _ h => h.admitted

/-- Two chat models that do not fit together are asked for, one after the other. -/
theorem memory_admitted_twoModels :
    (gateway ⟨0, 100, 10, true, 600, 60⟩).Along (fun t => t.db.Admitted ⟨0, 100, 10, true, 600, 60⟩)
      [.acquire (.ok 1000) 0 0 "a" .run "r" "" 60, .acquire (.ok 1000) 1 1 "b" .run "r" "" 60]
      (Gateway.init [⟨⟨"a", 60, ["chat"]⟩, .installed, .fresh⟩,
        ⟨⟨"b", 60, ["chat"]⟩, .installed, .fresh⟩]) :=
  memory_admitted _ _ _ (by decide) (by decide)

end Crewquarters
