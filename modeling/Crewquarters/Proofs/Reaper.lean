import Crewquarters.Reaper
import Crewquarters.Proofs.Leases

/-!
# Clean-ups and newer loads

A load begins only where an acquisition finds the model not resident, or an unload ends with a lease
to serve (`isLoading_of_step`). So the reaper stops no load that is newer than the read its stop
rests on, as long as no load begins between the two.
-/

namespace Crewquarters

open List Option GatewayDb

variable {rows : List StuckRow} {seen : Seen} {now due : Time} {a : GatewayAction}
  {row : StuckRow}

/-- The rows `_recover_stuck` may stop; one that was read as draining is not stopped. -/
def loadingRows (rows : List StuckRow) : List Seen :=
  (rows.filter fun row => row.state = .loading).map StuckRow.seen

def ReapPc.decided : ReapPc → List Seen
  | .idle | .crashes _ | .marking _ _ _ => []
  | .stopCrashed seen _ => [seen]
  | .stuck rows | .adopting _ _ rows | .failing _ rows | .requeueing _ rows => loadingRows rows
  | .probing seen rows | .aborting seen rows => seen :: loadingRows rows
  | .orphans models => models
  | .stopOrphan seen models => seen :: models

theorem ReapPc.decided_of_stops {pc : ReapPc} (h : pc.stops = some seen) : seen ∈ pc.decided := by
  cases pc <;> simp_all [stops, decided]

theorem loadingRows_tail (h : seen ∈ loadingRows rows) : seen ∈ loadingRows (row :: rows) := by
  unfold loadingRows
  rw [filter_cons]
  split_ifs
  · exact mem_cons_of_mem _ h
  · exact h

theorem seen_mem_loadingRows (h : row.state = .loading) : row.seen ∈ loadingRows (row :: rows) := by
  simp [loadingRows, h]

namespace GatewayDb

variable {settings : GatewaySettings} {allowed : DedupeKey → Prop} {db db' : GatewayDb}
  {m : Model} {modelId id : ModelId}

theorem isLoading_iff : db.isLoading id = true
    ↔ ∃ m, Table.get Model.id id db.models = some m ∧ m.inst.state = .loading := by
  simp [isLoading, Option.any_eq_true]

theorem isServing_of_isLoading (h : db.isLoading id = true) : db.isServing id = true := by
  obtain ⟨m, hm, hstate⟩ := isLoading_iff.1 h
  simp [isServing, hm, hstate]

theorem isLoading_congr (h : db'.models = db.models) : db'.isLoading id = db.isLoading id := by
  rw [isLoading, isLoading, h]

theorem Shift.isLoading (hs : Shift settings allowed db db') (hno : ¬ allowed (.load id))
    (hl : db'.isLoading id = true) : db.isLoading id = true := by
  obtain ⟨m', hm', hstate⟩ := isLoading_iff.1 hl
  obtain ⟨m, hm, -, hstep⟩ := hs.row hm'
  refine isLoading_iff.2 ⟨m, hm, ?_⟩
  cases hstep with
  | same same => rw [← same, hstate]
  | load _ _ _ allow => exact absurd allow hno
  | drain _ _ state => cases state.symm.trans hstate
  | change change =>
    cases change with
    | touch state => rw [← state, hstate]
    | revive _ _ state | stop _ _ state | ready _ state => cases state.symm.trans hstate
    | free _ state => rw [hstate] at state; cases state

theorem Shifts.isLoading (hs : Shifts settings allowed db db') (hno : ¬ allowed (.load id))
    (hl : db'.isLoading id = true) : db.isLoading id = true := by
  induction hs with
  | refl => exact hl
  | tail _ hstep ih => exact ih (hstep.isLoading hno hl)

theorem isLoading_setInst (hm : Table.get Model.id modelId db.models = some m)
    {i : ModelInstance} (hstate : i.state = .loading) :
    (db.setInst m i).isLoading modelId = true :=
  isLoading_iff.2 ⟨_, get_setInst_self hm, hstate⟩

theorem unloadFinish_isLoading {report : Json}
    (h : db.unloadFinish now due report modelId = .ok db')
    (hno : Gateway.reloads report modelId db = true → modelId ≠ id) (hl : db'.isLoading id = true) :
    db.isLoading id = true := by
  obtain ⟨m, hm, hcases⟩ := unloadFinish_cases h
  rcases hcases with ⟨-, rfl⟩ | ⟨hstate, hremoved, hleases, i, -, -, -, rfl⟩
    | ⟨-, -, i, hresident, -, -, rfl⟩
  · exact hl
  · have hreloads : Gateway.reloads report modelId db = true := by
      simp [Gateway.reloads, hremoved, hm, hstate, hleases]
    obtain ⟨k, hk, hkstate⟩ := isLoading_iff.1 hl
    rcases get_setInst hm hk with ⟨rfl, -⟩ | ⟨-, hk⟩
    · exact absurd rfl (hno hreloads)
    · exact isLoading_iff.2 ⟨k, hk, hkstate⟩
  · obtain ⟨k, hk, hkstate⟩ := isLoading_iff.1 hl
    rcases get_setInst hm hk with ⟨rfl, rfl⟩ | ⟨-, hk⟩
    · rw [hkstate] at hresident
      cases hresident
    · exact isLoading_iff.2 ⟨k, hk, hkstate⟩

end GatewayDb

namespace Gateway

variable {settings : GatewaySettings} {s t : Gateway} {a : GatewayAction} {id : ModelId}

theorem Sound.step (hs : Sound s) (hstep : step settings a s = some t) : Sound t := by
  have hdid : Did settings (fun _ => True) s a t := did_of_step hs.models (fun _ _ => trivial) hstep
  exact hs.did hdid

theorem isLoading_of_step (hs : Sound s) (hstep : step settings a s = some t)
    (hno : .load id ∉ starts settings a s) (hl : t.db.isLoading id = true) :
    s.db.isLoading id = true := by
  have hdid : Did settings (fun key => key ∈ starts settings a s) s a t :=
    did_of_step hs.models (fun _ hkey => hkey) hstep
  rcases hdid.tables with ⟨db, hshifts, hmodels, -⟩ | ⟨modelId, now, due, report, hfinish, hallow⟩
  · rw [isLoading_congr hmodels] at hl
    exact GatewayDb.Shifts.isLoading hshifts hno hl
  · refine unloadFinish_isLoading hfinish (fun hreloads hid => hno ?_) hl
    exact hid ▸ hallow hreloads

theorem acquire_isLoading {capacity : Except PlatformError ℤ} {holderType : HolderType}
    {holderId label : String} {ttl lease : ℕ} {db db' : GatewayDb}
    (hres : residency false id db = true)
    (hok : db.acquire settings capacity now due id holderType holderId label ttl
      = .ok (lease, db')) : db.isLoading id = false ∧ db'.isLoading id = true := by
  simp only [residency, Option.any_eq_true, decide_eq_true_eq] at hres
  obtain ⟨m, hm, hstate⟩ := hres
  constructor
  · by_contra hl
    obtain ⟨k, hk, hks⟩ := isLoading_iff.1 (Bool.eq_true_of_not_eq_false hl)
    obtain rfl := some.inj (hm.symm.trans hk)
    rw [hks] at hstate
    cases hstate
  · obtain ⟨k, hk, hok⟩ := bind_eq_ok.1 hok
    obtain rfl := some.inj (hm.symm.trans (rows_eq_ok.1 hk))
    split_ifs at hok
    obtain ⟨-, -, hok⟩ := bind_eq_ok.1 hok
    obtain rfl := (Prod.mk.inj (Except.ok.inj hok)).2
    have hmodels : (db.putLease (now + ttl) id holderType holderId label).2.models = db.models :=
      (putLease_frame ..).1
    exact isLoading_setInst (hmodels.symm ▸ hm) rfl

theorem unloadFinish_reloads {report : Json} {db : GatewayDb} (hre : reloads report id db = true) :
    db.isLoading id = false ∧ ∃ db', db.unloadFinish now due report id = .ok db'
      ∧ db'.isLoading id = true := by
  simp only [reloads, Bool.and_eq_true, Bool.not_eq_true', isEmpty_eq_false_iff,
    Option.any_eq_true, decide_eq_true_eq] at hre
  obtain ⟨⟨hremoved, hleases⟩, m, hm, hstate⟩ := hre
  constructor
  · by_contra hl
    obtain ⟨k, hk, hks⟩ := isLoading_iff.1 (Bool.eq_true_of_not_eq_false hl)
    obtain rfl := some.inj (hm.symm.trans hk)
    cases hstate.symm.trans hks
  · obtain ⟨db', hok⟩ := unloadFinish_total hm now due report
    refine ⟨db', hok, ?_⟩
    obtain ⟨k, hk, hcases⟩ := unloadFinish_cases hok
    obtain rfl := some.inj (hm.symm.trans hk)
    rcases hcases with ⟨hne, -⟩ | ⟨-, -, -, i, hi, -, -, rfl⟩ | ⟨-, hnot, -⟩
    · exact absurd hstate hne
    · exact isLoading_setInst hm hi
    · exact absurd ⟨hremoved, hleases⟩ hnot

theorem isLoading_of_starts (hstep : step settings a s = some t)
    (hstart : .load id ∈ starts settings a s) :
    s.db.isLoading id = false ∧ t.db.isLoading id = true := by
  cases a with
  | acquire capacity now due modelId holderType holderId label ttl =>
    simp only [starts, mem_ite_nil_right, Bool.and_eq_true, mem_singleton,
      DedupeKey.load.injEq] at hstart
    obtain ⟨⟨hisOk, hres⟩, rfl⟩ := hstart
    obtain rfl := some.inj hstep
    cases hacq : s.db.acquire settings capacity now due id holderType holderId label ttl with
    | error => simp [hacq, Except.isOk, Except.toBool] at hisOk
    | ok => exact acquire_isLoading hres hacq
  | advance handler clk random reply =>
    obtain ⟨h, hget, rfl⟩ := map_eq_some_iff.1 hstep
    cases reply with
    | value v healthy late =>
      simp only [starts, hget] at hstart
      split at hstart
      · rename_i report modelId hpc hpayload
        split_ifs at hstart with hre
        · obtain rfl := DedupeKey.load.inj (mem_singleton.1 hstart)
          obtain ⟨hnot, db', hok, hl⟩ := unloadFinish_reloads hre
          refine ⟨hnot, ?_⟩
          simp only [advance, handle, hpc, hpayload, commitGoto]
          rw [hok]
          exact hl
        · simp at hstart
      · simp at hstart
    | error | exception => simp [starts] at hstart
  | unload =>
    simp [starts] at hstart
  | drainIdle => simp [starts] at hstart
  | _ => simp [starts] at hstart

end Gateway

namespace Reaping

/-- The instance is `LOADING` or `READY` on a load that began after the read. -/
def OnNewerLoad (seen : Seen) (s : Reaping) : Prop :=
  seen.loads < s.loads seen.modelId ∧ s.gateway.db.isServing seen.modelId = true

/-- No clean-up stops a model that was loaded anew since it was read. -/
def Clean : ReapingAction → Reaping → Prop
  | .reap _ _ _, s => ∀ seen ∈ s.pc.stops, ¬ s.OnNewerLoad seen
  | .gateway _, _ => True

/-- A load begins of a model the reaper may stop without reading it again. -/
def Overtakes (settings : GatewaySettings) : ReapingAction → Reaping → Prop
  | .gateway a, s => ∃ seen ∈ s.pc.decided, .load seen.modelId ∈ Gateway.starts settings a s.gateway
  | .reap _ _ _, _ => False

instance (seen : Seen) (s : Reaping) : Decidable (s.OnNewerLoad seen) :=
  inferInstanceAs (Decidable (_ ∧ _))

instance : ∀ (a : ReapingAction) (s : Reaping), Decidable (Clean a s)
  | .reap _ _ _, s => inferInstanceAs (Decidable (∀ seen ∈ s.pc.stops, ¬ s.OnNewerLoad seen))
  | .gateway _, _ => isTrue trivial

instance (settings : GatewaySettings) :
    ∀ (a : ReapingAction) (s : Reaping), Decidable (Overtakes settings a s)
  | .gateway _, s => inferInstanceAs (Decidable (∃ seen ∈ s.pc.decided, _))
  | .reap _ _ _, _ => isFalse id

/-- What the reaper has read is not ahead of the loads. -/
structure Sound (s : Reaping) : Prop where
  gateway : s.gateway.Sound
  past : ∀ seen ∈ s.pc.decided, seen.loads ≤ s.loads seen.modelId

variable {settings : GatewaySettings} {loadPollSeconds : ℚ} {s t : Reaping} {id : ModelId}

theorem loads_le_setGateway (g : Gateway) (s : Reaping) :
    s.loads id ≤ (s.setGateway g).loads id := by
  unfold setGateway
  dsimp only
  split_ifs
  · exact Nat.le_succ _
  · exact le_rfl

theorem loads_act (hs : s.gateway.Sound) (h : s.act settings a = some t)
    (hno : .load id ∉ Gateway.starts settings a s.gateway) : t.loads id = s.loads id := by
  obtain ⟨g, hg, rfl⟩ := map_eq_some_iff.1 h
  unfold setGateway
  dsimp only
  rw [if_neg]
  intro hl
  simp only [Bool.and_eq_true, Bool.not_eq_true'] at hl
  cases hl.2.symm.trans (Gateway.isLoading_of_step hs hg hno hl.1)

/-- What a step of the reaper does: nothing it does begins a load, and what it goes on with it
knew before or just read. -/
structure Reaped (s t : Reaping) : Prop where
  gateway : t.gateway.Sound
  loads : t.loads = s.loads
  decided : ∀ seen ∈ t.pc.decided, seen ∈ s.pc.decided ∨ seen.loads = s.loads seen.modelId

theorem Reaped.goto (hs : s.gateway.Sound) {pc : ReapPc}
    (hpc : ∀ seen ∈ pc.decided, seen ∈ s.pc.decided ∨ seen.loads = s.loads seen.modelId) :
    Reaped s (s.goto pc) :=
  ⟨hs, rfl, hpc⟩

theorem Reaped.act {pc : ReapPc} (h : (s.act settings a).map (Reaping.goto pc) = some t)
    (hs : s.gateway.Sound) (hstarts : Gateway.starts settings a s.gateway = [])
    (hpc : ∀ seen ∈ pc.decided, seen ∈ s.pc.decided ∨ seen.loads = s.loads seen.modelId) :
    Reaped s t := by
  obtain ⟨u, hu, rfl⟩ := map_eq_some_iff.1 h
  have hloads : u.loads = s.loads := by
    funext id
    exact loads_act hs hu (by simp [hstarts])
  obtain ⟨g, hg, rfl⟩ := map_eq_some_iff.1 hu
  exact ⟨hs.step hg, hloads, hpc⟩

theorem see_loads (s : Reaping) (id : ModelId) : (s.see id).loads = s.loads (s.see id).modelId :=
  rfl

theorem mem_readStuck (h : seen ∈ loadingRows s.readStuck) : seen.loads = s.loads seen.modelId := by
  unfold loadingRows readStuck at h
  simp only [List.mem_map, mem_filter] at h
  obtain ⟨-, ⟨⟨m, -, rfl⟩, -⟩, rfl⟩ := h
  rfl

theorem recover_decided {now : Time} (h : seen ∈ (s.recover loadPollSeconds now row rows).decided) :
    seen ∈ loadingRows (row :: rows) := by
  unfold recover at h
  dsimp only at h
  split_ifs at h with hloading
  · exact loadingRows_tail h
  · exact loadingRows_tail h
  · rcases mem_cons.1 h with rfl | h
    · exact seen_mem_loadingRows hloading
    · exact loadingRows_tail h
  · exact loadingRows_tail h
  · exact loadingRows_tail h

theorem mark_reaped (hs : s.gateway.Sound) {container : Json} {modelId : ModelId}
    {ready : List ModelId} (h : s.mark settings container modelId ready = some t) : Reaped s t := by
  unfold mark at h
  split at h
  · obtain rfl := some.inj h
    exact .goto hs (by simp [ReapPc.decided])
  · split_ifs at h
    · obtain rfl := some.inj h
      exact .goto hs (by simp [ReapPc.decided])
    · refine .act h hs rfl fun seen hseen => .inr ?_
      rw [mem_singleton.1 hseen]
      exact see_loads s modelId

theorem reap_reaped (hs : s.gateway.Sound) {reply : Reply}
    (h : s.reap settings loadPollSeconds now due reply = some t) : Reaped s t := by
  unfold reap at h
  split at h
  -- the reads of the crash loop decide nothing yet
  · obtain rfl := some.inj h
    exact .goto hs (by simp [ReapPc.decided])
  · obtain rfl := some.inj h
    exact .goto hs fun seen hseen => .inr (mem_readStuck hseen)
  · obtain rfl := some.inj h
    refine .goto hs fun seen hseen => ?_
    split_ifs at hseen <;> simp [ReapPc.decided] at hseen
  · exact mark_reaped hs h
  · obtain rfl := some.inj h
    exact .goto hs (by simp [ReapPc.decided])
  · obtain rfl := some.inj h
    exact .goto hs (by simp [ReapPc.decided])
  · obtain rfl := some.inj h
    refine .goto hs fun seen hseen => .inr ?_
    obtain ⟨id, -, rfl⟩ := mem_map.1 hseen
    exact see_loads s id
  · rename_i row rows hpc
    obtain rfl := some.inj h
    refine .goto hs fun seen hseen => .inl ?_
    rw [hpc]
    exact recover_decided hseen
  · rename_i seen rows state healthy late hpc
    obtain rfl := some.inj h
    refine .goto hs fun k hk => .inl ?_
    rw [hpc]
    split_ifs at hk
    · exact mem_cons_of_mem _ hk
    · exact hk
  · rename_i endpoint seen rows hpc
    exact .act h hs rfl fun k hk => .inl (hpc ▸ hk)
  · rename_i seen rows hpc
    obtain rfl := some.inj h
    exact .goto hs fun k hk => .inl (hpc ▸ mem_cons_of_mem _ hk)
  · rename_i seen rows hpc
    obtain rfl := some.inj h
    exact .goto hs fun k hk => .inl (hpc ▸ mem_cons_of_mem _ hk)
  · rename_i seen rows hpc
    exact .act h hs rfl fun k hk => .inl (hpc ▸ hk)
  · rename_i seen rows hpc
    exact .act h hs rfl fun k hk => .inl (hpc ▸ hk)
  · obtain rfl := some.inj h
    exact .goto hs (by simp [ReapPc.decided])
  · rename_i seen models state hpc
    obtain rfl := some.inj h
    refine .goto hs fun k hk => .inl ?_
    rw [hpc]
    split_ifs at hk
    · exact mem_cons_of_mem _ hk
    · exact hk
  · rename_i seen models hpc
    obtain rfl := some.inj h
    exact .goto hs fun k hk => .inl (hpc ▸ mem_cons_of_mem _ hk)
  · rename_i seen models hpc
    obtain rfl := some.inj h
    exact .goto hs fun k hk => .inl (hpc ▸ mem_cons_of_mem _ hk)
  · obtain rfl := some.inj h
    exact .goto hs (by simp [ReapPc.decided])
  · obtain rfl := some.inj h
    exact .goto hs (by simp [ReapPc.decided])

theorem Sound.init {models : List Model} (hids : (models.map Model.id).Nodup) :
    Sound (init models) :=
  ⟨.init hids, by simp [Reaping.init, ReapPc.decided]⟩

theorem Sound.step (hs : Sound s) {a : ReapingAction}
    (hstep : (reaping settings loadPollSeconds).step a s = some t) : Sound t := by
  cases a with
  | gateway =>
    obtain ⟨g, hg, rfl⟩ := map_eq_some_iff.1 hstep
    exact ⟨hs.gateway.step hg, fun seen hseen =>
      (hs.past seen hseen).trans (loads_le_setGateway g s)⟩
  | reap =>
    obtain ⟨hgateway, hloads, hdecided⟩ := reap_reaped hs.gateway hstep
    refine ⟨hgateway, fun seen hseen => ?_⟩
    rw [hloads]
    rcases hdecided seen hseen with hold | hnew
    · exact hs.past seen hold
    · exact hnew.le

def Current (s : Reaping) : Prop := ∀ seen ∈ s.pc.decided, s.loads seen.modelId = seen.loads

/-- Unless a load overtakes it, a decision stays current. -/
theorem Current.step (hs : Sound s) (hc : s.Current) {a : ReapingAction}
    (hok : ¬ Overtakes settings a s)
    (hstep : (reaping settings loadPollSeconds).step a s = some t) : t.Current := by
  cases a with
  | gateway a =>
    intro seen hseen
    obtain ⟨g, -, rfl⟩ := map_eq_some_iff.1 hstep
    have hno : .load seen.modelId ∉ Gateway.starts settings a s.gateway := fun hstart =>
      hok ⟨seen, hseen, hstart⟩
    rw [loads_act hs.gateway hstep hno]
    exact hc seen hseen
  | reap =>
    obtain ⟨-, hloads, hdecided⟩ := reap_reaped hs.gateway hstep
    intro seen hseen
    rw [hloads]
    rcases hdecided seen hseen with hold | hnew
    · exact hc seen hold
    · exact hnew.symm

theorem Current.clean (hc : s.Current) (a : ReapingAction) : Clean a s := by
  cases a with
  | gateway => trivial
  | reap =>
    intro seen hseen hnewer
    exact hnewer.1.ne (hc seen (ReapPc.decided_of_stops hseen)).symm

theorem Sound.onNewerLoad (hs : Sound s) (hstops : s.pc.stops = some seen)
    (hstart : .load seen.modelId ∈ Gateway.starts settings a s.gateway)
    (hstep : (reaping settings loadPollSeconds).step (.gateway a) s = some t) :
    t.OnNewerLoad seen := by
  obtain ⟨g, hg, rfl⟩ := map_eq_some_iff.1 hstep
  obtain ⟨hnot, hl⟩ := Gateway.isLoading_of_starts hg hstart
  have hpast := hs.past seen (ReapPc.decided_of_stops hstops)
  refine ⟨?_, isServing_of_isLoading hl⟩
  have hloads : (s.setGateway g).loads seen.modelId = s.loads seen.modelId + 1 := by
    simp [setGateway, hl, hnot]
  omega

/-- In a run in which no load begins of a model between the read the reaper's stop of it rests on
and that stop, no clean-up stops a newer load; and a load that begins when the stop is next is
what the stop finds. -/
theorem cleanups_spare_newer_loads (settings : GatewaySettings) (loadPollSeconds : ℚ)
    (models : List Model) (actions : List ReapingAction) (hids : (models.map Model.id).Nodup) :
    ((reaping settings loadPollSeconds).Meets (fun a s => ¬ Overtakes settings a s) actions
        (init models) →
      (reaping settings loadPollSeconds).Meets Clean actions (init models))
    ∧ ∀ s, (reaping settings loadPollSeconds).run actions (init models) = some s →
      ∀ a t, (reaping settings loadPollSeconds).step (.gateway a) s = some t →
        ∀ seen, s.pc.stops = some seen →
          .load seen.modelId ∈ Gateway.starts settings a s.gateway →
          ∀ now due reply, ¬ Clean (.reap now due reply) t := by
  have hinit : Sound (init models) ∧ (init models).Current :=
    ⟨.init hids, by simp [Current, Reaping.init, ReapPc.decided]⟩
  refine ⟨fun hmeets => ?_, fun s hrun a t hstep seen hstops hstart now due reply hclean => ?_⟩
  · have halong := Machine.along_of_meets (I := fun s => Sound s ∧ s.Current)
      (fun a s t hs hok hstep => ⟨hs.1.step hstep, hs.2.step hs.1 hok hstep⟩) actions hinit hmeets
    exact halong.meets fun a s hs => hs.2.clean a
  · have hs : Sound s :=
      Machine.run_keeps (fun _ _ _ hs hstep => hs.step hstep) actions hinit.1 hrun
    have hnewer := hs.onNewerLoad hstops hstart hstep
    obtain ⟨g, -, rfl⟩ := map_eq_some_iff.1 hstep
    exact hclean seen hstops hnewer

def oneModel : List Model := [⟨⟨"a", 60, ["chat"]⟩, .installed, .fresh⟩]

def exited : Json := .obj [("container", .obj [("state", .str "exited")])]

/-- The model is loaded and crashes; the reaper reads that it is ready, that its container exited,
and marks it. -/
def crashMarked : List ReapingAction :=
  let next (reply : Reply) : ReapingAction := .gateway (.advance 0 (fun _ => 2) 0 reply)
  let done : Reply := .value .null true false
  let up : Reply := .value (.obj [("container", .obj [("state", .str "running"),
    ("endpoint", .obj [("inprocess", .bool true)])])]) true false
  [.gateway (.acquire (.ok 1000) 0 0 "a" .run "r" "" 60), .gateway (.claim "w" [] 1), next done,
    next done, next done, next done, next up, next done, next up, next done, next done,
    .reap 10 10 done, .reap 10 10 (.value exited true false), .reap 10 10 done]

def overtaken : List ReapingAction :=
  crashMarked ++ [.gateway (.acquire (.ok 1000) 11 11 "a" .run "q" "" 60)]

/-- The stop that the reaper calls next names a model that is loading anew. -/
theorem newer_load_stopped :
    ∃ s, (reaping ⟨0, 100, 10, true, 600, 60⟩ 1).run overtaken (init oneModel) = some s
      ∧ s.pc.stops = some ⟨"a", 1⟩ ∧ s.loads "a" = 2 ∧ s.gateway.db.isLoading "a" = true
      ∧ ¬ Clean (.reap 12 12 (.value .null true false)) s := by
  refine ⟨_, rfl, ?_⟩
  decide

/-- The same request after the stop. -/
theorem cleanups_spare_later_load :
    (reaping ⟨0, 100, 10, true, 600, 60⟩ 1).Meets Clean
      (crashMarked ++ [.reap 11 11 (.value .null true false),
        .gateway (.acquire (.ok 1000) 12 12 "a" .run "q" "" 60)]) (init oneModel) :=
  (cleanups_spare_newer_loads _ _ _ _ (by decide)).1 (by decide)

end Reaping

end Crewquarters
