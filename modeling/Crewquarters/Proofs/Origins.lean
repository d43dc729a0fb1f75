import Crewquarters.Proofs.Edits

/-!
# Where runs come from

`create_run` writes who a run belongs to, which version of which agent it runs and who started it,
and no operation changes that afterwards (`Steady`). So the origins of the runs of a database only
grow, by one at every new run, whatever transactions are committed in between (`DbOp.origins`).
-/

namespace Crewquarters

open List

/-- The columns of a run that never change. -/
structure RunOrigin where
  id : RunId
  installationId : InstallationId
  agentVersionId : VersionId
  scheduleId : Option ScheduleId
  scheduledFor : Option Time
  parentRunId : Option RunId
  startKey : Option String

def AgentRun.origin (run : AgentRun) : RunOrigin :=
  ⟨run.id, run.installationId, run.agentVersionId, run.scheduleId, run.scheduledFor,
    run.parentRunId, run.startKey⟩

def RunData.origin (d : RunData) : RunOrigin := d.run.origin

/-- A run as it is inserted. -/
structure RunData.Created (id : RunId) (now : Time) (d : RunData) : Prop where
  id_eq : d.id = id
  state : d.run.state = .queued
  entered : d.run.stateEnteredAt = now
  active : d.run.activeSecondsUsed = 0
  waited : d.run.inputWaitSecondsUsed = 0
  requests : d.requests = []
  events : d.events = [⟨1, 1, .stateChanged, .stateChanged none .queued none none, none, none⟩]

/-- An operation on a run leaves its origin, and ids that were given stay given. -/
def Steady (s t : Session) : Prop :=
  t.run.origin = s.run.origin ∧ s.nextUuid ≤ t.nextUuid

variable {s t u : Session} {G : Guards} {asks reports : Prop} {clk : Clock}

namespace Steady

theorem refl : Steady s s := ⟨rfl, le_rfl⟩

theorem trans (h : Steady s t) (h' : Steady t u) : Steady s u :=
  ⟨h'.1.trans h.1, h.2.trans h'.2⟩

theorem move (now : Time) (target : RunState) (reason : Option String) (error : Option Json)
    (retryable : Option Bool) (s : Session) :
    Steady s (moved now target reason error retryable s) := by
  obtain ⟨a, w, h⟩ := account_eq now s.run
  refine ⟨?_, le_rfl⟩
  simp [moved, enter, h, AgentRun.origin]

theorem step (h : Edit G asks reports s t) : Steady s t := by
  cases h with
  | move => exact move ..
  | uuid | ask => exact ⟨rfl, Nat.le_succ _⟩
  | _ => exact ⟨rfl, le_rfl⟩

theorem of_edits (h : Edits G asks reports s t) : Steady s t :=
  h.relates (fun _ => refl) (fun _ _ _ h h' => h.trans h') fun _ _ h => step h

end Steady

namespace Db

variable {db db' db'' : Db} {id : RunId}

def origins (db : Db) : List RunOrigin := db.runs.map RunData.origin

/-- Ids are given once. -/
structure Numbered (db : Db) : Prop where
  nodup : (db.origins.map RunOrigin.id).Nodup
  lt : ∀ o ∈ db.origins, o.id < db.nextUuid

/-- No run was added. -/
structure SameRuns (db db' : Db) : Prop where
  origins : db'.origins = db.origins
  nextUuid : db.nextUuid ≤ db'.nextUuid

theorem SameRuns.refl : db.SameRuns db := ⟨rfl, le_rfl⟩

theorem SameRuns.trans (h : db.SameRuns db') (h' : db'.SameRuns db'') : db.SameRuns db'' :=
  ⟨h'.origins.trans h.origins, h.nextUuid.trans h'.nextUuid⟩

theorem SameRuns.numbered (h : db.SameRuns db') (hn : db.Numbered) : db'.Numbered :=
  ⟨by rw [h.origins]; exact hn.nodup,
    fun o ho => (hn.lt o (h.origins ▸ ho)).trans_le h.nextUuid⟩

theorem Numbered.add (hn : db.Numbered) {o : RunOrigin} (horigins : db'.origins = db.origins ++ [o])
    (hid : o.id = db.nextUuid) (hnext : db'.nextUuid = db.nextUuid + 1) : db'.Numbered := by
  have hlt : ∀ p ∈ db'.origins, p.id < db'.nextUuid := by
    intro p hp
    rw [horigins] at hp
    rw [hnext]
    rcases mem_append.1 hp with hp | hp
    · exact (hn.lt p hp).trans (Nat.lt_succ_self _)
    · rw [mem_singleton.1 hp, hid]
      exact Nat.lt_succ_self _
  refine ⟨?_, hlt⟩
  rw [horigins, map_append, nodup_append]
  refine ⟨hn.nodup, by simp, fun x hx y hy => ?_⟩
  obtain ⟨p, hp, rfl⟩ := mem_map.1 hx
  obtain rfl : y = o.id := by simpa using hy
  rw [hid]
  exact (hn.lt p hp).ne

theorem Numbered.ids (hn : db.Numbered) : (db.runs.map RunData.id).Nodup := by
  have hnodup := hn.nodup
  rwa [origins, map_map] at hnodup

theorem SameRuns.store {d : RunData} (hn : db.Numbered) (hd : db.getRun id = some d)
    (hs : Steady (db.session d) s) : db.SameRuns (db.store s) := by
  refine ⟨?_, hs.2⟩
  have hd' : RunData.id d = id := Table.get_key hd
  have hid : s.toRunData.id = id := (congrArg RunOrigin.id hs.1).trans hd'
  exact Table.map_put_of_eq RunData.origin hn.ids (hid.symm ▸ hd) hs.1

theorem SameRuns.of_edits (hn : db.Numbered) (h : DbEdits G asks reports db db') :
    db.SameRuns db' := by
  refine h.keeps (P := fun u => db.SameRuns u) (fun u v hstep hu => hu.trans ?_) .refl
  cases hstep with
  | jobs => exact ⟨rfl, le_rfl⟩
  | store row edits => exact .store (hu.numbered hn) row (.of_edits edits)

section Create

variable (clk : Clock) (installation : AgentInstallation) (version : AgentVersion)
  (trigger : Trigger) (createdBy : Option UserId) (scheduleId : Option ScheduleId)
  (scheduledFor : Option Time) (parentRunId : Option RunId) (startKey : Option String)
  (triggerInput : Option Json)

theorem insertRun_cases (db : Db) :
    let created := db.insertRun clk installation version trigger createdBy scheduleId scheduledFor
      parentRunId startKey triggerInput
    (∃ d, db.duplicate scheduleId scheduledFor parentRunId startKey = some d
      ∧ created = ((d.id, false), db))
    ∨ (db.duplicate scheduleId scheduledFor parentRunId startKey = none
      ∧ created.1 = (db.nextUuid, true)
      ∧ created.2.origins = db.origins ++ [⟨db.nextUuid, installation.id, version.id, scheduleId,
          scheduledFor, parentRunId, startKey⟩]
      ∧ created.2.nextUuid = db.nextUuid + 1) := by
  unfold insertRun
  cases hdup : db.duplicate scheduleId scheduledFor parentRunId startKey with
  | some d => exact .inl ⟨d, rfl, rfl⟩
  | none =>
    refine .inr ⟨rfl, rfl, ?_, rfl⟩
    simp [origins, RunData.origin, startRun, newRunData, AgentRun.origin]

theorem insertRun_adds (db : Db) :
    (db.insertRun clk installation version trigger createdBy scheduleId scheduledFor parentRunId
      startKey triggerInput).2 = db
    ∨ ∃ d jobs, d.Created db.nextUuid (clk 0)
      ∧ (db.insertRun clk installation version trigger createdBy scheduleId scheduledFor parentRunId
        startKey triggerInput).2 = ⟨db.runs ++ [d], jobs, db.nextUuid + 1⟩ := by
  unfold insertRun
  split
  · exact .inl rfl
  · exact .inr ⟨_, _, ⟨rfl, rfl, rfl, rfl, rfl, rfl, rfl⟩, rfl⟩

end Create

end Db

theorem DbOp.origins {op : DbOp} {db db' : Db} (hn : db.Numbered)
    (h : op.exec G clk db = .ok db') :
    db.SameRuns db' ∨ ∃ installation version trigger user schedule scheduledFor parent key input,
      op = .client (.createRun installation version trigger user schedule scheduledFor parent key
        input)
      ∧ db' = (db.insertRun clk installation version trigger user schedule scheduledFor parent key
        input).2 :=
  (DbOp.edits h).imp_left (.of_edits hn)

end Crewquarters
