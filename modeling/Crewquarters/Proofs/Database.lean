import Crewquarters.Proofs.Service

/-!
# Invariants of runs

What a new run has and every operation on a locked run keeps (`RunInvariant`), every run of the
database has after any sequence of transactions (`RunInvariant.holds`): a transaction writes the
rows of runs it locked only, and one that raises writes nothing.
-/

namespace Crewquarters

open Except

variable {G : Guards} {I : RunData → Prop}

/-- Holds of new runs, and is kept by every call on a locked run. -/
structure RunInvariant (G : Guards) (I : RunData → Prop) : Prop where
  new : ∀ (clk : Clock) (id : RunId) (installation : AgentInstallation) (version : AgentVersion)
    (trigger : Trigger) (createdBy : Option UserId) (scheduleId : Option ScheduleId)
    (scheduledFor : Option Time) (parentRunId : Option RunId) (startKey : Option String)
    (triggerInput : Option Json) (jobs : JobTable) (nextUuid : ℕ),
    I (startRun (clk 1) ⟨newRunData (clk 0) id installation version trigger createdBy scheduleId
      scheduledFor parentRunId startKey triggerInput, jobs, nextUuid⟩).toRunData
  call : ∀ {clk : Clock} {c : RunCall} {s t : Session}, c.exec G clk s = .ok t →
    I s.toRunData → I t.toRunData
  worker : ∀ {clk : Clock} {c : WorkerCall} {s t : Session}, c.exec clk s = .ok t →
    I s.toRunData → I t.toRunData

def Db.All (I : RunData → Prop) (db : Db) : Prop := ∀ d ∈ db.runs, I d

namespace Db

variable {db db' : Db} {id : RunId}

theorem All.store {s : Session} (h : db.All I) (hs : I s.toRunData) : (db.store s).All I := by
  intro d hd
  rcases Table.mem_put hd with rfl | ⟨hd, -⟩
  · exact hs
  · exact h d hd

theorem withRun_eq_ok {α : Type} {f : Session → Except JobError (α × Session)} {a : α}
    (h : db.withRun id f = .ok (a, db')) :
    ∃ d s, db.getRun id = some d ∧ f (db.session d) = .ok (a, s) ∧ db' = db.store s := by
  unfold withRun at h
  split at h
  · cases h
  · rename_i d hd
    obtain ⟨⟨b, s⟩, hs, h⟩ := bind_eq_ok.1 h
    simp only [ok.injEq, Prod.mk.injEq] at h
    obtain ⟨rfl, rfl⟩ := h
    exact ⟨d, s, hd, hs, rfl⟩

theorem onRun_eq_ok {f : Session → Except JobError Session} (h : db.onRun id f = .ok db') :
    ∃ d s, db.getRun id = some d ∧ f (db.session d) = .ok s ∧ db' = db.store s := by
  obtain ⟨⟨_, u⟩, hu, h⟩ := bind_eq_ok.1 h
  obtain ⟨d, s, hd, hs, rfl⟩ := withRun_eq_ok hu
  obtain ⟨v, hv, hs⟩ := bind_eq_ok.1 hs
  simp only [ok.injEq, Prod.mk.injEq, true_and] at hs h
  exact ⟨d, s, hd, hs ▸ hv, h.symm⟩

theorem createRun_eq_ok {clk : Clock} {installation : AgentInstallation} {version : AgentVersion}
    {trigger : Trigger} {createdBy : Option UserId} {scheduleId : Option ScheduleId}
    {scheduledFor : Option Time} {parentRunId : Option RunId} {startKey : Option String}
    {triggerInput : Option Json} {created : (RunId × Bool) × Db}
    (h : db.createRun clk installation version trigger createdBy scheduleId scheduledFor parentRunId
      startKey triggerInput = .ok created) :
    created = db.insertRun clk installation version trigger createdBy scheduleId scheduledFor
      parentRunId startKey triggerInput := by
  unfold createRun at h
  split_ifs at h
  exact (ok.inj h).symm

theorem exec_createRun {clk : Clock} {installation : AgentInstallation} {version : AgentVersion}
    {trigger : Trigger} {createdBy : Option UserId} {scheduleId : Option ScheduleId}
    {scheduledFor : Option Time} {parentRunId : Option RunId} {startKey : Option String}
    {triggerInput : Option Json}
    (h : (ClientOp.createRun installation version trigger createdBy scheduleId scheduledFor
      parentRunId startKey triggerInput).exec G clk db = .ok db') :
    db' = (db.insertRun clk installation version trigger createdBy scheduleId scheduledFor
      parentRunId startKey triggerInput).2 := by
  obtain ⟨created, hcreated, rfl⟩ := map_eq_ok.1 h
  rw [createRun_eq_ok hcreated]

theorem onRun_keeps {f : Session → Except JobError Session}
    (hf : ∀ {s t : Session}, f s = .ok t → I s.toRunData → I t.toRunData) (h : db.All I)
    (ho : db.onRun id f = .ok db') : db'.All I := by
  obtain ⟨d, s, hd, hs, rfl⟩ := onRun_eq_ok ho
  exact h.store (hf hs (h d (Table.get_mem hd)))

end Db

namespace RunInvariant

variable (hI : RunInvariant G I)
variable {clk : Clock} {db db' : Db}

include hI

theorem settleUnlocked {clk : ℕ → Clock} {locked : List RunId} {job : Job} (h : db.All I)
    (hs : settleUnlocked clk locked db job = .ok db') : db'.All I := by
  unfold Crewquarters.settleUnlocked at hs
  split at hs
  · simp only [ok.injEq] at hs
    exact hs ▸ h
  · split at hs
    · simp only [ok.injEq] at hs
      exact hs ▸ h
    · rename_i d hd
      obtain ⟨s, hs', hs⟩ := bind_eq_ok.1 hs
      simp only [ok.injEq] at hs
      subst hs
      exact h.store (hI.worker (c := .onDeadJob _ _) hs' (h d (Table.get_mem hd)))

theorem watch {now : Time} {s t : Session} (h : watch clk now s = .ok t) (hs : I s.toRunData) :
    I t.toRunData := by
  rcases watch_cases h with rfl | ⟨k, code, message, r, i, hf⟩ | ⟨k, he⟩
  · exact hs
  · have hcall : (RunCall.failRun code message r i []).exec G (fun m => clk (m + k)) s = .ok t := hf
    exact hI.call hcall hs
  · exact hI.call (c := .expireInputs now) (dropResult_eq_ok.2 ⟨k, he⟩) hs

theorem watchRun {clk : RunId → Clock} {now : Time} {id : RunId} (h : db.All I)
    (hw : watchRun clk now db id = .ok db') : db'.All I :=
  Db.onRun_keeps (f := fun s => raising (Crewquarters.watch (clk id) now s))
    (fun hs => hI.watch (raising_eq_ok.1 hs)) h hw

theorem tick {clk : TickClock} {locked : List RunId} (h : db.All I)
    (ht : tick clk locked db = .ok db') : db'.All I := by
  obtain ⟨u, hu, ht⟩ := bind_eq_ok.1 ht
  refine foldlM_keeps hI.watchRun (foldlM_keeps (P := Db.All I) hI.settleUnlocked ?_ hu) ht
  exact h

theorem client {op : ClientOp} (h : db.All I) (ho : op.exec G clk db = .ok db') : db'.All I := by
  cases op with
  | createRun =>
    obtain rfl := Db.exec_createRun ho
    unfold Db.insertRun
    split
    · exact h
    · intro d hd
      simp only [List.mem_append, List.mem_singleton] at hd
      rcases hd with hd | rfl
      · exact h d hd
      · exact hI.new ..
  | call => exact Db.onRun_keeps (fun hs => hI.call (raising_eq_ok.1 hs)) h ho
  | answer =>
    simp only [ClientOp.exec] at ho
    split at ho
    · cases ho
    · exact Db.onRun_keeps (fun hs => hI.call (raising_eq_ok.1 hs)) h ho

theorem exec {op : DbOp} (h : db.All I) (ho : op.exec G clk db = .ok db') : db'.All I := by
  cases op with
  | client => exact hI.client h ho
  | worker => exact Db.onRun_keeps hI.worker h ho
  | tick => exact hI.tick h ho

theorem commit {clk : Clock} {op : DbOp} {db : Db} (h : db.All I) :
    (db.commit G clk op).All I := by
  unfold Db.commit
  split
  · exact hI.exec h ‹_›
  · exact h

theorem holds {ops : List (Clock × DbOp)} (h : (dbMachine G).run ops Db.empty = some db) :
    ∀ d ∈ db.runs, I d := by
  refine Machine.run_keeps (I := Db.All I) (fun a db db' hdb hstep => ?_) ops ?_ h
  · simp only [dbMachine, Option.some.injEq] at hstep
    exact hstep ▸ hI.commit hdb
  · intro d hd
    simp [Db.empty] at hd

end RunInvariant

/-! ## A platform with one agent

The values the concrete runs of this development are made of. -/

def plainGuards : Guards := ⟨id, fun _ => 0, fun _ => 0, fun _ => none, fun _ _ => []⟩

def plainInstallation : AgentInstallation :=
  { id := 0
    agentVersionId := 0
    config := .obj []
    approvedPermissions := .obj [("userInput", .bool true)]
    modelBindings := .obj []
    needsReapproval := false
    enabled := true
    deletedAt := none }

def plainVersion : AgentVersion := ⟨0, 600, none, some 512⟩

def plainCatalog : Catalog where
  installations := fun id => if id = 0 then some plainInstallation else none
  versions := fun id => if id = 0 then some plainVersion else none
  installation_id := by
    intro id i h
    split_ifs at h with h0
    simp only [Option.some.injEq] at h
    rw [h0, ← h]
    rfl

def plainSettings : Settings := ⟨30, 600, 60⟩

def createPlain : ClientOp :=
  .createRun plainInstallation plainVersion .manual none none none none none none

def startPlain : List DbOp :=
  [.client createPlain, .worker 0 (.dispatchPrepare plainSettings plainCatalog 1),
    .worker 0 (.dispatchRecord plainSettings 1 ⟨0, 1⟩), .client (.call 0 (.handshake 1 60))]

def atZero (ops : List DbOp) : List (Clock × DbOp) := ops.map fun op => (fun _ => 0, op)

end Crewquarters
