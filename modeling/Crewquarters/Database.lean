import Crewquarters.Worker

/-!
# The database

The runs with their rows, the jobs table and the supply of ids, and the transactions that create a
run or work on one whose row they lock (`withRun`). A transaction that raises leaves nothing.
-/

namespace Crewquarters

structure Db where
  runs : List RunData
  jobs : JobTable
  nextUuid : ℕ

namespace Db

def empty : Db := ⟨[], ⟨[], 0⟩, 0⟩

def getRun (id : RunId) (db : Db) : Option RunData := Table.get RunData.id id db.runs

def session (d : RunData) (db : Db) : Session := ⟨d, db.jobs, db.nextUuid⟩

def store (s : Session) (db : Db) : Db :=
  { runs := Table.put RunData.id s.toRunData db.runs
    jobs := s.jobs
    nextUuid := s.nextUuid }

/-- `lock_run` and a call on the locked run. -/
def withRun {α : Type} (id : RunId) (f : Session → Except JobError (α × Session)) (db : Db) :
    Except JobError (α × Db) :=
  match db.getRun id with
  | none => .error (.platform (notFound "Run" id))
  | some d => do
    let (a, s) ← f (db.session d)
    .ok (a, db.store s)

/-- The row an `ON CONFLICT DO NOTHING` insert of a scheduled or agent-started run meets. A
`NULL` in an index column conflicts with nothing. -/
def duplicate (scheduleId : Option ScheduleId) (scheduledFor : Option Time)
    (parentRunId : Option RunId) (startKey : Option String) (db : Db) : Option RunData :=
  if scheduleId.isSome then
    db.runs.find? fun d => d.run.scheduleId = scheduleId && d.run.scheduledFor = scheduledFor
      && scheduledFor.isSome
  else if parentRunId.isSome then
    db.runs.find? fun d => d.run.parentRunId = parentRunId && d.run.startKey = startKey
      && startKey.isSome
  else none

/-- Whether the row of a scheduled run would break the other unique index, which its `ON CONFLICT`
clause does not name. -/
def startTaken (scheduleId : Option ScheduleId) (scheduledFor : Option Time)
    (parentRunId : Option RunId) (startKey : Option String) (db : Db) : Bool :=
  scheduleId.isSome && (db.duplicate scheduleId scheduledFor parentRunId startKey).isNone
    && (db.duplicate none none parentRunId startKey).isSome

/-- Insert a `QUEUED` run and its first dispatch job, unless its row is there; the run's id and
whether it is new. -/
def insertRun (clk : Clock) (installation : AgentInstallation) (version : AgentVersion)
    (trigger : Trigger) (createdBy : Option UserId) (scheduleId : Option ScheduleId)
    (scheduledFor : Option Time) (parentRunId : Option RunId) (startKey : Option String)
    (triggerInput : Option Json) (db : Db) : (RunId × Bool) × Db :=
  match db.duplicate scheduleId scheduledFor parentRunId startKey with
  | some existing => ((existing.id, false), db)
  | none =>
    let d := newRunData (clk 0) db.nextUuid installation version trigger createdBy scheduleId
      scheduledFor parentRunId startKey triggerInput
    let s := startRun (clk 1) ⟨d, db.jobs, db.nextUuid + 1⟩
    ((d.id, true), { runs := db.runs ++ [s.toRunData], jobs := s.jobs, nextUuid := s.nextUuid })

def createRun (clk : Clock) (installation : AgentInstallation) (version : AgentVersion)
    (trigger : Trigger) (createdBy : Option UserId) (scheduleId : Option ScheduleId)
    (scheduledFor : Option Time) (parentRunId : Option RunId) (startKey : Option String)
    (triggerInput : Option Json) (db : Db) : Except JobError ((RunId × Bool) × Db) :=
  if db.startTaken scheduleId scheduledFor parentRunId startKey then
    .error (.unexpected "IntegrityError")
  else
    .ok (db.insertRun clk installation version trigger createdBy scheduleId scheduledFor parentRunId
      startKey triggerInput)

def runOfRequest (requestId : ℕ) (db : Db) : Option RunData :=
  db.runs.find? fun d => d.requests.any fun r => r.id = requestId

end Db

end Crewquarters
