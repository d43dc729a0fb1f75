import Crewquarters.Operations

/-!
# Uninstalling an agent

`delete_installation` next to the transactions that start work for an installation: the creation of
a run, the owner's retry and the first transaction of `handle_dispatch`. Each is taken apart at the
points where other transactions may come in between: row locks and reads. The uninstall and a
reapproval lock the installation's row; inserting a run shares it (a foreign key) until the insert
commits; a retry and a dispatch lock the run's row and only read the installation's. Everything else
that happens to runs is a transaction of its own (`UninstallAction.other`).
-/

namespace Crewquarters

def RunState.finalStates : List RunState := [succeeded, cancelled]

/-- The arguments of `create_run` beside the installation. -/
structure Creation where
  version : AgentVersion
  trigger : Trigger
  createdBy : Option UserId
  scheduleId : Option ScheduleId
  scheduledFor : Option Time
  parentRunId : Option RunId
  startKey : Option String
  triggerInput : Option Json

def Creation.op (installation : AgentInstallation) (c : Creation) : DbOp :=
  .client (.createRun installation c.version c.trigger c.createdBy c.scheduleId c.scheduledFor
    c.parentRunId c.startKey c.triggerInput)

inductive UninstallTask where
  | delete (id : InstallationId)
  /-- holds the installation's row -/
  | deleteLocked (id : InstallationId)
  /-- holds the row and has found no active run -/
  | deleteChecked (id : InstallationId)
  | create (id : InstallationId) (c : Creation)
  /-- has read the installation as ready -/
  | createRead (installation : AgentInstallation) (c : Creation)
  /-- shares the row until the insert commits -/
  | createInserted (installation : AgentInstallation) (c : Creation)
  | retry (runId : RunId)
  /-- `_require_ready` has passed -/
  | retryRead (runId : RunId)
  /-- holds the run's row -/
  | retryLocked (runId : RunId)
  | dispatch (runId : RunId) (attempt : ℕ)
  /-- holds the run's row, and the run is to be prepared -/
  | dispatchLocked (runId : RunId) (attempt : ℕ)
  /-- has also read the installation -/
  | dispatchRead (runId : RunId) (attempt : ℕ) (installation : AgentInstallation)
  | done

namespace UninstallTask

def isNew : UninstallTask → Bool
  | delete _ | create .. | retry _ | dispatch .. => true
  | _ => false

def locksRow (id : InstallationId) : UninstallTask → Bool
  | deleteLocked i | deleteChecked i => i = id
  | _ => false

def sharesRow (id : InstallationId) : UninstallTask → Bool
  | createInserted installation _ => installation.id = id
  | _ => false

def locksRun (id : RunId) : UninstallTask → Bool
  | retryLocked r | dispatchLocked r _ | dispatchRead r _ _ => r = id
  | _ => false

def hasChecked (id : InstallationId) : UninstallTask → Bool
  | deleteChecked i => i = id
  | _ => false

end UninstallTask

/-- A transaction that is not one of `UninstallTask`. -/
def DbOp.isOther : DbOp → Bool
  | .client (.createRun ..) => false
  | .client (.call _ .retry) => false
  | .worker _ (.beginAttempt _) => false
  | .worker _ (.dispatchPrepare ..) => false
  | _ => true

/-- The transaction does not touch the run: it locks another one, or passes over locked ones. -/
def DbOp.spares (r : RunId) (db : Db) : DbOp → Bool
  | .client (.createRun ..) => true
  | .client (.call id _) => id ≠ r
  | .client (.answer requestId ..) => (db.runOfRequest requestId).all fun d => d.id ≠ r
  | .worker id _ => id ≠ r
  | .tick _ locked => r ∈ locked

structure Uninstalling where
  db : Db
  installations : List AgentInstallation
  tasks : List UninstallTask
  /-- the containers dispatches asked for, with `deleted_at` of their installation at the commit -/
  asked : List (RunSpec × Option Time)

inductive UninstallAction where
  | spawn (task : UninstallTask)
  /-- the task's next step; `ready` is what the readiness checks say -/
  | step (n : ℕ) (clk : Clock) (ready : Bool)
  /-- the task is rolled back -/
  | abort (n : ℕ)
  | other (clk : Clock) (op : DbOp)
  /-- `update_installation` -/
  | update (installation : AgentInstallation)

namespace Uninstalling

def init (installations : List AgentInstallation) : Uninstalling := ⟨.empty, installations, [], []⟩

def getInstallation (id : InstallationId) (s : Uninstalling) : Option AgentInstallation :=
  Table.get AgentInstallation.id id s.installations

def setInstallation (i : AgentInstallation) (s : Uninstalling) : Uninstalling :=
  { s with installations := Table.put AgentInstallation.id i s.installations }

def goto (n : ℕ) (task : UninstallTask) (s : Uninstalling) : Uninstalling :=
  { s with tasks := s.tasks.set n task }

def commit (G : Guards) (clk : Clock) (op : DbOp) (s : Uninstalling) : Uninstalling :=
  { s with db := s.db.commit G clk op }

/-- `SELECT .. FOR UPDATE` of the installation has to wait. -/
def rowTaken (id : InstallationId) (s : Uninstalling) : Bool :=
  s.tasks.any fun t => t.locksRow id || t.sharesRow id

/-- `lock_run` has to wait. -/
def runTaken (id : RunId) (s : Uninstalling) : Bool := s.tasks.any (·.locksRun id)

/-- A run of the installation is neither final nor `FAILED` or `INTERRUPTED`. -/
def inUse (id : InstallationId) (s : Uninstalling) : Bool :=
  s.db.runs.any fun d =>
    d.run.installationId = id && d.run.state ∉ RunState.finalStates ++ [.failed, .interrupted]

/-- The catalog of a dispatch that has read its installation. -/
def catalog (versions : VersionId → Option AgentVersion) (i : AgentInstallation) : Catalog where
  installations := fun id => if i.id = id then some i else none
  versions := versions
  installation_id := by
    intro id j h
    split_ifs at h with hi
    exact Option.some.inj h ▸ hi

variable (G : Guards) (settings : Settings) (versions : VersionId → Option AgentVersion)

/-- The container the first transaction of `handle_dispatch` goes on to start. -/
def container (clk : Clock) (runId : RunId) (attempt : ℕ) (i : AgentInstallation) (db : Db) :
    Option RunSpec :=
  (db.getRun runId).bind fun d =>
    match dispatchPrepare settings (catalog versions i) clk attempt (db.session d) with
    | .ok (spec, _) => spec
    | .error _ => none

/-- `deleted_at` of an installation. -/
def deletedAt (id : InstallationId) (s : Uninstalling) : Option Time :=
  (s.getInstallation id).bind (·.deletedAt)

/-- The next step of task `n`; `none` while it waits for a lock. -/
def advance (n : ℕ) (clk : Clock) (ready : Bool) (s : Uninstalling) :
    UninstallTask → Option Uninstalling
  | .delete id =>
    if s.rowTaken id then none
    else match s.getInstallation id with
      | some i => some (s.goto n (if i.deletedAt.isSome then .done else .deleteLocked id))
      | none => some (s.goto n .done)
  | .deleteLocked id =>
    -- `INSTALLATION_IN_USE` rolls back
    some (s.goto n (if s.inUse id then .done else .deleteChecked id))
  | .deleteChecked id =>
    (s.getInstallation id).map fun i =>
      (s.setInstallation { i with deletedAt := some (clk 0), enabled := false }).goto n .done
  | .create id c =>
    match s.getInstallation id with
    | some i =>
      some (s.goto n (if i.deletedAt.isSome || !ready then .done else .createRead i c))
    | none => some (s.goto n .done)
  | .createRead i c =>
    if s.tasks.any (·.locksRow i.id) then none else some (s.goto n (.createInserted i c))
  | .createInserted i c => some ((s.commit G clk (c.op i)).goto n .done)
  | .retry runId =>
    match (s.db.getRun runId).bind fun d => s.getInstallation d.run.installationId with
    | some i =>
      some (s.goto n (if i.deletedAt.isSome || !ready then .done else .retryRead runId))
    | none => some (s.goto n .done)
  | .retryRead runId => if s.runTaken runId then none else some (s.goto n (.retryLocked runId))
  | .retryLocked runId => some ((s.commit G clk (.client (.call runId .retry))).goto n .done)
  | .dispatch runId attempt =>
    if s.runTaken runId then none
    else match s.db.getRun runId with
      | some d =>
        -- a stale dispatch, or one of a run already past preparation, returns
        some (s.goto n (if d.run.currentAttempt ≠ attempt
          ∨ (d.run.state ≠ .queued ∧ d.run.state ≠ .preparing) then .done
          else .dispatchLocked runId attempt))
      | none => some (s.goto n .done)
  | .dispatchLocked runId attempt =>
    match (s.db.getRun runId).bind fun d => s.getInstallation d.run.installationId with
    | some i => some (s.goto n (.dispatchRead runId attempt i))
    | none => some (s.goto n .done)
  | .dispatchRead runId attempt i =>
    let asked := (container settings versions clk runId attempt i s.db).toList.map fun spec =>
      (spec, s.deletedAt i.id)
    some ((({ s with asked := s.asked ++ asked } : Uninstalling).commit G clk
      (.worker runId (.dispatchPrepare settings (catalog versions i) attempt))).goto n .done)
  | .done => none

/-- No task that is under way holds a run the transaction touches. -/
def spared (op : DbOp) (s : Uninstalling) : Bool :=
  s.db.runs.all fun d => !s.runTaken d.id || op.spares d.id s.db

def step : UninstallAction → Uninstalling → Option Uninstalling
  | .spawn task, s => if task.isNew then some { s with tasks := s.tasks ++ [task] } else none
  | .step n clk ready, s => (s.tasks[n]?).bind (s.advance G settings versions n clk ready)
  | .abort n, s => (s.tasks[n]?).map fun _ => s.goto n .done
  | .other clk op, s => if op.isOther && s.spared op then some (s.commit G clk op) else none
  | .update i, s =>
    if !s.rowTaken i.id && (s.getInstallation i.id).any (·.deletedAt.isNone) && i.deletedAt.isNone
    then some (s.setInstallation i) else none

/-- A dispatch is about to read an installation between an uninstall's look at its runs and its
commit. -/
def readsEarly (a : UninstallAction) (s : Uninstalling) : Bool :=
  match a with
  | .step n _ _ => match s.tasks[n]? with
    | some (.dispatchLocked runId _) =>
      (s.db.getRun runId).any fun d => s.tasks.any (·.hasChecked d.run.installationId)
    | _ => false
  | _ => false

def machine : Machine Uninstalling UninstallAction := ⟨step G settings versions⟩

end Uninstalling

end Crewquarters
