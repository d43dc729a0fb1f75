import Crewquarters.Reconciler
import Crewquarters.Lib.Machine

/-!
# The operations on runs

`RunCall` lists what the control API, the agents and the exit watcher call on a locked run
(`ClientOp` with the transactions that find or create it), and `WorkerCall` the transactions of the
job handlers. `DbOp` is one transaction of any of them or of the reconciler; it is committed, or
rolled back whole if it raises (`Db.commit`).
-/

namespace Crewquarters

inductive RunCall where
  | requestCancel (reason : String)
  | retry
  | handshake (attemptNo heartbeatSeconds : ℕ)
  | heartbeat (attemptNo heartbeatSeconds : ℕ)
  | setModelLoading (attemptNo : ℕ) (loading : Bool) (model : Option String)
  | recordAgentEvent (attemptNo : ℕ) (type : EventType) (payload : Json)
  | recordAgentEventBatch (validator : Option (RunId → ℕ → AgentEventInput → List String))
      (attemptNo : ℕ) (events : List AgentEventInput)
  | finish (attemptNo : ℕ) (status : ResultStatus) (result error : Option Json)
  | failRun (code message : String) (retryable interrupted : Bool)
      (details : List (String × Json))
  | recordContainerExit (version : Option AgentVersion) (attemptNo : ℕ)
      (runtimeRef : RuntimeRef) (exitCode : Option ℤ) (oomKilled : Bool)
      (memoryLimitBytes : Option ℕ)
  | ask (attemptNo : ℕ) (key title prompt : String) (schema : Json) (timeoutSeconds : ℤ)
      (preview : Option Json)
  | answer (requestId version : ℕ) (value : Json) (userId : UserId)
  | expireInputs (now : Time)
  | claimAction (attemptNo : ℕ) (key : String) (claimToken : Option String)
  | completeAction (attemptNo : ℕ) (key : String) (result : Json)

/-- A transaction of a job handler on the locked run, and the service call it begins with. -/
inductive WorkerCall where
  | beginAttempt (heartbeatSeconds : ℕ)
  | dispatchPrepare (settings : Settings) (catalog : Catalog) (attemptNo : ℕ)
  | dispatchRecord (settings : Settings) (attemptNo : ℕ) (runtimeRef : RuntimeRef)
  | cancelFinish (runtimeRef : Option RuntimeRef)
  | onDeadJob (type : JobType) (payload : JobPayload)

def dropResult {ε α : Type} (x : Except ε (α × Session)) : Except ε Session := x.map Prod.snd

def RunCall.exec (G : Guards) (clk : Clock) : RunCall → Session → Except PlatformError Session
  | .requestCancel reason, s => Crewquarters.requestCancel clk reason s
  | .retry, s => Crewquarters.retry clk s
  | .handshake n hb, s => Crewquarters.handshake clk n hb s
  | .heartbeat n hb, s => dropResult (Crewquarters.heartbeat clk n hb s)
  | .setModelLoading n loading model, s => Crewquarters.setModelLoading clk n loading model s
  | .recordAgentEvent n type payload, s => Crewquarters.recordAgentEvent G n type payload s
  | .recordAgentEventBatch validator n events, s =>
    dropResult (Crewquarters.recordAgentEventBatch G validator n events s)
  | .finish n status result error, s => Crewquarters.finish G clk n status result error s
  | .failRun code message retryable interrupted details, s =>
    Crewquarters.failRun clk code message retryable interrupted details s
  | .recordContainerExit version n ref exitCode oomKilled limit, s =>
    dropResult (Crewquarters.recordContainerExit clk version n ref exitCode oomKilled limit s)
  | .ask n key title prompt schema timeout preview, s =>
    dropResult (Crewquarters.ask G clk n key title prompt schema timeout preview s)
  | .answer id version value user, s =>
    dropResult (Crewquarters.answer G clk id version value user s)
  | .expireInputs now, s => dropResult (Crewquarters.expireInputs clk now s)
  | .claimAction n key token, s => dropResult (Crewquarters.claimAction n key token s)
  | .completeAction n key result, s =>
    dropResult (Crewquarters.completeAction G clk n key result s)

def WorkerCall.exec (clk : Clock) : WorkerCall → Session → Except JobError Session
  | .beginAttempt hb, s => raising (dropResult (Crewquarters.beginAttempt clk hb s))
  | .dispatchPrepare settings catalog n, s =>
    dropResult (Crewquarters.dispatchPrepare settings catalog clk n s)
  | .dispatchRecord settings n ref, s =>
    dropResult (Crewquarters.dispatchRecord settings clk n ref s)
  | .cancelFinish ref, s => dropResult (Crewquarters.cancelFinish clk ref s)
  | .onDeadJob type payload, s => raising (Crewquarters.onDeadJob clk type payload s)

/-- A transaction of the control API, an agent or the exit watcher. -/
inductive ClientOp where
  | createRun (installation : AgentInstallation) (version : AgentVersion) (trigger : Trigger)
      (createdBy : Option UserId) (scheduleId : Option ScheduleId) (scheduledFor : Option Time)
      (parentRunId : Option RunId) (startKey : Option String) (triggerInput : Option Json)
  | call (runId : RunId) (c : RunCall)
  | answer (requestId version : ℕ) (value : Json) (userId : UserId)

inductive DbOp where
  | client (op : ClientOp)
  | worker (runId : RunId) (c : WorkerCall)
  | tick (clk : TickClock) (locked : List RunId)

/-- `lock_run` and an operation without a result on the locked run. -/
def Db.onRun (id : RunId) (f : Session → Except JobError Session) (db : Db) :
    Except JobError Db := do
  let (_, db) ← db.withRun id fun s => do
    let s ← f s
    .ok ((), s)
  .ok db

def ClientOp.exec (G : Guards) (clk : Clock) : ClientOp → Db → Except JobError Db
  | .createRun installation version trigger user schedule scheduledFor parent startKey input, db =>
    (db.createRun clk installation version trigger user schedule scheduledFor parent startKey
      input).map Prod.snd
  | .call id c, db => db.onRun id fun s => raising (c.exec G clk s)
  | .answer id version value user, db =>
    match db.runOfRequest id with
    | none => .error (.platform (notFound "Input request" id))
    | some d => db.onRun d.id fun s => raising ((RunCall.answer id version value user).exec G clk s)

def DbOp.exec (G : Guards) (clk : Clock) : DbOp → Db → Except JobError Db
  | .client op, db => op.exec G clk db
  | .worker id c, db => db.onRun id (c.exec clk)
  | .tick clk locked, db => Crewquarters.tick clk locked db

def Db.commit (G : Guards) (clk : Clock) (op : DbOp) (db : Db) : Db :=
  match op.exec G clk db with
  | .ok db' => db'
  | .error _ => db

/-- The database under any sequence of transactions, each with its own readings of the clock. -/
def dbMachine (G : Guards) : Machine Db (Clock × DbOp) :=
  ⟨fun a db => some (db.commit G a.1 a.2)⟩

end Crewquarters
