import Crewquarters.Json
import Crewquarters.Jobs
import Crewquarters.States

/-!
# The run tables

Rows of `agent_runs` and of the tables that belong to a run: attempts, events, input requests and
idempotency actions. A run's rows are kept together (`RunData`), since every one of these tables
has a `run_id`; a transaction holding the run row lock works on a `Session`, which adds the jobs
table and the supply of fresh ids.
-/

namespace Crewquarters

abbrev InstallationId := ℕ

abbrev VersionId := ℕ

abbrev ScheduleId := ℕ

abbrev UserId := ℕ

/-- The readings of `utcnow()` in one call, in order. -/
abbrev Clock := ℕ → Time

inductive Trigger where
  | manual
  | schedule
  | agent
deriving DecidableEq, Repr

structure AgentInstallation where
  id : InstallationId
  agentVersionId : VersionId
  config : Json
  approvedPermissions : Json
  modelBindings : Json
  needsReapproval : Bool
  enabled : Bool
  deletedAt : Option Time

/-- A version, with what the run service reads of `manifest["spec"]["resources"]`. -/
structure AgentVersion where
  id : VersionId
  activeTimeoutSeconds : ℕ
  maxInputWaitSeconds : Option ℕ
  memoryMb : Option ℕ

structure AgentRun where
  id : RunId
  installationId : InstallationId
  agentVersionId : VersionId
  trigger : Trigger
  scheduleId : Option ScheduleId
  scheduledFor : Option Time
  parentRunId : Option RunId
  startKey : Option String
  triggerInput : Option Json
  state : RunState
  stateEnteredAt : Time
  currentAttempt : ℕ
  configSnapshot : Json
  permissionsSnapshot : Json
  modelBindings : Json
  activeTimeoutSeconds : ℕ
  maxInputWaitSeconds : ℕ
  activeSecondsUsed : ℚ
  inputWaitSecondsUsed : ℚ
  result : Option Json
  error : Option Json
  retryable : Bool
  cancelRequestedAt : Option Time
  acknowledgedAt : Option Time
  createdBy : Option UserId
  startedAt : Option Time
  finishedAt : Option Time

/-- The container name `cq-run-{run_id}-{attempt}` the runtime gives an attempt. -/
structure RuntimeRef where
  runId : RunId
  attempt : ℕ
deriving DecidableEq, Repr

abbrev TokenId := ℕ

inductive AttemptState where
  | starting
  | running
  | exited
  | interrupted
  | cancelled
deriving DecidableEq, Repr

structure RunAttempt where
  attempt : ℕ
  state : AttemptState
  runtimeRef : Option RuntimeRef
  capabilityTokenId : Option TokenId
  heartbeatExpiresAt : Option Time
  exitCode : Option ℤ
  error : Option Json
  endedAt : Option Time

/-- Event types: the platform's own, the four an agent may emit, and any other text. -/
inductive EventType where
  | stateChanged
  | result
  | error
  | inputRequested
  | inputAnswered
  | inputClosed
  | log
  | progress
  | metric
  | artifact
  | other (name : String)
deriving DecidableEq, Repr

protected def EventType.toString : EventType → String
  | stateChanged => "run.state_changed"
  | result => "run.result"
  | error => "run.error"
  | inputRequested => "run.input_requested"
  | inputAnswered => "run.input_answered"
  | inputClosed => "run.input_closed"
  | log => "run.log"
  | progress => "run.progress"
  | metric => "run.metric"
  | artifact => "run.artifact"
  | other name => name

instance : ToString EventType := ⟨EventType.toString⟩

def agentEventTypes : List EventType := [.log, .progress, .metric, .artifact]

/-- An event's payload: `{"from", "to", "reason", "errorCode"}` of a state change, or any value. -/
inductive Payload where
  | stateChanged (source : Option RunState) (target : RunState) (reason : Option String)
      (errorCode : Option Json)
  | value (v : Json)

structure RunEvent where
  sequence : ℕ
  attempt : ℕ
  type : EventType
  payload : Payload
  clientEventId : Option String
  occurredAt : Option Time

inductive RequestState where
  | pending
  | answered
  | cancelled
  | expired
deriving DecidableEq, Repr

protected def RequestState.toString : RequestState → String
  | pending => "pending"
  | answered => "answered"
  | cancelled => "cancelled"
  | expired => "expired"

instance : ToString RequestState := ⟨RequestState.toString⟩

structure InputRequest where
  id : ℕ
  key : String
  attempt : ℕ
  title : String
  prompt : String
  schema : Json
  preview : Option Json
  state : RequestState
  answer : Option Json
  answeredBy : Option UserId
  answeredAt : Option Time
  deadline : Time
  version : ℕ

inductive ActionState where
  | claimed
  | inDoubt
  | completed
deriving DecidableEq, Repr

structure IdempotencyAction where
  key : String
  state : ActionState
  attempt : ℕ
  result : Option Json
  claimToken : Option String
  completedAt : Option Time

/-- A run and the rows that carry its `run_id`. -/
structure RunData where
  run : AgentRun
  attempts : List RunAttempt
  events : List RunEvent
  requests : List InputRequest
  actions : List IdempotencyAction

/-- What a transaction that holds the run row lock reads and writes. `nextUuid` is the next id
`uuid7` or `uuid4` will give. -/
structure Session extends RunData where
  jobs : JobTable
  nextUuid : ℕ

def RunData.id (d : RunData) : RunId := d.run.id

/-- `service.get_attempt`. -/
def RunData.getAttempt (attempt : ℕ) (d : RunData) : Option RunAttempt :=
  Table.get RunAttempt.attempt attempt d.attempts

def Session.addAttempt (a : RunAttempt) (s : Session) : Session :=
  { s with attempts := s.attempts ++ [a] }

def Session.putAttempt (a : RunAttempt) (s : Session) : Session :=
  { s with attempts := Table.put RunAttempt.attempt a s.attempts }

def Session.addRequest (r : InputRequest) (s : Session) : Session :=
  { s with requests := s.requests ++ [r], nextUuid := s.nextUuid + 1 }

def Session.putRequest (r : InputRequest) (s : Session) : Session :=
  { s with requests := Table.put InputRequest.id r s.requests }

def Session.takeUuid (s : Session) : Session := { s with nextUuid := s.nextUuid + 1 }

def Session.setJobs (jobs : JobTable) (s : Session) : Session := { s with jobs }

def Session.putAction (a : IdempotencyAction) (s : Session) : Session :=
  { s with actions := Table.put IdempotencyAction.key a s.actions }

end Crewquarters
