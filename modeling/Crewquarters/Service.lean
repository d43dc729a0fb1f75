import Crewquarters.Rows

/-!
# The run service

`runs/service.py`: the run lifecycle operations, each as a function on the `Session` of the run
whose row is locked. An operation that raises returns the error, and its transaction is rolled
back whole. `clk` gives the operation's readings of the clock in the order it takes them.
-/

namespace Crewquarters

open RunState (canTransition)

/-- What the service calls on JSON values: `redaction.redact`, `schema_guard.json_size`, the length
of `json.dumps`, the JSON Schema library's check of a schema and its errors for a value. -/
structure Guards where
  redact : Json → Json
  jsonSize : Json → ℕ
  dumpsSize : Json → ℕ
  schemaError : Json → Option String
  valueErrors : Json → Json → List String

def maxResultBytes : ℕ := 1048576

def maxEventBytes : ℕ := 16 * 1024

def maxPreviewBytes : ℕ := 64 * 1024

def maxAnswerBytes : ℕ := 64 * 1024

def maxSchemaBytes : ℕ := 16 * 1024

def dispatchKey (runId : RunId) (attempt : ℕ) : DedupeKey := .attempt runId attempt

/-- `jobs.enqueue` of a run's job, with the default `max_attempts`. -/
def Session.enqueue (type : JobType) (key : DedupeKey) (availableAt : Time) (s : Session) :
    Session :=
  { s with jobs := (s.jobs.enqueue type (.ofRun s.run.id s.run.currentAttempt) (some key)
      availableAt 5).2 }

/-- Reject calls from an attempt that is no longer the run's current attempt. -/
def requireAttempt (attempt : ℕ) (s : Session) : Except PlatformError Unit :=
  if attempt ≠ s.run.currentAttempt then
    .error (conflict "STALE_ATTEMPT" "This run attempt is no longer current."
      [("attempt", .num attempt), ("currentAttempt", .num s.run.currentAttempt)])
  else .ok ()

def checkSize (G : Guards) (value : Json) (limit : ℕ) (code what : String) :
    Except PlatformError Unit :=
  let kib := limit / 1024
  if limit < G.jsonSize value then .error (invalid code s!"{what} is larger than {kib} KiB." [])
  else .ok ()

/-- `check_schema` with `allow_patterns=False`. -/
def checkSchema (G : Guards) (schema : Json) (code : String) : Except PlatformError Unit := do
  checkSize G schema maxSchemaBytes code "The schema"
  match G.schemaError schema with
  | some reason =>
    .error (invalid code "The schema is not a valid JSON Schema." [("reason", .str reason)])
  | none =>
    if schema.hasRegexKeyword then
      .error (invalid code "Input schemas may not use pattern or patternProperties." [])
    else .ok ()

/-! ## Events -/

def lastSequence (s : Session) : ℕ := (s.events.map (·.sequence)).foldr max 0

def appendEvent (type : EventType) (payload : Payload) (s : Session) : Session :=
  { s with events := s.events ++ [{
      sequence := lastSequence s + 1
      attempt := s.run.currentAttempt
      type
      payload
      clientEventId := none
      occurredAt := none }] }

/-! ## State transitions -/

def account (now : Time) (run : AgentRun) : AgentRun :=
  let elapsed := max 0 (now - run.stateEnteredAt)
  if run.state ∈ RunState.activeClockStates then
    { run with activeSecondsUsed := run.activeSecondsUsed + elapsed }
  else if run.state ∈ RunState.waitClockStates then
    { run with inputWaitSecondsUsed := run.inputWaitSecondsUsed + elapsed }
  else run

def activeSeconds (run : AgentRun) (now : Time) : ℚ :=
  let extra := if run.state ∈ RunState.activeClockStates then now - run.stateEnteredAt else 0
  run.activeSecondsUsed + max 0 extra

def waitSeconds (run : AgentRun) (now : Time) : ℚ :=
  let extra := if run.state ∈ RunState.waitClockStates then now - run.stateEnteredAt else 0
  run.inputWaitSecondsUsed + max 0 extra

def enter (now : Time) (target : RunState) (error : Option Json) (retryable : Option Bool)
    (run : AgentRun) : AgentRun :=
  let run := account now run
  { run with
    state := target
    stateEnteredAt := now
    startedAt := if target = .running ∧ run.startedAt = none then some now else run.startedAt
    finishedAt := if target ∈ RunState.terminalStates then some now
      else if target = .queued then none else run.finishedAt
    error := match error with
      | some e => some e
      | none => run.error
    retryable := retryable.getD run.retryable }

/-- The `run.state_changed` payload of a move. -/
def changePayload (current target : RunState) (reason : Option String) (error : Option Json) :
    Payload :=
  .stateChanged (some current) target (reason.filter (· ≠ ""))
    ((error.filter Json.truthy).map fun e => Json.ofOption (e.get? "code"))

def moved (now : Time) (target : RunState) (reason : Option String) (error : Option Json)
    (retryable : Option Bool) (s : Session) : Session :=
  appendEvent .stateChanged (changePayload s.run.state target reason error)
    { s with run := enter now target error retryable s.run }

def transition (now : Time) (target : RunState) (reason : Option String) (error : Option Json)
    (retryable : Option Bool) (s : Session) : Except PlatformError Session :=
  let current := s.run.state
  if canTransition current target then .ok (moved now target reason error retryable s)
  else .error (conflict "INVALID_RUN_STATE" s!"Run cannot move from {current} to {target}."
    [("state", .str (toString current)), ("target", .str (toString target))])

/-! ## Human input, closing -/

def pendingRequests (s : Session) : List InputRequest :=
  s.requests.filter fun r => r.state = .pending

def requestPayload (id : ℕ) (key : String) (state : RequestState) : Payload :=
  .value (.obj [("inputRequestId", .str (toString id)), ("key", .str key),
    ("state", .str (toString state))])

def closeRequest (state : RequestState) (s : Session) (r : InputRequest) : Session :=
  appendEvent .inputClosed (requestPayload r.id r.key state)
    (s.putRequest { r with state, version := r.version + 1 })

def closePendingInputs (state : RequestState) (s : Session) : Session :=
  (pendingRequests s).foldl (closeRequest state) s

def resumeIfNoPending (now : Time) (s : Session) : Except PlatformError Session :=
  if s.run.state ≠ .waitingInput then .ok s
  else if (pendingRequests s).isEmpty then
    transition now .running (some "input_closed") none none s
  else .ok s

def expireInputs (clk : Clock) (now : Time) (s : Session) : Except PlatformError (ℕ × Session) :=
  let pending := (pendingRequests s).filter fun r => r.deadline ≤ now
  if pending.isEmpty then .ok (0, s)
  else do
    let s ← resumeIfNoPending (clk 0) (pending.foldl (closeRequest .expired) s)
    .ok (pending.length, s)

/-! ## Creation, cancel, retry -/

/-- The row and first event of a run `create_run` inserts. -/
def newRunData (now : Time) (id : RunId) (installation : AgentInstallation)
    (version : AgentVersion) (trigger : Trigger) (createdBy : Option UserId)
    (scheduleId : Option ScheduleId) (scheduledFor : Option Time) (parentRunId : Option RunId)
    (startKey : Option String) (triggerInput : Option Json) : RunData :=
  { run := {
      id, trigger, scheduleId, scheduledFor, parentRunId, startKey, triggerInput, createdBy
      installationId := installation.id
      agentVersionId := version.id
      state := .queued
      stateEnteredAt := now
      currentAttempt := 1
      configSnapshot := installation.config
      permissionsSnapshot := installation.approvedPermissions
      modelBindings := installation.modelBindings
      activeTimeoutSeconds := version.activeTimeoutSeconds
      maxInputWaitSeconds := version.maxInputWaitSeconds.getD 86400
      activeSecondsUsed := 0
      inputWaitSecondsUsed := 0
      result := none
      error := none
      retryable := false
      cancelRequestedAt := none
      acknowledgedAt := none
      startedAt := none
      finishedAt := none }
    attempts := []
    events := []
    requests := []
    actions := [] }

/-- `create_run` after its row is inserted: the first event and the first dispatch job. -/
def startRun (now : Time) (s : Session) : Session :=
  (appendEvent .stateChanged (.stateChanged none .queued none none) s).enqueue .runDispatch
    (dispatchKey s.run.id 1) now

/-- `run.cancel_requested_at = utcnow()`. -/
def markCancel (now : Time) (s : Session) : Session :=
  { s with run := { s.run with cancelRequestedAt := some now } }

def requestCancel (clk : Clock) (reason : String) (s : Session) : Except PlatformError Session :=
  let state := s.run.state
  if state ∉ RunState.cancellableStates then
    if state = .cancelling ∨ state = .cancelled then .ok s
    else .error (conflict "RUN_NOT_CANCELLABLE" s!"A {state} run cannot be cancelled." [])
  else
    let s := markCancel (clk 0) s
    if state = .queued then do
      let jobs := (s.jobs.cancelByDedupe (dispatchKey s.run.id s.run.currentAttempt) (clk 1)).2
      let s ← transition (clk 2) .cancelled (some reason) none none (s.setJobs jobs)
      .ok (closePendingInputs .cancelled s)
    else do
      let s ← transition (clk 1) .cancelling (some reason) none none s
      .ok (closePendingInputs .cancelled
        (s.enqueue .runCancel (.cancel s.run.id s.run.currentAttempt) (clk 2)))

/-- The next attempt's row values: no result, no error, both clocks at zero. -/
def resetForRetry (s : Session) : Session :=
  { s with run := { s.run with
      currentAttempt := s.run.currentAttempt + 1
      result := none
      error := none
      retryable := false
      cancelRequestedAt := none
      acknowledgedAt := none
      activeSecondsUsed := 0
      inputWaitSecondsUsed := 0 } }

def retry (clk : Clock) (s : Session) : Except PlatformError Session :=
  let state := s.run.state
  if state = .failed ∧ s.run.retryable = false then
    .error (conflict "RUN_NOT_RETRYABLE" "This failure is not retryable." [])
  else if state ≠ .failed ∧ state ≠ .interrupted then
    .error (conflict "RUN_NOT_RETRYABLE" s!"A {state} run cannot be retried." [])
  else do
    let s ← transition (clk 0) .queued (some "owner_retry") none none (resetForRetry s)
    .ok (s.enqueue .runDispatch (dispatchKey s.run.id s.run.currentAttempt) (clk 1))

/-! ## Attempt lifecycle -/

def RunAttempt.starting (attempt : ℕ) (heartbeatExpiresAt : Time) : RunAttempt :=
  { attempt
    state := .starting
    runtimeRef := none
    capabilityTokenId := none
    heartbeatExpiresAt := some heartbeatExpiresAt
    exitCode := none
    error := none
    endedAt := none }

/-- `QUEUED -> PREPARING`, and nothing in another state. -/
def prepare (now : Time) (s : Session) : Except PlatformError Session :=
  if s.run.state = .queued then transition now .preparing none none none s else .ok s

/-- Prepare the run and create the attempt row. Idempotent for crash recovery. -/
def beginAttempt (clk : Clock) (heartbeatSeconds : ℕ) (s : Session) :
    Except PlatformError (RunAttempt × Session) := do
  let attempt := s.getAttempt s.run.currentAttempt
  let s ← prepare (clk 0) s
  match attempt with
  | some a => .ok (a, s)
  | none =>
    let a := RunAttempt.starting s.run.currentAttempt (clk 1 + heartbeatSeconds)
    .ok (a, s.addAttempt a)

/-- The attempt row, or `ATTEMPT_NOT_STARTED`. -/
def startedAttempt (attemptNo : ℕ) (s : Session) : Except PlatformError RunAttempt :=
  match s.getAttempt attemptNo with
  | none => .error (conflict "ATTEMPT_NOT_STARTED" "The attempt has not been started." [])
  | some a => .ok a

/-- The handshake's move `PREPARING -> RUNNING`. -/
def enterRunning (now : Time) (s : Session) : Except PlatformError Session :=
  let state := s.run.state
  if state = .preparing then transition now .running none none none s
  else if state ≠ .running ∧ state ≠ .cancelling then
    .error (conflict "INVALID_RUN_STATE" s!"Cannot hand shake while {state}." [])
  else .ok s

def handshake (clk : Clock) (attemptNo heartbeatSeconds : ℕ) (s : Session) :
    Except PlatformError Session := do
  requireAttempt attemptNo s
  let attempt ← startedAttempt attemptNo s
  let s ← enterRunning (clk 0) s
  .ok (s.putAttempt { attempt with
    state := .running
    heartbeatExpiresAt := some (clk 1 + heartbeatSeconds) })

/-- The answer's `state` and `cancelRequested`, and the session. -/
def heartbeat (clk : Clock) (attemptNo heartbeatSeconds : ℕ) (s : Session) :
    Except PlatformError ((RunState × Bool) × Session) := do
  requireAttempt attemptNo s
  let attempt ← startedAttempt attemptNo s
  if s.run.state ∈ RunState.terminalStates then .ok ((s.run.state, true), s)
  else .ok ((s.run.state, s.run.cancelRequestedAt.isSome),
    s.putAttempt { attempt with heartbeatExpiresAt := some (clk 0 + heartbeatSeconds) })

/-- Model gateway lease signal: moves `RUNNING <-> LOADING_MODEL` and nothing else. -/
def setModelLoading (clk : Clock) (attemptNo : ℕ) (loading : Bool) (model : Option String)
    (s : Session) : Except PlatformError Session := do
  requireAttempt attemptNo s
  let reason := (model.filter (· ≠ "")).map fun m => s!"model:{m}"
  if loading ∧ s.run.state = .running then transition (clk 0) .loadingModel reason none none s
  else if ¬ loading ∧ s.run.state = .loadingModel then
    transition (clk 0) .running reason none none s
  else .ok s

def runFinished : PlatformError := conflict "RUN_FINISHED" "The run has already finished." []

def recordAgentEvent (G : Guards) (attemptNo : ℕ) (type : EventType) (payload : Json)
    (s : Session) : Except PlatformError Session :=
  if type ∉ agentEventTypes then
    .error (invalid "INVALID_EVENT_TYPE" s!"Agents cannot emit {type}." [])
  else do
    checkSize G payload maxEventBytes "EVENT_TOO_LARGE" "The event payload"
    requireAttempt attemptNo s
    if s.run.state ∈ RunState.terminalStates then .error runFinished
    else .ok (appendEvent type (.value (G.redact payload)) s)

structure AgentEventInput where
  clientEventId : String
  type : EventType
  payload : Json
  occurredAt : Option Time

structure EventBatchResult where
  accepted : ℕ
  duplicates : ℕ
  lastSequence : ℕ
deriving DecidableEq

/-- One entry of `details.rejected`. -/
structure Rejection where
  index : ℕ
  clientEventId : String
  code : String
  errors : List String

def Rejection.toJson (r : Rejection) : Json :=
  .obj [("index", .num r.index), ("clientEventId", .str r.clientEventId), ("code", .str r.code),
    ("errors", .arr (r.errors.map .str))]

/-- `_event_rejection`; `validator` gives the messages of the envelope schema's errors. -/
def eventRejection (G : Guards) (validator : Option (RunId → ℕ → AgentEventInput → List String))
    (run : AgentRun) (index : ℕ) (event : AgentEventInput) : Option Rejection :=
  let type := event.type
  let kib := maxEventBytes / 1024
  if type ∉ agentEventTypes then
    some ⟨index, event.clientEventId, "INVALID_EVENT_TYPE", [s!"Agents cannot emit {type}."]⟩
  else if maxEventBytes < G.jsonSize event.payload then
    some ⟨index, event.clientEventId, "EVENT_TOO_LARGE",
      [s!"The event payload is larger than {kib} KiB."]⟩
  else match validator with
    | none => none
    | some validate =>
      let errors := (validate run.id run.currentAttempt event).take 5
      if errors.isEmpty then none
      else some ⟨index, event.clientEventId, "INVALID_EVENT", errors⟩

/-- The loop's variables in `record_agent_event_batch`. -/
structure Batch where
  stored : List String
  sequence : ℕ
  accepted : ℕ
  duplicates : ℕ
  rows : List RunEvent

/-- The loop's body: skip a stored id, or number and add the event. -/
def batchStep (G : Guards) (attempt : ℕ) (b : Batch) (event : AgentEventInput) : Batch :=
  if event.clientEventId ∈ b.stored then { b with duplicates := b.duplicates + 1 }
  else
    { b with
      stored := event.clientEventId :: b.stored
      sequence := b.sequence + 1
      accepted := b.accepted + 1
      rows := b.rows ++ [{
        sequence := b.sequence + 1
        attempt
        type := event.type
        payload := .value (G.redact event.payload)
        clientEventId := some event.clientEventId
        occurredAt := event.occurredAt }] }

/-- `select(RunEvent.client_event_id).where(.. in_(ids))`. -/
def storedIds (ids : List String) (s : Session) : List String :=
  s.events.filterMap fun e => e.clientEventId.filter (· ∈ ids)

def recordAgentEventBatch (G : Guards)
    (validator : Option (RunId → ℕ → AgentEventInput → List String)) (attemptNo : ℕ)
    (events : List AgentEventInput) (s : Session) :
    Except PlatformError (EventBatchResult × Session) := do
  requireAttempt attemptNo s
  if s.run.state ∈ RunState.terminalStates then .error runFinished
  else
    let rejected := (events.zipIdx.filterMap fun (e, i) => eventRejection G validator s.run i e)
    if rejected ≠ [] then
      let codes := (rejected.map (·.code)).dedup
      let count := rejected.length
      let total := events.length
      .error (invalid (if codes.length = 1 then codes.headD "INVALID_EVENT" else "INVALID_EVENT")
        s!"{count} of {total} events were rejected; none were stored."
        [("rejected", .arr (rejected.map Rejection.toJson))])
    else
      let b := events.foldl (batchStep G s.run.currentAttempt)
        ⟨storedIds (events.map (·.clientEventId)) s, lastSequence s, 0, 0, []⟩
      .ok (⟨b.accepted, b.duplicates, b.sequence⟩, { s with events := s.events ++ b.rows })

inductive ResultStatus where
  | succeeded
  | failed
deriving DecidableEq

def exitAttempt (now : Time) (attemptNo : ℕ) (s : Session) : Session :=
  match s.getAttempt attemptNo with
  | none => s
  | some a => s.putAttempt { a with state := .exited, endedAt := some now }

/-- `run.result = result`. -/
def Session.setResult (result : Option Json) (s : Session) : Session :=
  { s with run := { s.run with result } }

def resultPayload (status : String) : Payload := .value (.obj [("status", .str status)])

/-- `error or {..}`, redacted. -/
def agentError (G : Guards) (error : Option Json) : Json :=
  G.redact ((error.filter Json.truthy).getD
    (.obj [("code", .str "AGENT_FAILED"), ("message", .str "The agent reported a failure.")]))

/-- `LOADING_MODEL` or `WAITING_INPUT -> RUNNING`, before a result is recorded. -/
def resumeToFinish (now : Time) (s : Session) : Except PlatformError Session :=
  if s.run.state = .loadingModel ∨ s.run.state = .waitingInput then
    transition now .running (some "finishing") none none s
  else .ok s

/-- The result event and the move to `SUCCEEDED` or `FAILED`. -/
def recordResult (G : Guards) (now : Time) (status : ResultStatus) (error : Option Json)
    (s : Session) : Except PlatformError Session :=
  match status with
  | .succeeded =>
    transition now .succeeded none none none (appendEvent .result (resultPayload "succeeded") s)
  | .failed =>
    let err := agentError G error
    transition now .failed none (some err)
      (some ((err.get? "retryable").getD (.bool true)).truthy)
      (appendEvent .result (resultPayload "failed") s)

def finish (G : Guards) (clk : Clock) (attemptNo : ℕ) (status : ResultStatus)
    (result error : Option Json) (s : Session) : Except PlatformError Session := do
  requireAttempt attemptNo s
  if maxResultBytes < G.dumpsSize ((result.filter Json.truthy).getD (.obj [])) then
    .error (invalid "RESULT_TOO_LARGE" "Run results are limited to 1 MiB." [])
  else
    let s := exitAttempt (clk 0) attemptNo s
    if s.run.state ∈ RunState.terminalStates then .ok s
    else
      let s := s.setResult result
      if s.run.state = .cancelling then
        transition (clk 1) .cancelled (some "finished_during_cancel") none none s
      else do
        let s ← resumeToFinish (clk 1) s
        let s ← recordResult G (clk 2) status error s
        .ok (closePendingInputs .cancelled s)

/-- The attempt row of a platform failure, and the stop of its container if it has one. -/
def stopAttempt (clk : Clock) (interrupted : Bool) (error : Json) (s : Session) : Session :=
  match s.getAttempt s.run.currentAttempt with
  | none => s
  | some a =>
    if a.endedAt.isSome then s
    else
      let s := s.putAttempt { a with
        state := if interrupted then .interrupted else .exited
        endedAt := some (clk 0)
        error := some error }
      if a.runtimeRef.isSome then
        s.enqueue .runStop (.stop s.run.id s.run.currentAttempt) (clk 1)
      else s

def failureJson (code message : String) (retryable : Bool) (details : List (String × Json)) :
    Json :=
  .obj ([("code", .str code), ("message", .str message), ("retryable", .bool retryable)]
    ++ if details.isEmpty then [] else [("details", .obj details)])

/-- Platform-side failure (timeout, crash, dead job). Enqueues a container stop. -/
def failRun (clk : Clock) (code message : String) (retryable interrupted : Bool)
    (details : List (String × Json)) (s : Session) : Except PlatformError Session :=
  let target : RunState := if interrupted then .interrupted else .failed
  if s.run.state ∈ RunState.terminalStates ∨ canTransition s.run.state target = false then .ok s
  else do
    let error := failureJson code message retryable details
    let s ← transition (clk 0) target none (some error) (some retryable)
      (appendEvent .error (.value error) s)
    .ok (closePendingInputs .cancelled
      (stopAttempt (fun i => clk (i + 1)) interrupted error s))

/-! ## Container exits -/

def agentOutOfMemory : String := "AGENT_OUT_OF_MEMORY"

def agentExited : String := "AGENT_EXITED"

def agentExitedWithoutResult : String := "AGENT_EXITED_WITHOUT_RESULT"

def sigkillExitCode : ℤ := 137

/-- `_memory_limit_mb`; `version` is the run's version as `session.get` finds it. -/
def memoryLimitMb (version : Option AgentVersion) (memoryLimitBytes : Option ℕ) : Option ℕ :=
  match memoryLimitBytes.filter (· ≠ 0) with
  | some bytes => some (bytes / (1024 * 1024))
  | none => version.bind (·.memoryMb)

def exitText : Option ℤ → String
  | none => "None"
  | some code => toString code

/-- The error code, message and details of an exit that ends the run. -/
def exitFailure (state : RunState) (version : Option AgentVersion) (exitCode : Option ℤ)
    (oomKilled : Bool) (memoryLimitBytes : Option ℕ) : String × String × List (String × Json) :=
  let text := exitText exitCode
  let details : List (String × Json) :=
    [("exitCode", .ofOption (exitCode.map fun c => .num c)), ("oomKilled", .bool oomKilled)]
  if oomKilled = true ∨ exitCode = some sigkillExitCode then
    let memoryMb := memoryLimitMb version memoryLimitBytes
    let limit := match memoryMb.filter (· ≠ 0) with
      | some mb => s!"its {mb} MiB memory limit"
      | none => "its memory limit"
    let message := if oomKilled then
        s!"The agent ran out of memory and was killed: it reached {limit} (exit code {text})."
      else
        s!"The agent was killed (SIGKILL, exit code {text}) without reporting a result, " ++
        s!"most likely for reaching {limit}. The runtime did not confirm the out-of-memory kill."
    (agentOutOfMemory, message,
      details ++ [("memoryLimitMb", .ofOption (memoryMb.map fun mb => .num mb))])
  else if exitCode = some 0 then
    (agentExitedWithoutResult, "The agent exited (exit code 0) without reporting a result.",
      details)
  else
    let stage := if state = .preparing then " before its handshake" else ""
    (agentExited, s!"The agent exited with code {text}{stage} without reporting a result.",
      details)

def noteExit (exitCode : Option ℤ) (a : RunAttempt) (s : Session) : Session :=
  if a.exitCode = none ∧ exitCode ≠ none then s.putAttempt { a with exitCode } else s

/-- The runtime saw the attempt's container exit. The error code if that failed the run. -/
def recordContainerExit (clk : Clock) (version : Option AgentVersion) (attemptNo : ℕ)
    (runtimeRef : RuntimeRef) (exitCode : Option ℤ) (oomKilled : Bool)
    (memoryLimitBytes : Option ℕ) (s : Session) :
    Except PlatformError (Option String × Session) :=
  match s.getAttempt attemptNo with
  | none => .ok (none, s)
  | some a =>
    if a.runtimeRef ≠ some runtimeRef then .ok (none, s)
    else
      let s := noteExit exitCode a s
      if s.run.currentAttempt ≠ attemptNo ∨ s.run.state ∉ RunState.exitFailsStates then
        .ok (none, s)
      else
        let (code, message, details) :=
          exitFailure s.run.state version exitCode oomKilled memoryLimitBytes
        do
          let s ← failRun clk code message true false details s
          .ok (some code, s)

/-! ## Human input -/

def askedPayload (id : ℕ) (key title : String) : Payload :=
  .value (.obj [("inputRequestId", .str (toString id)), ("key", .str key),
    ("title", .str title), ("state", .str "pending")])

/-- Move a running run to `WAITING_INPUT`. -/
def waitForInput (now : Time) (key : String) (s : Session) : Except PlatformError Session :=
  if s.run.state = .running then
    transition now .waitingInput (some s!"input:{key}") none none s
  else .ok s

/-- The checks `ask` makes before it opens or reopens a request. -/
def checkAsk (G : Guards) (now : Time) (schema : Json) (timeoutSeconds : ℤ)
    (preview : Option Json) (s : Session) : Except PlatformError Unit := do
  checkSchema G schema "INVALID_INPUT_SCHEMA"
  match preview with
  | none => .ok ()
  | some p => checkSize G p maxPreviewBytes "PREVIEW_TOO_LARGE" "The preview"
  let remaining : ℚ := s.run.maxInputWaitSeconds - waitSeconds s.run now
  if timeoutSeconds ≤ 0 ∨ remaining < timeoutSeconds then
    .error (invalid "INPUT_WAIT_BUDGET_EXCEEDED"
      "timeoutSeconds exceeds the run's remaining input-wait budget."
      [("remainingSeconds", .num (max 0 remaining).floor)])
  else .ok ()

/-- The request a reopened or new question leaves, in state `pending`. -/
def openRequest (G : Guards) (id attemptNo : ℕ) (key title prompt : String) (schema : Json)
    (preview : Option Json) (deadline : Time) (version : ℕ) (old : Option InputRequest) :
    InputRequest :=
  { id, key, title, prompt, schema, deadline, version
    attempt := attemptNo
    preview := (preview.filter Json.truthy).map G.redact
    state := .pending
    answer := old.bind (·.answer)
    answeredBy := old.bind (·.answeredBy)
    answeredAt := old.bind (·.answeredAt) }

/-- Create or return the input request for `(run, key)`. A request an earlier attempt left
cancelled or expired is reopened. -/
def ask (G : Guards) (clk : Clock) (attemptNo : ℕ) (key title prompt : String) (schema : Json)
    (timeoutSeconds : ℤ) (preview : Option Json) (s : Session) :
    Except PlatformError (InputRequest × Session) := do
  requireAttempt attemptNo s
  let state := s.run.state
  if ((s.run.permissionsSnapshot.get? "userInput").getD .null).truthy = false then
    .error ⟨"PERMISSION_DENIED", "This agent was not approved to ask questions.", 403, []⟩
  else if state ≠ .running ∧ state ≠ .waitingInput then
    .error (conflict "INVALID_RUN_STATE" s!"Cannot ask for input while {state}." [])
  else match Table.get InputRequest.key key s.requests with
    | some old =>
      if (old.state = .cancelled ∨ old.state = .expired) ∧ old.attempt < attemptNo then do
        checkAsk G (clk 0) schema timeoutSeconds preview s
        let r := openRequest G old.id attemptNo key title prompt schema preview
          (clk 0 + timeoutSeconds) (old.version + 1) (some old)
        let s ← waitForInput (clk 1) key
          (appendEvent .inputRequested (askedPayload r.id key title) (s.putRequest r))
        .ok (r, s)
      else if old.state = .pending then do
        let s ← waitForInput (clk 0) key s
        .ok (old, s)
      else .ok (old, s)
    | none => do
      checkAsk G (clk 0) schema timeoutSeconds preview s
      let r := openRequest G s.nextUuid attemptNo key title prompt schema preview
        (clk 0 + timeoutSeconds) 1 none
      let s ← waitForInput (clk 1) key
        (appendEvent .inputRequested (askedPayload r.id key title) (s.addRequest r))
      .ok (r, s)

def answer (G : Guards) (clk : Clock) (requestId version : ℕ) (value : Json) (userId : UserId)
    (s : Session) : Except PlatformError (InputRequest × Session) :=
  match Table.get InputRequest.id requestId s.requests with
  | none => .error (notFound "Input request" requestId)
  | some r =>
    let state := r.state
    if state ≠ .pending then
      .error (conflict "INPUT_ALREADY_CLOSED" s!"This request is already {state}." [])
    else if r.version ≠ version then
      .error (conflict "VERSION_CONFLICT" "The request changed; reload it."
        [("currentVersion", .num r.version)])
    else if r.deadline ≤ clk 0 then
      .error (conflict "INPUT_EXPIRED" "This request has expired." [])
    else do
      checkSize G value maxAnswerBytes "ANSWER_TOO_LARGE" "The answer"
      let errors := (G.valueErrors r.schema value).take 10
      if errors ≠ [] then
        .error (invalid "INVALID_ANSWER" "The answer does not match the requested form."
          [("errors", .arr (errors.map .str))])
      else
        let r := { r with
          state := .answered
          answer := some value
          answeredBy := some userId
          answeredAt := some (clk 1)
          version := r.version + 1 }
        let s ← resumeIfNoPending (clk 2)
          (appendEvent .inputAnswered (requestPayload r.id r.key .answered) (s.putRequest r))
        .ok (r, s)

/-! ## Agent idempotency keys -/

inductive ActionAnswer where
  | claimed
  | inDoubt
  | completed (result : Option Json)

def claimAction (attemptNo : ℕ) (key : String) (claimToken : Option String) (s : Session) :
    Except PlatformError (ActionAnswer × Session) := do
  requireAttempt attemptNo s
  match Table.get IdempotencyAction.key key s.actions with
  | none => .ok (.claimed, { s with actions := s.actions ++
      [⟨key, .claimed, attemptNo, none, claimToken, none⟩] })
  | some a =>
    if a.state = .completed then .ok (.completed a.result, s)
    else if a.state = .claimed ∧ claimToken ≠ none ∧ a.claimToken = claimToken
        ∧ a.attempt = attemptNo then .ok (.claimed, s)
    else .ok (.inDoubt, s.putAction { a with state := .inDoubt, attempt := attemptNo })

def completeAction (G : Guards) (clk : Clock) (attemptNo : ℕ) (key : String) (result : Json)
    (s : Session) : Except PlatformError (ActionAnswer × Session) := do
  requireAttempt attemptNo s
  match Table.get IdempotencyAction.key key s.actions with
  | none => .error (conflict "ACTION_NOT_CLAIMED" "Claim the action key before completing it." [])
  | some a =>
    if a.state = .completed then .ok (.completed a.result, s)
    else
      let result := G.redact result
      .ok (.completed (some result), s.putAction { a with
        state := .completed
        result := some result
        completedAt := some (clk 0) })

end Crewquarters
