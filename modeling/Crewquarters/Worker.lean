import Crewquarters.Service

/-!
# The worker's transactions

`scheduler/worker.py`: what the handlers of `run.dispatch`, `run.cancel` and `run.stop` read and
write in each of their transactions, and `on_dead_job`. The runtime calls between the
transactions, made with no lock held, belong to the system these are the steps of.
-/

namespace Crewquarters

inductive JobError where
  | permanent (message : String)
  | platform (e : PlatformError)
  | unexpected (name : String)

/-- Whether `Worker.execute` asks for a retry. -/
def JobError.retryable : JobError → Bool
  | .permanent _ => false
  | .platform e => 500 ≤ e.statusCode
  | .unexpected _ => true

def raising {α : Type} : Except PlatformError α → Except JobError α
  | .ok a => .ok a
  | .error e => .error (.platform e)

structure Settings where
  jobLeaseSeconds : ℕ
  prepareTimeoutSeconds : ℕ
  heartbeatTimeoutSeconds : ℕ

/-- The claims of a minted capability token that do not come from the permissions. -/
structure CapabilityClaims where
  tokenId : TokenId
  runId : RunId
  attempt : ℕ
  installationId : InstallationId
  agentVersionId : VersionId
  issuedAt : Time
  expiresAt : Time
deriving DecidableEq

/-- A capability token lives as long as the attempt possibly can. -/
def tokenTtlSeconds (run : AgentRun) (settings : Settings) : ℕ :=
  settings.prepareTimeoutSeconds + run.activeTimeoutSeconds + run.maxInputWaitSeconds + 300

/-- `capability.mint`. -/
def mint (now : Time) (tokenId : TokenId) (run : AgentRun) (attempt : ℕ)
    (installation : AgentInstallation) (version : AgentVersion) (ttlSeconds : ℕ) :
    CapabilityClaims :=
  { tokenId
    runId := run.id
    attempt
    installationId := installation.id
    agentVersionId := version.id
    issuedAt := now
    expiresAt := now + ttlSeconds }

/-- The identity of a run's container and the token in its environment. -/
structure RunSpec where
  runId : RunId
  attempt : ℕ
  token : CapabilityClaims
deriving DecidableEq

def RunSpec.ref (spec : RunSpec) : RuntimeRef := ⟨spec.runId, spec.attempt⟩

/-- The tables a dispatch looks its installation and version up in, by primary key. -/
structure Catalog where
  installations : InstallationId → Option AgentInstallation
  versions : VersionId → Option AgentVersion
  installation_id : ∀ {id i}, installations id = some i → i.id = id

/-- `deleted_at is not None or needs_reapproval or not enabled`. -/
def AgentInstallation.unready (i : AgentInstallation) : Bool :=
  i.deletedAt.isSome || i.needsReapproval || !i.enabled

def installationNotReady : String :=
  "The installation is disabled, removed, or needs permission reapproval."

/-- The first transaction of `handle_dispatch`: the container to start, or `none` to return. -/
def dispatchPrepare (settings : Settings) (catalog : Catalog) (clk : Clock) (attemptNo : ℕ)
    (s : Session) : Except JobError (Option RunSpec × Session) :=
  if s.run.currentAttempt ≠ attemptNo ∨ (s.run.state ≠ .queued ∧ s.run.state ≠ .preparing) then
    .ok (none, s)
  else match catalog.installations s.run.installationId,
      catalog.versions s.run.agentVersionId with
    | some installation, some version => do
      let (attempt, s) ← raising (beginAttempt clk settings.prepareTimeoutSeconds s)
      if installation.unready then
        let s ← raising (failRun (fun i => clk (i + 2)) "INSTALLATION_NOT_READY"
          installationNotReady false false [] s)
        .ok (none, s)
      else if attempt.runtimeRef.isSome then .ok (none, s)
      else
        let token := mint (clk 2) s.nextUuid s.run attemptNo installation version
          (tokenTtlSeconds s.run settings)
        .ok (some ⟨s.run.id, attemptNo, token⟩,
          (s.putAttempt { attempt with capabilityTokenId := some token.tokenId }).takeUuid)
    | _, _ => .error (.unexpected "AssertionError")

/-- The second transaction of `handle_dispatch`: record the reference; `true` to stop the new
container because the run was cancelled or failed meanwhile. -/
def dispatchRecord (settings : Settings) (clk : Clock) (attemptNo : ℕ) (runtimeRef : RuntimeRef)
    (s : Session) : Except JobError (Bool × Session) :=
  match s.getAttempt attemptNo with
  | none => .error (.unexpected "AssertionError")
  | some recorded =>
    let stopNow := decide (s.run.currentAttempt ≠ attemptNo ∨ s.run.state = .cancelled
      ∨ s.run.state = .failed ∨ s.run.state = .interrupted)
    if recorded.runtimeRef = none then
      .ok (stopNow, s.putAttempt { recorded with
        runtimeRef := some runtimeRef
        heartbeatExpiresAt := if s.run.state = .preparing then
          some (clk 0 + settings.prepareTimeoutSeconds) else recorded.heartbeatExpiresAt })
    else .ok (stopNow, s)

/-- What `handle_cancel` reads first: `none` to return, else the reference to stop. -/
def cancelRead (d : RunData) : Option (Option RuntimeRef) :=
  if d.run.state ≠ .cancelling then none
  else some ((d.getAttempt d.run.currentAttempt).bind (·.runtimeRef))

/-- The transaction of `handle_cancel`, and the container a dispatch recorded after
`cancelRead`, which is stopped before it commits. -/
def cancelFinish (clk : Clock) (runtimeRef : Option RuntimeRef) (s : Session) :
    Except JobError (Option RuntimeRef × Session) :=
  if s.run.state ≠ .cancelling then .ok (none, s)
  else match s.getAttempt s.run.currentAttempt with
    | none => do
      let s ← raising (transition (clk 0) .cancelled (some "stopped") none none s)
      .ok (none, s)
    | some a => do
      let late := if a.runtimeRef ≠ runtimeRef then a.runtimeRef else none
      let s ← raising (transition (clk 1) .cancelled (some "stopped") none none
        (s.putAttempt { a with state := .cancelled, endedAt := a.endedAt.or (some (clk 0)) }))
      .ok (late, s)

/-- What `handle_stop` reads: the reference to stop. -/
def stopRead (attemptNo : ℕ) (d : RunData) : Option RuntimeRef :=
  (d.getAttempt attemptNo).bind (·.runtimeRef)

def stopFailed : Json :=
  .obj [("code", .str "STOP_FAILED"), ("message", .str "The container may still be stopping.")]

/-- `on_dead_job` once it has the run's row: settle the run the dead job belonged to. -/
def onDeadJob (clk : Clock) (type : JobType) (payload : JobPayload) (s : Session) :
    Except PlatformError Session :=
  if s.run.currentAttempt ≠ payload.attempt.getD s.run.currentAttempt then .ok s
  else if type = .runDispatch ∧ (s.run.state = .queued ∨ s.run.state = .preparing) then do
    let s ← prepare (clk 0) s
    failRun (fun i => clk (i + 1)) "DISPATCH_FAILED" "The run could not be started." true false
      [] s
  else if type = .runCancel ∧ s.run.state = .cancelling then
    transition (clk 0) .cancelled (some "stop_failed") (some stopFailed) none s
  else .ok s

end Crewquarters
