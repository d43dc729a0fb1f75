import Crewquarters.Database

/-!
# The capability broker's check of an agent's token

Every call of an agent carries the token from its container's environment. The broker reads the
run from the control API (`internalRun`) and lets the call through while the token is the one of
the current attempt of an active run.
-/

namespace Crewquarters

/-- `errors.unauthenticated`. -/
def unauthenticated (message : String) : PlatformError := ⟨"UNAUTHENTICATED", message, 401, []⟩

/-- What the broker reads of `InternalRunOut`. -/
structure InternalRun where
  capabilityTokenId : Option TokenId
  state : RunState
  currentAttempt : ℕ
  installationId : InstallationId

def internalRun (d : RunData) : InternalRun where
  capabilityTokenId := (d.getAttempt d.run.currentAttempt).bind (·.capabilityTokenId)
  state := d.run.state
  currentAttempt := d.run.currentAttempt
  installationId := d.run.installationId

structure Grant where
  claims : CapabilityClaims
  run : InternalRun

def tokenReplaced : PlatformError :=
  unauthenticated "This capability token has been replaced or revoked."

def runNotActive : PlatformError := ⟨"RUN_NOT_ACTIVE", "The run is no longer active.", 409, []⟩

/-- `authorize` of a token that `capability.verify` accepted. -/
def authorize (claims : CapabilityClaims) (allowFinished : Bool) (db : Db) :
    Except PlatformError Grant :=
  match db.getRun claims.runId with
  | none => .error (unauthenticated "A valid capability token is required.")
  | some d =>
    let run := internalRun d
    if run.capabilityTokenId ≠ some claims.tokenId ∨ run.currentAttempt ≠ claims.attempt
        ∨ run.installationId ≠ claims.installationId then .error tokenReplaced
    else
      let finished := allowFinished && decide (run.state ∈ RunState.terminalStates)
      if run.state ∉ RunState.activeStates ∧ ¬ finished then .error runNotActive
      else .ok ⟨claims, run⟩

end Crewquarters
