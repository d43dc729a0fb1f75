import Mathlib.Tactic

/-!
# The run state machine

`runs/states.py`: the states of a run, the transitions allowed between them, and the sets of
states the service and the scheduler test against.
-/

namespace Crewquarters

inductive RunState where
  | queued
  | preparing
  | loadingModel
  | running
  | waitingInput
  | cancelling
  | succeeded
  | failed
  | cancelled
  | interrupted
deriving DecidableEq, Repr, Inhabited

namespace RunState

protected def toString : RunState → String
  | queued => "QUEUED"
  | preparing => "PREPARING"
  | loadingModel => "LOADING_MODEL"
  | running => "RUNNING"
  | waitingInput => "WAITING_INPUT"
  | cancelling => "CANCELLING"
  | succeeded => "SUCCEEDED"
  | failed => "FAILED"
  | cancelled => "CANCELLED"
  | interrupted => "INTERRUPTED"

instance : ToString RunState := ⟨RunState.toString⟩

def transitions : RunState → List RunState
  | queued => [preparing, cancelled]
  | preparing => [running, failed, cancelling, interrupted]
  | running => [loadingModel, waitingInput, succeeded, failed, cancelling, interrupted]
  | loadingModel => [running, failed, cancelling, interrupted]
  | waitingInput => [running, cancelling, interrupted, failed]
  | cancelling => [cancelled]
  | interrupted => [queued]
  | failed => [queued]
  | succeeded => []
  | cancelled => []

def canTransition (current target : RunState) : Bool := decide (target ∈ current.transitions)

/-- States in which the run has a live (or starting) container attempt. -/
def activeStates : List RunState := [preparing, loadingModel, running, waitingInput, cancelling]

def activeClockStates : List RunState := [preparing, loadingModel, running]

def waitClockStates : List RunState := [waitingInput]

/-- States that end an attempt; a `failed` or `interrupted` run may still be retried. -/
def terminalStates : List RunState := [succeeded, failed, cancelled, interrupted]

def cancellableStates : List RunState :=
  [queued, preparing, loadingModel, running, waitingInput]

/-- States in which a container exit without a result fails the run. -/
def exitFailsStates : List RunState := [preparing, loadingModel, running, waitingInput]

/-- The reconciler's `WATCHED_STATES`. -/
def watchedStates : List RunState := [preparing, loadingModel, running, waitingInput]

end RunState

end Crewquarters
