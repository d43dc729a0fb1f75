import Crewquarters.Gateway

/-!
# The reaper and the runtime

The clean-ups of `reap` that end in `runtime.stop`: marking crashed models, `_recover_stuck` and
`_stop_orphans`, each of them a read of the instances, questions to the runtime daemon and a stop
by model id, with no lock held in between. `ReapPc` says what the leader does next; everything else
the gateway does may come at any time (`ReapingAction.gateway`). The transactions of the clean-ups
are those of the gateway. `loads` counts the loads of each model that have begun, and a model the
reaper read is kept with the count at that read (`Seen`).
-/

namespace Crewquarters

/-- A model that a clean-up read, and how many of its loads had begun by then. -/
structure Seen where
  modelId : ModelId
  loads : ℕ
deriving DecidableEq

/-- A row that `_recover_stuck` read. -/
structure StuckRow where
  seen : Seen
  state : InstanceState
  loadStartedAt : Option Time

/-- What the leader does next in `reap`, after the leases and the idle drain. -/
inductive ReapPc where
  /-- the models in `READY` are read -/
  | idle
  /-- `runtime.model_state` of the next model; after the last one the stuck rows are read -/
  | crashes (ready : List ModelId)
  /-- the transaction that marks a crashed model -/
  | marking (container : Json) (modelId : ModelId) (ready : List ModelId)
  /-- `runtime.stop` of a model that was marked -/
  | stopCrashed (seen : Seen) (ready : List ModelId)
  /-- `_recover_stuck`: `_live_job` of the next row; after the last one the idle models are read -/
  | stuck (rows : List StuckRow)
  /-- `_recover_stuck`: `runtime.model_state` and the health check -/
  | probing (seen : Seen) (rows : List StuckRow)
  /-- `_recover_stuck`: the transaction that takes a healthy server over -/
  | adopting (endpoint : Json) (seen : Seen) (rows : List StuckRow)
  /-- `_fail_load`: `runtime.stop` -/
  | aborting (seen : Seen) (rows : List StuckRow)
  /-- `_fail_load`: its transaction -/
  | failing (seen : Seen) (rows : List StuckRow)
  /-- `_recover_stuck`: the transaction that enqueues the unload again -/
  | requeueing (seen : Seen) (rows : List StuckRow)
  /-- `_stop_orphans`: `runtime.model_state` of the next model -/
  | orphans (idle : List Seen)
  /-- `_stop_orphans`: `runtime.stop` -/
  | stopOrphan (seen : Seen) (idle : List Seen)

/-- The model that the next call of `runtime.stop` names. -/
def ReapPc.stops : ReapPc → Option Seen
  | .stopCrashed seen _ | .aborting seen _ | .stopOrphan seen _ => some seen
  | _ => none

structure Reaping where
  gateway : Gateway
  loads : ModelId → ℕ
  pc : ReapPc

inductive ReapingAction where
  | gateway (a : GatewayAction)
  /-- the leader's next step, with the clock, when an unload is due and how its call ended -/
  | reap (now due : Time) (reply : Reply)

/-- The instance is `LOADING`. -/
def GatewayDb.isLoading (modelId : ModelId) (db : GatewayDb) : Bool :=
  (Table.get Model.id modelId db.models).any fun m => m.inst.state = .loading

/-- The instance is `LOADING` or `READY`. -/
def GatewayDb.isServing (modelId : ModelId) (db : GatewayDb) : Bool :=
  (Table.get Model.id modelId db.models).any fun m =>
    m.inst.state = .loading || m.inst.state = .ready

/-- `container.get("state") == "running"`. -/
def Json.isRunning (container : Json) : Bool :=
  match container.get? "state" with
  | some (.str "running") => true
  | _ => false

/-- `container.get("state") in (None, "absent")`. -/
def Json.isAbsent (container : Json) : Bool :=
  match container.get? "state" with
  | none | some .null | some (.str "absent") => true
  | _ => false

namespace Reaping

def init (models : List Model) : Reaping := ⟨.init models, fun _ => 0, .idle⟩

def goto (pc : ReapPc) (s : Reaping) : Reaping := { s with pc }

/-- The gateway takes a step; a model that is loading now and was not before began a load. -/
def setGateway (g : Gateway) (s : Reaping) : Reaping :=
  { s with
    gateway := g
    loads := fun id =>
      if g.db.isLoading id && !s.gateway.db.isLoading id then s.loads id + 1 else s.loads id }

def act (settings : GatewaySettings) (a : GatewayAction) (s : Reaping) : Option Reaping :=
  (s.gateway.step settings a).map fun g => s.setGateway g

def see (modelId : ModelId) (s : Reaping) : Seen := ⟨modelId, s.loads modelId⟩

/-- `SELECT model_id FROM model_instances WHERE state IN ..`. -/
def select (p : InstanceState → Bool) (s : Reaping) : List ModelId :=
  (s.gateway.db.models.filter fun m => p m.inst.state).map Model.id

def readStuck (s : Reaping) : List StuckRow :=
  (s.gateway.db.models.filter fun m =>
    m.inst.state = .loading || m.inst.state = .draining).map fun m =>
      ⟨s.see m.id, m.inst.state, m.inst.loadStartedAt⟩

/-- `_recover_stuck`, one round of its loop up to the first call or transaction. -/
def recover (loadPollSeconds : ℚ) (now : Time) (row : StuckRow) (rows : List StuckRow)
    (s : Reaping) : ReapPc :=
  let grace := max 30 (loadPollSeconds * 10)
  if row.state = .loading then
    if s.gateway.db.jobs.hasLive (.load row.seen.modelId) then .stuck rows
    else if row.loadStartedAt.any fun started => now - started < grace then .stuck rows
    else .probing row.seen rows
  else if s.gateway.db.jobs.hasLive (.unload row.seen.modelId) then .stuck rows
  else .requeueing row.seen rows

/-- `reap`, the transaction that marks a crashed model: the row is read again, under a lock. -/
def mark (settings : GatewaySettings) (container : Json) (modelId : ModelId)
    (ready : List ModelId) (s : Reaping) : Option Reaping :=
  match s.gateway.db.rows modelId with
  | .error _ => some (s.goto .idle)
  | .ok m =>
    if m.inst.state ≠ .ready then some (s.goto (.crashes ready))
    else (s.act settings (.markCrashed container modelId)).map
      (goto (.stopCrashed (s.see modelId) ready))

/-- The leader's next step. A `PlatformError` of `runtime.stop` is suppressed, everything else that
is raised ends the round. -/
def reap (settings : GatewaySettings) (loadPollSeconds : ℚ) (now due : Time) (reply : Reply)
    (s : Reaping) : Option Reaping :=
  match s.pc, reply with
  | .idle, .value _ _ _ => some (s.goto (.crashes (s.select fun st => st = .ready)))
  | .crashes [], .value _ _ _ => some (s.goto (.stuck s.readStuck))
  | .crashes (modelId :: ready), .value state _ _ =>
    let container := state.getOrEmpty "container"
    some (s.goto (if container.isRunning then .crashes ready
      else .marking container modelId ready))
  | .marking container modelId ready, .value _ _ _ => s.mark settings container modelId ready
  | .stopCrashed _ ready, .value _ _ _ | .stopCrashed _ ready, .error _ =>
    some (s.goto (.crashes ready))
  | .stuck [], .value _ _ _ =>
    some (s.goto (.orphans ((s.select fun st => !st.resident).map s.see)))
  | .stuck (row :: rows), .value _ _ _ => some (s.goto (s.recover loadPollSeconds now row rows))
  | .probing seen rows, .value state healthy _ =>
    let container := state.getOrEmpty "container"
    let endpoint := container.getOrEmpty "endpoint"
    some (s.goto (if container.isRunning && healthyAt endpoint healthy
      then .adopting endpoint seen rows else .aborting seen rows))
  | .adopting endpoint seen rows, .value _ _ _ =>
    (s.act settings (.adopt now endpoint seen.modelId)).map (goto (.stuck rows))
  | .aborting seen rows, .value _ _ _ | .aborting seen rows, .error _ =>
    some (s.goto (.failing seen rows))
  | .failing seen rows, .value _ _ _ =>
    (s.act settings (.failStuck seen.modelId)).map (goto (.stuck rows))
  | .requeueing seen rows, .value _ _ _ =>
    (s.act settings (.requeueUnload due seen.modelId)).map (goto (.stuck rows))
  | .orphans [], .value _ _ _ => some (s.goto .idle)
  | .orphans (seen :: idle), .value state _ _ =>
    some (s.goto (if (state.getOrEmpty "container").isAbsent then .orphans idle
      else .stopOrphan seen idle))
  | .stopOrphan _ idle, .value _ _ _ | .stopOrphan _ idle, .error _ =>
    some (s.goto (.orphans idle))
  | _, .error _ | _, .exception _ => some (s.goto .idle)

def step (settings : GatewaySettings) (loadPollSeconds : ℚ) :
    ReapingAction → Reaping → Option Reaping
  | .gateway a, s => s.act settings a
  | .reap now due reply, s => s.reap settings loadPollSeconds now due reply

end Reaping

def reaping (settings : GatewaySettings) (loadPollSeconds : ℚ) : Machine Reaping ReapingAction :=
  ⟨Reaping.step settings loadPollSeconds⟩

end Crewquarters
