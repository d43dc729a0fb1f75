import Crewquarters.Models
import Crewquarters.Lib.Machine

/-!
# The model gateway

The gateway's workers (`run_job_once`) claim load and unload jobs and run `handle_load` and
`handle_unload` step by step (`GatewayPc` says what a handler does next), while leases are acquired
and released, models are unloaded by hand and the leader reaps. Each transaction and each call to
the runtime daemon is a step of its own, and the transaction that completes a job comes after the
handler's last one. What the reaper read before one of its transactions is left open: any of them
may happen at any time.
-/

namespace Crewquarters

inductive GatewayPc where
  /-- its first read or transaction -/
  | start
  /-- `handle_load`: `_set(stage="Pulling image")` -/
  | pulling
  /-- `handle_load`: `runtime.prepare` -/
  | preparing
  /-- `handle_load`: `_set(stage="Starting container")` -/
  | starting
  /-- `handle_load`: `runtime.start` -/
  | launching
  /-- `handle_load`: `_set(stage="Loading weights")` -/
  | weighing (endpoint : Json)
  /-- `handle_load`: `runtime.model_state` and the health check -/
  | polling (endpoint : Json)
  /-- `handle_load`: `_set(stage="Health check")` -/
  | checking (endpoint : Json)
  /-- `handle_load`: its last transaction -/
  | loaded (endpoint : Json)
  /-- `_fail_load`: `runtime.stop` -/
  | aborting (code message : String) (details : List (String × Json))
  /-- `_fail_load`: its transaction -/
  | failing (code message : String) (details : List (String × Json))
  /-- `handle_unload`: `runtime.stop` -/
  | stopping
  /-- `handle_unload`: its last transaction -/
  | stopped (report : Json)
  /-- it returned: `jobs.complete` -/
  | returned
  /-- it raised: `jobs.fail` -/
  | raised

structure GatewayHandler where
  id : ℕ
  worker : WorkerId
  job : Job
  pc : GatewayPc

structure Gateway where
  db : GatewayDb
  handlers : List GatewayHandler
  nextHandler : ℕ

/-- How a step's call ended. A health check says whether the server answers as it should, and
whether the load is past its time. -/
inductive Reply where
  | value (v : Json) (healthy late : Bool)
  | error (e : PlatformError)
  | exception (name : String)

/-- `_healthy`. -/
def healthyAt (endpoint : Json) (answers : Bool) : Bool :=
  endpoint.truthy && (((endpoint.get? "inprocess").map Json.truthy).getD false || answers)

/-- `handle_load`, one round of its loop. -/
def polled (endpoint state : Json) (healthy late : Bool) : GatewayPc :=
  let container := state.getOrEmpty "container"
  let next := container.getOrEmpty "endpoint"
  let endpoint := if next.truthy then next else endpoint
  match container.get? "state" with
  | some (.str "exited") | some (.str "dead") | some (.str "absent") =>
    .aborting "MODEL_START_FAILED" "The model server exited during startup."
      [("exitCode", .ofOption (container.get? "exitCode")),
        ("oomKilled", .ofOption (container.get? "oomKilled"))]
  | _ =>
    if healthyAt endpoint healthy then .loaded endpoint
    else if late then
      .aborting "MODEL_LOAD_TIMEOUT" "The model server did not become healthy." []
    else .checking endpoint

namespace Gateway

def init (models : List Model) : Gateway := ⟨⟨models, [], 0, ⟨[], 0⟩⟩, [], 0⟩

def getHandler (id : ℕ) (s : Gateway) : Option GatewayHandler :=
  Table.get GatewayHandler.id id s.handlers

def goto (h : GatewayHandler) (pc : GatewayPc) (s : Gateway) : Gateway :=
  { s with handlers := Table.put GatewayHandler.id { h with pc } s.handlers }

def drop (h : GatewayHandler) (s : Gateway) : Gateway :=
  { s with handlers := s.handlers.filter fun k => k.id ≠ h.id }

def setDb (db : GatewayDb) (s : Gateway) : Gateway := { s with db }

def setJobs (jobs : JobTable) (s : Gateway) : Gateway := { s with db := { s.db with jobs } }

/-- Commit the transaction, or roll it back if it raised. -/
def commit (x : Except PlatformError GatewayDb) (s : Gateway) : Gateway :=
  match x with
  | .ok db => s.setDb db
  | .error _ => s

/-- Commit a transaction of the handler and go on to `pc`, or raise. -/
def commitGoto (h : GatewayHandler) (pc : GatewayPc) (x : Except PlatformError GatewayDb)
    (s : Gateway) : Gateway :=
  match x with
  | .ok db => (s.setDb db).goto h pc
  | .error _ => s.goto h .raised

/-- `handle_load` reads the instance. -/
def beginLoad (h : GatewayHandler) (modelId : ModelId) (s : Gateway) : Gateway :=
  match s.db.rows modelId with
  | .error _ => s.goto h .raised
  | .ok m => s.goto h (if m.inst.state ≠ .loading then .returned else .pulling)

/-- `handle_unload`, its first transaction. -/
def beginUnload (h : GatewayHandler) (modelId : ModelId) (s : Gateway) : Gateway :=
  match s.db.unloadBegin modelId with
  | .error _ => s.goto h .raised
  | .ok (none, db) => (s.setDb db).goto h .returned
  | .ok (some _, db) => (s.setDb db).goto h .stopping

/-- Inside the `try` of `handle_load`, everything that is raised ends in `_fail_load`. -/
def caught : Reply → GatewayPc → GatewayPc
  | .value _ _ _, pc => pc
  | .error e, _ => .aborting e.code e.message e.details
  | .exception name, _ => .aborting "MODEL_START_FAILED" name []

/-- `_set(stage=..)` inside the `try`. -/
def stage (text : String) (h : GatewayHandler) (modelId : ModelId) (reply : Reply)
    (pc : GatewayPc) (s : Gateway) : Gateway :=
  match reply with
  | .value _ _ _ => (s.setDb (s.db.setStage text modelId)).goto h pc
  | _ => s.goto h (caught reply pc)

def handle (clk : ℕ → Time) (reply : Reply) (h : GatewayHandler) (modelId : ModelId)
    (s : Gateway) : Gateway :=
  match h.pc, reply with
  | .pulling, _ => s.stage "Pulling image" h modelId reply .preparing
  | .preparing, _ => s.goto h (caught reply .starting)
  | .starting, _ => s.stage "Starting container" h modelId reply .launching
  | .launching, .value state _ _ =>
    s.goto h (.weighing ((state.getOrEmpty "container").getOrEmpty "endpoint"))
  | .launching, _ => s.goto h (caught reply .launching)
  | .weighing endpoint, _ => s.stage "Loading weights" h modelId reply (.polling endpoint)
  | .polling endpoint, .value state healthy late =>
    s.goto h (polled endpoint state healthy late)
  | .polling endpoint, _ => s.goto h (caught reply (.polling endpoint))
  | .checking endpoint, _ => s.stage "Health check" h modelId reply (.polling endpoint)
  | .aborting _ _ _, .exception _ => s.goto h .raised
  | .aborting code message details, _ => s.goto h (.failing code message details)
  | .stopping, .value report _ _ => s.goto h (.stopped report)
  | .loaded endpoint, .value _ _ _ =>
    s.commitGoto h .returned (s.db.finishLoad (clk 0) (clk 1) endpoint modelId)
  | .failing code message details, .value _ _ _ =>
    s.commitGoto h .returned (s.db.failLoad code message details modelId)
  | .stopped report, .value _ _ _ =>
    s.commitGoto h .returned (s.db.unloadFinish (clk 0) (clk 1) report modelId)
  | .start, .value _ _ _ =>
    match h.job.type with
    | .modelLoad => s.beginLoad h modelId
    | .modelUnload => s.beginUnload h modelId
    | _ => s.goto h .raised
  | _, _ => s.goto h .raised

/-- The handler's next step; `jobs.complete` and `jobs.fail` are its last. -/
def advance (clk : ℕ → Time) (random : ℚ) (reply : Reply) (h : GatewayHandler) (s : Gateway) :
    Gateway :=
  match h.pc, reply with
  | .returned, .value _ _ _ =>
    (s.setJobs (s.db.jobs.complete h.job.id h.worker (clk 0)).2).drop h
  | .raised, .value _ _ _ =>
    (s.setJobs (s.db.jobs.fail h.job.id h.worker true random (clk 0)).2).drop h
  | .returned, _ | .raised, _ => s.drop h
  | _, _ => match h.job.payload.modelId with
    | none => s.goto h .raised
    | some modelId => s.handle clk reply h modelId

def handledTypes : List JobType := [.modelLoad, .modelUnload]

/-- `worker_loop` runs one job at a time. -/
def claim (settings : GatewaySettings) (worker : WorkerId) (locked : List ℕ) (now : Time)
    (s : Gateway) : Option Gateway :=
  if s.handlers.any fun h => h.worker = worker then none
  else match s.db.jobs.claim worker settings.jobLeaseSeconds handledTypes locked now with
  | (none, _) => none
  | (some job, jobs) => some { s.setJobs jobs with
      handlers := s.handlers ++ [⟨s.nextHandler, worker, job, .start⟩]
      nextHandler := s.nextHandler + 1 }

end Gateway

inductive GatewayAction where
  | acquire (capacity : Except PlatformError ℤ) (now due : Time) (modelId : ModelId)
      (holderType : HolderType) (holderId label : String) (ttlSeconds : ℕ)
  | release (released : ℕ → Time) (idle : ModelId → Time) (leaseId : ℕ) (reason : String)
  | releaseHolder (released : ℕ → Time) (idle : ModelId → Time) (holderType : HolderType)
      (holderId reason : String)
  | unload (released : ℕ → Time) (due : Time) (modelId : ModelId) (force : Bool)
  | refreshInstallation (files : DownloadState) (modelId : ModelId)
  | claim (worker : WorkerId) (locked : List ℕ) (now : Time)
  | advance (handler : ℕ) (clk : ℕ → Time) (random : ℚ) (reply : Reply)
  | crash (handler : ℕ)
  | keepLease (handler : ℕ) (now : Time)
  /-- `jobs.reap_expired`, by the leader of the gateway or of the scheduler -/
  | reapJobs (now : Time)
  | expireLeases (now : Time) (idle : ModelId → Time) (locked : List ℕ)
  | drainIdle (now : Time) (due : ModelId → Time) (locked : List ModelId)
  | markCrashed (container : Json) (modelId : ModelId)
  /-- `_recover_stuck`: a healthy load is taken over -/
  | adopt (now : Time) (endpoint : Json) (modelId : ModelId)
  /-- `_recover_stuck`: `_fail_load` -/
  | failStuck (modelId : ModelId)
  /-- `_recover_stuck`: the unload is enqueued again -/
  | requeueUnload (due : Time) (modelId : ModelId)

namespace Gateway

def step (settings : GatewaySettings) : GatewayAction → Gateway → Option Gateway
  | .acquire capacity now due modelId holderType holderId label ttl, s =>
    some (s.commit ((s.db.acquire settings capacity now due modelId holderType holderId label
      ttl).map Prod.snd))
  | .release released idle leaseId reason, s =>
    some (s.setDb (s.db.release released idle leaseId reason))
  | .releaseHolder released idle holderType holderId reason, s =>
    some (s.setDb (s.db.releaseHolder released idle holderType holderId reason))
  | .unload released due modelId force, s =>
    some (s.commit (s.db.unload released due modelId force))
  | .refreshInstallation files modelId, s =>
    some (s.setDb (s.db.refreshInstallation files modelId))
  | .claim worker locked now, s => s.claim settings worker locked now
  | .advance id clk random reply, s =>
    (s.getHandler id).map fun h => s.advance clk random reply h
  | .crash id, s => (s.getHandler id).map fun h => s.drop h
  | .keepLease id now, s => (s.getHandler id).map fun h =>
    s.setJobs (s.db.jobs.heartbeat h.job.id h.worker settings.jobLeaseSeconds now).2
  | .reapJobs now, s => some (s.setJobs (s.db.jobs.reapExpired now).2.2)
  | .expireLeases now idle locked, s => some (s.setDb (s.db.expireLeases now idle locked))
  | .drainIdle now due locked, s => some (s.setDb (s.db.drainIdle settings now due locked))
  | .markCrashed container modelId, s => some (s.commit (s.db.markCrashed container modelId))
  | .adopt now endpoint modelId, s => some (s.commit (s.db.adopt now endpoint modelId))
  | .failStuck modelId, s => some (s.commit
    (s.db.failLoad "LOAD_INTERRUPTED" "The load was interrupted; retry." [] modelId))
  | .requeueUnload due modelId, s => some (s.setDb (s.db.enqueueUnload due modelId))

end Gateway

def gateway (settings : GatewaySettings) : Machine Gateway GatewayAction :=
  ⟨Gateway.step settings⟩

end Crewquarters
