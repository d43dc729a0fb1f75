import Crewquarters.Operations

/-!
# Workers, runtime and leaders around the database

The system the run service is part of: workers that claim jobs and run their handlers step by step
(`Pc` says what a handler does next), the runtime and its containers, the reconciler, and the model
gateway's leader, which takes expired leases back too. A handler's transactions and its runtime
calls are separate steps, so everything else may happen between them; a worker may die at any step,
a call may raise, and a lease may run out under a handler that goes on.
-/

namespace Crewquarters

inductive Pc where
  /-- its first transaction or read -/
  | start
  /-- `handle_dispatch`: `start_run` -/
  | startRun (spec : RunSpec)
  /-- `handle_dispatch`: the second transaction -/
  | record (spec : RunSpec)
  /-- `handle_dispatch`: stop the new container -/
  | stopNow (ref : RuntimeRef)
  /-- `handle_cancel`: stop the container it read -/
  | cancelStop (runId : RunId) (ref : RuntimeRef)
  /-- `handle_cancel`: its transaction -/
  | cancelFinish (runId : RunId) (ref : Option RuntimeRef)
  /-- `handle_stop`: stop the container it read -/
  | stopRun (ref : RuntimeRef)
  /-- it returned: `jobs.complete` -/
  | returned
  /-- it raised: `_fail` -/
  | raised (retryable : Bool)
deriving DecidableEq

structure Handler where
  id : ℕ
  worker : WorkerId
  job : Job
  pc : Pc
deriving DecidableEq

structure Container where
  ref : RuntimeRef
  token : CapabilityClaims
deriving DecidableEq

inductive RuntimeCall where
  | created (ref : RuntimeRef)
  | stopped (ref : RuntimeRef)
deriving DecidableEq

structure System where
  db : Db
  handlers : List Handler
  nextHandler : ℕ
  containers : List Container
  calls : List RuntimeCall

namespace System

def init : System := ⟨Db.empty, [], 0, [], []⟩

def getHandler (id : ℕ) (s : System) : Option Handler := Table.get Handler.id id s.handlers

/-- The handler goes on to `pc`. -/
def goto (h : Handler) (pc : Pc) (s : System) : System :=
  { s with handlers := Table.put Handler.id { h with pc } s.handlers }

def drop (h : Handler) (s : System) : System :=
  { s with handlers := s.handlers.filter fun k => k.id ≠ h.id }

def setJobs (jobs : JobTable) (s : System) : System := { s with db := { s.db with jobs } }

def hasContainer (ref : RuntimeRef) (s : System) : Bool := s.containers.any fun c => c.ref = ref

/-- `start_run`, idempotent on `(run_id, attempt)`. -/
def startContainer (spec : RunSpec) (s : System) : System :=
  if s.hasContainer spec.ref then s
  else { s with
    containers := s.containers ++ [⟨spec.ref, spec.token⟩]
    calls := s.calls ++ [.created spec.ref] }

def removeContainer (ref : RuntimeRef) (s : System) : System :=
  { s with containers := s.containers.filter fun c => c.ref ≠ ref }

/-- `stop_run`. -/
def stopContainer (ref : RuntimeRef) (s : System) : System :=
  { s.removeContainer ref with calls := s.calls ++ [.stopped ref] }

/-! ## The job handlers -/

/-- `handle_dispatch`, first transaction. -/
def prepare (settings : Settings) (catalog : Catalog) (clk : Clock) (h : Handler) (runId : RunId)
    (attempt : ℕ) (s : System) : System :=
  match s.db.withRun runId (dispatchPrepare settings catalog clk attempt) with
  | .error e => s.goto h (.raised e.retryable)
  | .ok (none, db) => { s with db }.goto h .returned
  | .ok (some spec, db) => { s with db }.goto h (.startRun spec)

/-- `handle_dispatch`, second transaction. -/
def record (settings : Settings) (clk : Clock) (h : Handler) (spec : RunSpec) (s : System) :
    System :=
  match s.db.withRun spec.runId (dispatchRecord settings clk spec.attempt spec.ref) with
  | .error e => s.goto h (.raised e.retryable)
  | .ok (stopNow, db) => { s with db }.goto h (if stopNow then .stopNow spec.ref else .returned)

/-- `handle_cancel`, its read. -/
def readCancel (h : Handler) (runId : RunId) (s : System) : System :=
  match (s.db.getRun runId).bind cancelRead with
  | none => s.goto h .returned
  | some none => s.goto h (.cancelFinish runId none)
  | some (some ref) => s.goto h (.cancelStop runId ref)

/-- `handle_cancel`, its transaction. A container recorded since the read is stopped while the
row is locked. -/
def finishCancel (clk : Clock) (h : Handler) (runId : RunId) (ref : Option RuntimeRef)
    (s : System) : System :=
  match s.db.withRun runId (cancelFinish clk ref) with
  | .error e => s.goto h (.raised e.retryable)
  | .ok (none, db) => { s with db }.goto h .returned
  | .ok (some late, db) => ({ s with db }.stopContainer late).goto h .returned

/-- `handle_stop`, its read. -/
def readStop (h : Handler) (runId : RunId) (attempt : ℕ) (s : System) : System :=
  match (s.db.getRun runId).bind (stopRead attempt) with
  | none => s.goto h .returned
  | some ref => s.goto h (.stopRun ref)

/-- The first step of the handler of the job's type; a payload without the keys it reads is a
`KeyError`. -/
def begin (settings : Settings) (catalog : Catalog) (clk : Clock) (h : Handler) (s : System) :
    System :=
  match h.job.type, h.job.payload with
  | .runDispatch, ⟨some runId, some attempt, _⟩ =>
    s.prepare settings catalog clk h runId attempt
  | .runCancel, ⟨some runId, _, _⟩ => s.readCancel h runId
  | .runStop, ⟨some runId, some attempt, _⟩ => s.readStop h runId attempt
  | _, _ => s.goto h (.raised true)

/-- `Worker._fail`, in one transaction. -/
def failJob (clk : Clock) (random : ℚ) (h : Handler) (retryable : Bool) (db : Db) :
    Except JobError Db :=
  match db.jobs.fail h.job.id h.worker retryable random (clk 0), h.job.payload.runId with
  | (some .dead, jobs), some runId =>
    { db with jobs }.onRun runId fun s =>
      raising (onDeadJob (fun i => clk (i + 1)) h.job.type h.job.payload s)
  | (_, jobs), _ => .ok { db with jobs }

def advance (settings : Settings) (catalog : Catalog) (clk : Clock) (random : ℚ) (h : Handler)
    (s : System) : System :=
  match h.pc with
  | .start => s.begin settings catalog clk h
  | .startRun spec => (s.startContainer spec).goto h (.record spec)
  | .record spec => s.record settings clk h spec
  | .stopNow ref => (s.stopContainer ref).goto h .returned
  | .cancelStop runId ref => (s.stopContainer ref).goto h (.cancelFinish runId (some ref))
  | .cancelFinish runId ref => s.finishCancel clk h runId ref
  | .stopRun ref => (s.stopContainer ref).goto h .returned
  | .returned => (s.setJobs (s.db.jobs.complete h.job.id h.worker (clk 0)).2).drop h
  | .raised retryable => match failJob clk random h retryable s.db with
    | .ok db => { s with db }.drop h
    | .error _ => s.drop h

/-- The handler's next call raises. `start_run` may have created the container before it did. -/
def raise (created : Bool) (h : Handler) (s : System) : System :=
  match h.pc with
  | .startRun spec => (if created then s.startContainer spec else s).goto h (.raised true)
  | .returned => s.drop h
  | .raised _ => s.drop h
  | _ => s.goto h (.raised true)

def handledTypes : List JobType := [.runDispatch, .runCancel, .runStop]

/-- `Worker.claim`: a handler starts on the job, if there is one. -/
def claim (settings : Settings) (worker : WorkerId) (locked : List ℕ) (now : Time) (s : System) :
    Option System :=
  match s.db.jobs.claim worker settings.jobLeaseSeconds handledTypes locked now with
  | (none, _) => none
  | (some job, jobs) => some { s.setJobs jobs with
      handlers := s.handlers ++ [⟨s.nextHandler, worker, job, .start⟩]
      nextHandler := s.nextHandler + 1 }

end System

inductive Action where
  | client (clk : Clock) (op : ClientOp)
  | claim (worker : WorkerId) (locked : List ℕ) (now : Time)
  | advance (handler : ℕ) (catalog : Catalog) (clk : Clock) (random : ℚ)
  | raise (handler : ℕ) (created : Bool)
  | crash (handler : ℕ)
  | keepLease (handler : ℕ) (now : Time)
  | tick (clk : TickClock) (locked : List RunId)
  /-- `leader_loop` of the model gateway: the jobs that died of it are dropped -/
  | gatewayReap (now : Time)
  /-- the runtime's clean-up of an exited container -/
  | removed (ref : RuntimeRef)

namespace System

def step (G : Guards) (settings : Settings) : Action → System → Option System
  | .client clk op, s => some { s with db := s.db.commit G clk (.client op) }
  | .claim worker locked now, s => s.claim settings worker locked now
  | .advance id catalog clk random, s =>
    (s.getHandler id).map fun h => s.advance settings catalog clk random h
  | .raise id created, s => (s.getHandler id).map fun h => s.raise created h
  | .crash id, s => (s.getHandler id).map fun h => s.drop h
  | .keepLease id now, s => (s.getHandler id).map fun h =>
    s.setJobs (s.db.jobs.heartbeat h.job.id h.worker settings.jobLeaseSeconds now).2
  | .tick clk locked, s => some { s with db := s.db.commit G (fun _ => 0) (.tick clk locked) }
  | .gatewayReap now, s => some (s.setJobs (s.db.jobs.reapExpired now).2.2)
  | .removed ref, s => some (s.removeContainer ref)

end System

def system (G : Guards) (settings : Settings) : Machine System Action :=
  ⟨System.step G settings⟩

end Crewquarters
