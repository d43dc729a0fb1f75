import Crewquarters.Database

/-!
# The reconciler

`scheduler/reconciler.py`: one tick, in one transaction. It takes expired leases back, settles the
runs of the jobs that died of it, and enforces the time limits of the runs that are active. Runs
whose row another transaction holds (`locked`) are passed over.
-/

namespace Crewquarters

def heartbeatLost : String :=
  "The agent stopped responding (container exit or platform restart)."

def RunData.heartbeatExpired (now : Time) (d : RunData) : Bool :=
  (d.getAttempt d.run.currentAttempt).any fun a => a.heartbeatExpiresAt.any fun u => u < now

def watchActive (clk : Clock) (now : Time) (s : Session) : Except PlatformError Session :=
  let limit := s.run.activeTimeoutSeconds
  if s.run.state ∈ RunState.activeClockStates ∧ limit < activeSeconds s.run now then
    failRun clk "ACTIVE_TIMEOUT" s!"The run exceeded its {limit}s active-time limit." false false
      [] s
  else if s.heartbeatExpired now then
    failRun clk "HEARTBEAT_LOST" heartbeatLost true true [] s
  else .ok s

def watch (clk : Clock) (now : Time) (s : Session) : Except PlatformError Session :=
  let limit := s.run.maxInputWaitSeconds
  if s.run.state ≠ .waitingInput then watchActive clk now s
  else if limit < waitSeconds s.run now then
    failRun clk "INPUT_TIMEOUT" s!"The run waited longer than {limit}s for input." false false [] s
  else do
    let (expired, s) ← expireInputs clk now s
    if expired ≠ 0 then .ok s
    else watchActive (fun i => clk (i + 1)) now s

/-- `on_dead_job` with `wait_for_lock=False`. -/
def settleUnlocked (clk : ℕ → Clock) (locked : List RunId) (db : Db) (job : Job) :
    Except JobError Db :=
  match job.payload.runId.filter (· ∉ locked) with
  | none => .ok db
  | some id => match db.getRun id with
    | none => .ok db
    | some d => do
      let s ← raising (onDeadJob (clk job.id) job.type job.payload (db.session d))
      .ok (db.store s)

/-- The runs the tick locks, longest in their state first. -/
def watchedRuns (locked : List RunId) (db : Db) : List RunId :=
  let runs := db.runs.filter fun d => d.run.state ∈ RunState.watchedStates && d.id ∉ locked
  ((runs.insertionSort fun a b => a.run.stateEnteredAt ≤ b.run.stateEnteredAt).take 500).map
    RunData.id

def watchRun (clk : RunId → Clock) (now : Time) (db : Db) (id : RunId) : Except JobError Db := do
  let (_, db) ← db.withRun id fun s => do
    let s ← raising (watch (clk id) now s)
    .ok ((), s)
  .ok db

/-- The clock's readings in a tick: the database's `now()`, the caller's `now`, and those of the
calls it makes for each dead job and each run. -/
structure TickClock where
  reap : Time
  now : Time
  dead : ℕ → Clock
  watch : RunId → Clock

def tick (clk : TickClock) (locked : List RunId) (db : Db) : Except JobError Db := do
  let (_, dead, jobs) := db.jobs.reapExpired clk.reap
  let db ← dead.foldlM (settleUnlocked clk.dead locked) { db with jobs }
  (watchedRuns locked db).foldlM (watchRun clk.watch clk.now) db

end Crewquarters
