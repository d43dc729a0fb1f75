import Mathlib.Algebra.Order.Field.Rat
import Crewquarters.Lib.Table

/-!
# The job queue

`jobs.py`, the access module of the shared `jobs` table. Each function is one SQL statement, or a
row lock followed by one: `update` is `UPDATE jobs SET .. WHERE ..`, and at most one live
(available or claimed) row has a given dedupe key.
-/

namespace Crewquarters

/-- Exact seconds since the epoch, or a length of time in seconds. -/
abbrev Time := ℚ

abbrev RunId := ℕ

abbrev ModelId := String

abbrev WorkerId := String

inductive JobType where
  | runDispatch
  | runCancel
  | runStop
  | modelLoad
  | modelUnload
  | other (name : String)
deriving DecidableEq, Repr

/-- What the handlers of runs and models read of a payload. -/
structure JobPayload where
  runId : Option RunId
  attempt : Option ℕ
  modelId : Option ModelId
deriving DecidableEq, Repr

def JobPayload.ofRun (runId : RunId) (attempt : ℕ) : JobPayload :=
  ⟨some runId, some attempt, none⟩

def JobPayload.ofModel (modelId : ModelId) : JobPayload := ⟨none, none, some modelId⟩

inductive JobState where
  | available
  | claimed
  | succeeded
  | dead
  | cancelled
deriving DecidableEq, Repr

/-- The dedupe keys of runs and models: `run:{id}:attempt:{n}`, `run:{id}:cancel:{n}`,
`run:{id}:stop:{n}`, `model:{id}:load` and `model:{id}:unload`. -/
inductive DedupeKey where
  | attempt (runId : RunId) (attempt : ℕ)
  | cancel (runId : RunId) (attempt : ℕ)
  | stop (runId : RunId) (attempt : ℕ)
  | load (modelId : ModelId)
  | unload (modelId : ModelId)
  | other (key : String)
deriving DecidableEq, Repr

structure Job where
  id : ℕ
  type : JobType
  payload : JobPayload
  state : JobState
  availableAt : Time
  attempts : ℕ
  maxAttempts : ℕ
  leaseOwner : Option WorkerId
  leaseUntil : Option Time
  dedupeKey : Option DedupeKey
  finishedAt : Option Time
deriving DecidableEq

def Job.fresh (id : ℕ) (type : JobType) (payload : JobPayload) (dedupeKey : Option DedupeKey)
    (availableAt : Time) (maxAttempts : ℕ) : Job :=
  { id, type, payload, dedupeKey, availableAt, maxAttempts
    state := .available
    attempts := 0
    leaseOwner := none
    leaseUntil := none
    finishedAt := none }

/-- Rows in insertion order and the next value of the id sequence. -/
structure JobTable where
  rows : List Job
  nextId : ℕ

/-- The states of the unique index on `dedupe_key`. -/
def Job.live (j : Job) : Bool := j.state = .available || j.state = .claimed

/-- `ORDER BY available_at, id`. -/
def Job.before (a b : Job) : Bool :=
  a.availableAt < b.availableAt || (a.availableAt = b.availableAt && a.id < b.id)

namespace JobTable

/-- `UPDATE jobs SET f WHERE p`. -/
def update (p : Job → Bool) (f : Job → Job) (t : JobTable) : JobTable :=
  { t with rows := t.rows.map fun j => if p j then f j else j }

def hasLive (key : DedupeKey) (t : JobTable) : Bool :=
  t.rows.any fun j => j.dedupeKey = some key && j.live

/-- The row that `ON CONFLICT (dedupe_key) .. DO NOTHING` would conflict with. -/
def conflicts (dedupeKey : Option DedupeKey) (t : JobTable) : Bool :=
  match dedupeKey with
  | none => false
  | some key => t.hasLive key

/-- Insert a job; `none` if a live job with the key already exists. -/
def enqueue (type : JobType) (payload : JobPayload) (dedupeKey : Option DedupeKey)
    (availableAt : Time) (maxAttempts : ℕ) (t : JobTable) : Option ℕ × JobTable :=
  if t.conflicts dedupeKey then (none, t)
  else (some t.nextId,
    { rows := t.rows ++ [Job.fresh t.nextId type payload dedupeKey availableAt maxAttempts]
      nextId := t.nextId + 1 })

def earliest : List Job → Option Job
  | [] => none
  | j :: js => match earliest js with
    | none => some j
    | some k => if k.before j then some k else some j

/-- Rows the claim may take; `locked` are those `SKIP LOCKED` passes over. -/
def claimable (types : List JobType) (locked : List ℕ) (now : Time) (j : Job) : Bool :=
  j.state = .available && j.availableAt ≤ now && (types.isEmpty || j.type ∈ types)
    && j.id ∉ locked

def lease (worker : WorkerId) (leaseSeconds : ℚ) (now : Time) (j : Job) : Job :=
  { j with
    state := .claimed
    leaseOwner := some worker
    leaseUntil := some (now + leaseSeconds)
    attempts := j.attempts + 1 }

/-- The claimed row, as `RETURNING` gives it, and the table. -/
def claim (worker : WorkerId) (leaseSeconds : ℚ) (types : List JobType) (locked : List ℕ)
    (now : Time) (t : JobTable) : Option Job × JobTable :=
  match earliest (t.rows.filter (claimable types locked now)) with
  | none => (none, t)
  | some j => (some (lease worker leaseSeconds now j),
      t.update (fun k => k.id = j.id) (lease worker leaseSeconds now))

/-- `WHERE id = :id AND state = 'claimed' AND lease_owner = :owner`. -/
def owned (id : ℕ) (worker : WorkerId) (j : Job) : Bool :=
  j.id = id && j.state = .claimed && j.leaseOwner = some worker

def heartbeat (id : ℕ) (worker : WorkerId) (leaseSeconds : ℚ) (now : Time) (t : JobTable) :
    Bool × JobTable :=
  (t.rows.any (owned id worker),
    t.update (owned id worker) fun j => { j with leaseUntil := some (now + leaseSeconds) })

def endAs (state : JobState) (now : Time) (j : Job) : Job :=
  { j with state, leaseOwner := none, leaseUntil := none, finishedAt := some now }

def complete (id : ℕ) (worker : WorkerId) (now : Time) (t : JobTable) : Bool × JobTable :=
  (t.rows.any (owned id worker), t.update (owned id worker) (endAs .succeeded now))

def backoffBaseSeconds : ℚ := 2

def backoffMaxSeconds : ℚ := 300

/-- Bounded exponential backoff, `random` in `[0, 1)`. -/
def backoffSeconds (attempts : ℕ) (random : ℚ) : ℚ :=
  let ceiling := min backoffMaxSeconds (backoffBaseSeconds * 2 ^ (attempts - 1))
  ceiling / 2 + random * ceiling / 2

def requeue (availableAt : Time) (j : Job) : Job :=
  { j with state := .available, leaseOwner := none, leaseUntil := none, availableAt }

/-- Record a failure. The new state, or `none` if this worker no longer owns the lease. -/
def fail (id : ℕ) (worker : WorkerId) (retryable : Bool) (random : ℚ) (now : Time)
    (t : JobTable) : Option JobState × JobTable :=
  match t.rows.find? (owned id worker) with
  | none => (none, t)
  | some j =>
    if retryable && j.attempts < j.maxAttempts then
      (some .available,
        t.update (fun k => k.id = id) (requeue (now + backoffSeconds j.attempts random)))
    else (some .dead, t.update (fun k => k.id = id) (endAs .dead now))

/-- `state = 'claimed' AND lease_until < now()`. -/
def expired (now : Time) (j : Job) : Bool :=
  j.state = .claimed && (j.leaseUntil.any fun u => u < now)

/-- Return expired leases to the queue: the ids requeued, the rows moved to `dead`, the table. -/
def reapExpired (now : Time) (t : JobTable) : List ℕ × List Job × JobTable :=
  let back := fun j : Job => expired now j && j.attempts < j.maxAttempts
  let spent := fun j : Job => expired now j && j.maxAttempts ≤ j.attempts
  let requeued := t.update back fun j => requeue j.availableAt j
  ((t.rows.filter back).map (·.id), (requeued.rows.filter spent).map (endAs .dead now),
    requeued.update spent (endAs .dead now))

def cancelByDedupe (key : DedupeKey) (now : Time) (t : JobTable) : ℕ × JobTable :=
  let hit := fun j : Job => j.dedupeKey = some key && j.state = .available
  ((t.rows.filter hit).length,
    t.update hit fun j => { j with state := .cancelled, finishedAt := some now })

end JobTable

end Crewquarters
