import Mathlib.Data.PNat.Basic
import Crewquarters.Jobs
import Crewquarters.Lib.Machine

/-!
# The queue and its workers

Two machines over the job table. In `jobQueue` every call of the access module may come at any
time from anybody; the two statements of `reap_expired` are two steps. In `workers` the calls come
from the loops of workers: a worker runs `worker_concurrency` loops under one worker id, and a loop
that claimed a job executes it, extends its lease and ends it before it claims another.
-/

namespace Crewquarters

namespace JobTable

/-- The first statement of `reap_expired`. -/
def reapBack (now : Time) (t : JobTable) : JobTable :=
  t.update (fun j => expired now j && j.attempts < j.maxAttempts) fun j => requeue j.availableAt j

def reapSpent (now : Time) (t : JobTable) : JobTable :=
  t.update (fun j => expired now j && j.maxAttempts ≤ j.attempts) (endAs .dead now)

example (now : Time) (t : JobTable) :
    (t.reapExpired now).2.2 = (t.reapBack now).reapSpent now := rfl

end JobTable

/-- The table, and the ids of the jobs it handed out so far. -/
structure Queue where
  table : JobTable
  handedOut : List ℕ

inductive QueueAction where
  | enqueue (type : JobType) (payload : JobPayload) (dedupeKey : Option DedupeKey)
      (availableAt : Time) (maxAttempts : ℕ+)
  | claim (worker : WorkerId) (leaseSeconds : ℚ) (types : List JobType) (locked : List ℕ)
      (now : Time)
  | heartbeat (id : ℕ) (worker : WorkerId) (leaseSeconds : ℚ) (now : Time)
  | complete (id : ℕ) (worker : WorkerId) (now : Time)
  | fail (id : ℕ) (worker : WorkerId) (retryable : Bool) (random : ℚ) (now : Time)
  | reapBack (now : Time)
  | reapSpent (now : Time)
  | cancelByDedupe (key : DedupeKey) (now : Time)

namespace Queue

def empty : Queue := ⟨⟨[], 0⟩, []⟩

def step : QueueAction → Queue → Option Queue
  | .enqueue type payload dedupeKey availableAt maxAttempts, q =>
    some { q with table := (q.table.enqueue type payload dedupeKey availableAt maxAttempts).2 }
  | .claim worker leaseSeconds types locked now, q =>
    let (job, table) := q.table.claim worker leaseSeconds types locked now
    some ⟨table, (job.map Job.id).toList ++ q.handedOut⟩
  | .heartbeat id worker leaseSeconds now, q =>
    some { q with table := (q.table.heartbeat id worker leaseSeconds now).2 }
  | .complete id worker now, q => some { q with table := (q.table.complete id worker now).2 }
  | .fail id worker retryable random now, q =>
    some { q with table := (q.table.fail id worker retryable random now).2 }
  | .reapBack now, q => some { q with table := q.table.reapBack now }
  | .reapSpent now, q => some { q with table := q.table.reapSpent now }
  | .cancelByDedupe key now, q => some { q with table := (q.table.cancelByDedupe key now).2 }

end Queue

def jobQueue : Machine Queue QueueAction := ⟨Queue.step⟩

structure LoopId where
  worker : WorkerId
  index : ℕ
deriving DecidableEq

/-- A loop and the job it executes, as `claim` returned it. -/
structure Claim where
  loop : LoopId
  job : Job

structure Workers where
  table : JobTable
  claims : List Claim

inductive WorkerAction where
  | enqueue (type : JobType) (payload : JobPayload) (dedupeKey : Option DedupeKey)
      (availableAt : Time) (maxAttempts : ℕ+)
  | claim (loop : LoopId) (leaseSeconds : ℚ) (types : List JobType) (locked : List ℕ) (now : Time)
  | heartbeat (loop : LoopId) (leaseSeconds : ℚ) (now : Time)
  | complete (loop : LoopId) (now : Time)
  | fail (loop : LoopId) (retryable : Bool) (random : ℚ) (now : Time)
  /-- the loop's process is gone -/
  | crash (loop : LoopId)
  | reapBack (now : Time)
  | reapSpent (now : Time)
  | cancelByDedupe (key : DedupeKey) (now : Time)

namespace Workers

def empty : Workers := ⟨⟨[], 0⟩, []⟩

def getClaim (loop : LoopId) (s : Workers) : Option Claim := Table.get Claim.loop loop s.claims

def drop (loop : LoopId) (s : Workers) : Workers :=
  { s with claims := s.claims.filter fun c => c.loop ≠ loop }

def setTable (table : JobTable) (s : Workers) : Workers := { s with table }

/-- `claim`, by a loop that executes no job. -/
def claim (loop : LoopId) (leaseSeconds : ℚ) (types : List JobType) (locked : List ℕ) (now : Time)
    (s : Workers) : Option Workers :=
  match s.getClaim loop with
  | some _ => none
  | none => match s.table.claim loop.worker leaseSeconds types locked now with
    | (none, table) => some (s.setTable table)
    | (some job, table) => some ⟨table, s.claims ++ [⟨loop, job⟩]⟩

def step (concurrency : ℕ) : WorkerAction → Workers → Option Workers
  | .enqueue type payload dedupeKey availableAt maxAttempts, s =>
    some (s.setTable (s.table.enqueue type payload dedupeKey availableAt maxAttempts).2)
  | .claim loop leaseSeconds types locked now, s =>
    if loop.index < concurrency then s.claim loop leaseSeconds types locked now else none
  | .heartbeat loop leaseSeconds now, s => (s.getClaim loop).map fun c =>
    s.setTable (s.table.heartbeat c.job.id loop.worker leaseSeconds now).2
  | .complete loop now, s => (s.getClaim loop).map fun c =>
    (s.setTable (s.table.complete c.job.id loop.worker now).2).drop loop
  | .fail loop retryable random now, s => (s.getClaim loop).map fun c =>
    (s.setTable (s.table.fail c.job.id loop.worker retryable random now).2).drop loop
  | .crash loop, s => some (s.drop loop)
  | .reapBack now, s => some (s.setTable (s.table.reapBack now))
  | .reapSpent now, s => some (s.setTable (s.table.reapSpent now))
  | .cancelByDedupe key now, s => some (s.setTable (s.table.cancelByDedupe key now).2)

end Workers

def workers (concurrency : ℕ) : Machine Workers WorkerAction := ⟨Workers.step concurrency⟩

end Crewquarters
