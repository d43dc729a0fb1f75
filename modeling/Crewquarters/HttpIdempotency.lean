import Crewquarters.Json
import Crewquarters.Lib.Machine
import Crewquarters.Lib.Table

/-!
# Idempotency keys of the control API

`idempotency.py`: `begin` inserts a record of the key in the transaction of the request, or finds
the one there is; `finish` stores the response in it and commits, the handler's changes with it. The
requests are those of one user, with a key, and their handlers change the database only
(`HttpIdempotency.data`) and commit in `finish`. A request that fails or crashes is rolled back,
unless it had committed. An insert of a key waits for the transaction that has inserted it.
-/

namespace Crewquarters

/-- A mutating request: what `begin` reads of it, and the fingerprint the handler passes. -/
structure MutatingRequest (φ : Type*) where
  method : String
  path : String
  key : String
  fingerprint : φ
deriving DecidableEq

/-- `sha256` of the JSON text of method, path and fingerprint, taken as free of collisions. -/
structure RequestDigest (φ δ : Type*) where
  hash : String → String → φ → δ
  collisionFree : ∀ {m p f m' p' f'}, hash m p f = hash m' p' f' → m = m' ∧ p = p' ∧ f = f'

/-- A row of `idempotency_records`. -/
structure IdempotencyRecord (δ : Type*) where
  key : String
  method : String
  path : String
  requestHash : δ
  statusCode : Option ℕ
  responseBody : Option Json

/-- What the client gets; `replayed` is the header `Idempotent-Replayed`. -/
inductive HttpReply where
  | response (statusCode : ℕ) (body : Option Json) (replayed : Bool)
  | error (e : PlatformError)

def HttpReply.ofStored (statusCode : ℕ) (stored : Option Json) (replayed : Bool) : HttpReply :=
  if statusCode = 204 then .response 204 none replayed
  else .response statusCode (some (Json.ofOption stored)) replayed

inductive RequestPhase (δ : Type*) where
  | started
  /-- `ON CONFLICT DO NOTHING` gave no id -/
  | conflicted
  /-- has inserted its record and works in its transaction -/
  | working (record : IdempotencyRecord δ)
  /-- `finish` has committed -/
  | committed (reply : HttpReply)
  | answered (reply : HttpReply)
  /-- rolled back, crashed or disconnected -/
  | failed

structure HandledRequest (φ δ : Type*) extends MutatingRequest φ where
  phase : RequestPhase δ

def HandledRequest.inserted {φ δ : Type*} (key : String) (r : HandledRequest φ δ) : Bool :=
  match r.phase with
  | .working _ => r.key = key
  | _ => false

/-- A commit of `finish`: which request, what it answered and what it changed. -/
structure Effect (φ σ : Type*) where
  n : ℕ
  request : MutatingRequest φ
  statusCode : ℕ
  body : Option Json
  change : σ → σ

structure HttpIdempotency (φ δ σ : Type*) where
  data : σ
  records : List (IdempotencyRecord δ)
  requests : List (HandledRequest φ δ)
  effects : List (Effect φ σ)

inductive RequestAction (φ σ : Type*) where
  | arrive (request : MutatingRequest φ)
  /-- `INSERT .. ON CONFLICT DO NOTHING` of `begin` -/
  | insert (n : ℕ)
  /-- the rest of `begin` after a conflict -/
  | select (n : ℕ)
  /-- the handler's changes, and `finish` -/
  | finish (n : ℕ) (statusCode : ℕ) (body : Json) (change : σ → σ)
  /-- the response of a committed request is sent -/
  | answer (n : ℕ)
  | fail (n : ℕ)

def invalidIdempotencyKey : PlatformError :=
  invalid "INVALID_IDEMPOTENCY_KEY" "Idempotency-Key must be 8-200 characters." []

def idempotencyKeyReused : PlatformError :=
  conflict "IDEMPOTENCY_KEY_REUSED" "This Idempotency-Key was used for a different request." []

def requestInProgress : PlatformError :=
  conflict "REQUEST_IN_PROGRESS" "The original request is still being processed." []

def MutatingRequest.validKey {φ : Type*} (r : MutatingRequest φ) : Bool :=
  8 ≤ r.key.length && r.key.length ≤ 200

namespace HttpIdempotency

variable {φ δ σ : Type*} (D : RequestDigest φ δ)

def start (data : σ) : HttpIdempotency φ δ σ := ⟨data, [], [], []⟩

def getRecord (key : String) (s : HttpIdempotency φ δ σ) : Option (IdempotencyRecord δ) :=
  Table.get IdempotencyRecord.key key s.records

def goto (n : ℕ) (r : MutatingRequest φ) (phase : RequestPhase δ) (s : HttpIdempotency φ δ σ) :
    HttpIdempotency φ δ σ :=
  { s with requests := s.requests.set n ⟨r, phase⟩ }

/-- The row `begin` inserts. -/
def newRecord (r : MutatingRequest φ) : IdempotencyRecord δ :=
  { key := r.key
    method := r.method
    path := r.path
    requestHash := D.hash r.method r.path r.fingerprint
    statusCode := none
    responseBody := none }

/-- The body `finish` stores. -/
def encoded (statusCode : ℕ) (body : Json) : Option Json :=
  if statusCode = 204 then none else some body

def finish (n statusCode : ℕ) (body : Json) (change : σ → σ) (r : HandledRequest φ δ)
    (record : IdempotencyRecord δ) (s : HttpIdempotency φ δ σ) : HttpIdempotency φ δ σ :=
  let stored := encoded statusCode body
  { data := change s.data
    records := s.records ++
      [{ record with statusCode := some statusCode, responseBody := stored }]
    requests := s.requests.set n
      ⟨r.toMutatingRequest, .committed (.ofStored statusCode stored false)⟩
    effects := s.effects ++ [⟨n, r.toMutatingRequest, statusCode, stored, change⟩] }

variable [DecidableEq δ]

/-- What `begin` says to a request whose key has a record. -/
def found (r : MutatingRequest φ) (existing : IdempotencyRecord δ) : HttpReply :=
  if existing.requestHash ≠ D.hash r.method r.path r.fingerprint then .error idempotencyKeyReused
  else match existing.statusCode with
    | none => .error requestInProgress
    | some statusCode => .ofStored statusCode existing.responseBody true

def insert (n : ℕ) (r : HandledRequest φ δ) (s : HttpIdempotency φ δ σ) :
    Option (HttpIdempotency φ δ σ) :=
  if !r.validKey then some (s.goto n r.toMutatingRequest (.answered (.error invalidIdempotencyKey)))
  else if s.requests.any (·.inserted r.key) then none
  else match s.getRecord r.key with
    | some _ => some (s.goto n r.toMutatingRequest .conflicted)
    | none => some (s.goto n r.toMutatingRequest (.working (newRecord D r.toMutatingRequest)))

def select (n : ℕ) (r : HandledRequest φ δ) (s : HttpIdempotency φ δ σ) : HttpIdempotency φ δ σ :=
  match s.getRecord r.key with
  -- the assertion fails
  | none => s.goto n r.toMutatingRequest .failed
  | some existing => s.goto n r.toMutatingRequest (.answered (found D r.toMutatingRequest existing))

def step : RequestAction φ σ → HttpIdempotency φ δ σ → Option (HttpIdempotency φ δ σ)
  | .arrive request, s => some { s with requests := s.requests ++ [⟨request, .started⟩] }
  | .insert n, s => (s.requests[n]?).bind fun r => match r.phase with
    | .started => s.insert D n r
    | _ => none
  | .select n, s => (s.requests[n]?).bind fun r => match r.phase with
    | .conflicted => some (s.select D n r)
    | _ => none
  | .finish n statusCode body change, s => (s.requests[n]?).bind fun r => match r.phase with
    | .working record => some (s.finish n statusCode body change r record)
    | _ => none
  | .answer n, s => (s.requests[n]?).bind fun r => match r.phase with
    | .committed reply => some (s.goto n r.toMutatingRequest (.answered reply))
    | _ => none
  | .fail n, s => (s.requests[n]?).bind fun r => match r.phase with
    | .answered _ => none
    | _ => some (s.goto n r.toMutatingRequest .failed)

def machine : Machine (HttpIdempotency φ δ σ) (RequestAction φ σ) := ⟨step D⟩

end HttpIdempotency

end Crewquarters
