import Crewquarters.Json
import Crewquarters.Jobs
import Crewquarters.Lib.Machine

/-!
# Keyed requests

`idempotency.py` of the model gateway: `IdempotencyStore.run` around non-streaming calls and
`claim_stream` around streams. The store lives in one process, and its code runs undisturbed
between two awaits, so a step of `keyedRequests` is what a request does from one await to the next:
it arrives, its call or its stream ends, the future it waits for is there, or it is cancelled.

A request is named by the order of its arrival, and an entry and its future by the request that
made them.
-/

namespace Crewquarters

/-- Holder type, holder id and `idempotencyKey`. -/
abbrev RequestKey := String × String × String

/-- How an awaited `call()` ended. -/
inductive CallOutcome where
  | result (value : Json)
  /-- a `FinalError` -/
  | final (e : PlatformError)
  /-- any other platform error -/
  | error (e : PlatformError)
  /-- cancelled, or any other exception -/
  | lost

def didNotComplete : PlatformError :=
  ⟨"MODEL_UNAVAILABLE", "The original request with this idempotencyKey did not complete.", 503, []⟩

namespace CallOutcome

/-- What the future is set to; `_copy` makes an equal error. -/
def settled : CallOutcome → Except PlatformError Json
  | result value => .ok value
  | final e => .error e
  | error e => .error e
  | lost => .error didNotComplete

/-- The entry stays for `ttl` seconds. -/
def kept : CallOutcome → Bool
  | result _ | final _ => true
  | error _ | lost => false

end CallOutcome

/-- `_Entry`. -/
structure KeyedEntry where
  id : ℕ
  key : RequestKey
  fingerprint : String
  streaming : Bool
  expires : Option Time
  staleAfter : Option Time

/-! ## The store -/

namespace IdempotencyStore

def usedForOther : PlatformError :=
  invalid "INVALID_REQUEST" "This idempotencyKey was already used for a different request." []

def requestInProgress : PlatformError :=
  ⟨"REQUEST_IN_PROGRESS", "A request with this idempotencyKey is running.", 409, []⟩

def get (key : RequestKey) (entries : List KeyedEntry) : Option KeyedEntry :=
  Table.get KeyedEntry.key key entries

/-- What `_evict` leaves. -/
def fresh (now : Time) (e : KeyedEntry) : Bool :=
  !((e.expires.any fun u => u ≤ now) || e.staleAfter.any fun u => u ≤ now)

def evict (now : Time) (entries : List KeyedEntry) : List KeyedEntry := entries.filter (fresh now)

/-- The loop of `_add` over the completed keys, oldest first. -/
def makeRoom (capacity : ℕ) : List RequestKey → List KeyedEntry → List KeyedEntry
  | [], entries => entries
  | key :: completed, entries =>
    if capacity ≤ entries.length then
      makeRoom capacity completed (entries.filter fun e => e.key ≠ key)
    else entries

def completed (entries : List KeyedEntry) : List RequestKey :=
  (entries.filter fun e => e.expires.isSome).map KeyedEntry.key

/-- `_add`; `self.max_entries` is `max(1, max_entries)`. -/
def add (maxEntries : ℕ) (entry : KeyedEntry) (entries : List KeyedEntry) : List KeyedEntry :=
  let entries := makeRoom (max 1 maxEntries) (completed entries) entries
  if (get entry.key entries).isSome then Table.put KeyedEntry.key entry entries
  else entries ++ [entry]

/-- `_existing`, after its `_evict`. -/
def existing (key : RequestKey) (print : String) (entries : List KeyedEntry) :
    Except PlatformError (Option KeyedEntry) :=
  match get key entries with
  | none => .ok none
  | some entry =>
    if entry.fingerprint ≠ print then .error usedForOther
    else if entry.streaming then .error requestInProgress
    else .ok (some entry)

/-- `if self._entries.get(key) is entry: del self._entries[key]`. -/
def forget (key : RequestKey) (id : ℕ) (entries : List KeyedEntry) : List KeyedEntry :=
  match get key entries with
  | none => entries
  | some entry => if entry.id = id then entries.filter fun e => e.key ≠ key else entries

/-- `entry.expires = expires`. -/
def complete (id : ℕ) (expires : Time) (entries : List KeyedEntry) : List KeyedEntry :=
  entries.map fun e => if e.id = id then { e with expires := some expires } else e

end IdempotencyStore

/-! ## Requests -/

inductive KeyedEnd where
  /-- its own call ended -/
  | returned (outcome : CallOutcome)
  /-- it got what the future of `leader` was set to -/
  | replayed (leader : ℕ) (answer : Except PlatformError Json)
  /-- it was cancelled while it waited -/
  | cancelled
  | refused (e : PlatformError)
  /-- its stream ended -/
  | streamed
  /-- its stream was dropped and the cleanup never ran -/
  | abandoned

inductive KeyedPhase where
  /-- it awaits its own call -/
  | calling
  /-- it awaits the future of `leader` -/
  | waiting (leader : ℕ)
  /-- its stream is prepared and sent; it `holds` the key unless a completed entry was stored -/
  | streaming (holds : Bool)
  | ended (how : KeyedEnd)

namespace KeyedPhase

def isCalling : KeyedPhase → Bool
  | calling => true
  | waiting _ | streaming _ | ended _ => false

def isStreaming : KeyedPhase → Bool
  | streaming _ => true
  | calling | waiting _ | ended _ => false

def executing (phase : KeyedPhase) : Bool := phase.isCalling || phase.isStreaming

end KeyedPhase

/-- A request; `print` is the fingerprint of its body and `future` what its future was set to. -/
structure KeyedRequest where
  id : ℕ
  key : RequestKey
  print : String
  phase : KeyedPhase
  future : Option (Except PlatformError Json)

/-- Calls that began and ended, streams that began, and completed entries deleted to make room. -/
inductive KeyedEvent where
  | invoked (id : ℕ) (key : RequestKey) (time : Time)
  | ended (id : ℕ) (key : RequestKey) (outcome : CallOutcome) (time : Time)
  | streamed (id : ℕ) (key : RequestKey) (time : Time)
  | dropped (id : ℕ) (key : RequestKey)

/-- The store and its requests; `log` has the newest event first. -/
structure Keyed where
  clock : Time
  entries : List KeyedEntry
  requests : List KeyedRequest
  log : List KeyedEvent

inductive KeyedAction where
  | advance (now : Time)
  /-- `run(key, body, call)` begins -/
  | run (key : RequestKey) (print : String)
  /-- the awaited `call()` ends -/
  | finish (id : ℕ) (outcome : CallOutcome)
  /-- the awaited future is done -/
  | wake (id : ℕ)
  | cancel (id : ℕ)
  /-- `claim_stream(key, body)` is entered -/
  | stream (key : RequestKey) (print : String)
  /-- and left -/
  | endStream (id : ℕ)
  /-- or its generator is dropped before it ran -/
  | abandon (id : ℕ)

namespace Keyed

def empty : Keyed := ⟨0, [], [], []⟩

def getRequest (id : ℕ) (s : Keyed) : Option KeyedRequest := Table.get KeyedRequest.id id s.requests

def setRequest (r : KeyedRequest) (s : Keyed) : Keyed :=
  { s with requests := Table.put KeyedRequest.id r s.requests }

def arrive (key : RequestKey) (print : String) (phase : KeyedPhase) (s : Keyed) : Keyed :=
  { s with requests := s.requests ++ [⟨s.requests.length, key, print, phase, none⟩] }

def evict (s : Keyed) : Keyed := { s with entries := IdempotencyStore.evict s.clock s.entries }

/-- The entries that `_add` deletes. -/
def drops (maxEntries : ℕ) (entries : List KeyedEntry) : List KeyedEvent :=
  let room := IdempotencyStore.makeRoom (max 1 maxEntries) (IdempotencyStore.completed entries)
    entries
  (entries.filter fun e => (IdempotencyStore.get e.key room).isNone).map
    fun e => .dropped e.id e.key

/-- `_add` of an entry for the request that arrives. -/
def add (maxEntries : ℕ) (key : RequestKey) (print : String) (streaming : Bool)
    (staleAfter : Option Time) (s : Keyed) : Keyed :=
  { s with
    entries := IdempotencyStore.add maxEntries
      ⟨s.requests.length, key, print, streaming, none, staleAfter⟩ s.entries
    log := drops maxEntries s.entries ++ s.log }

def note (event : KeyedEvent) (s : Keyed) : Keyed := { s with log := event :: s.log }

/-- `run`, until its first await. -/
def run (maxEntries : ℕ) (key : RequestKey) (print : String) (s : Keyed) : Keyed :=
  match IdempotencyStore.existing key print s.evict.entries with
  | .error e => s.evict.arrive key print (.ended (.refused e))
  | .ok (some entry) => s.evict.arrive key print (.waiting entry.id)
  | .ok none =>
    ((s.evict.add maxEntries key print false none).note
      (.invoked s.requests.length key s.clock)).arrive key print .calling

/-- The rest of `run`, after `await call()`. -/
def finish (ttl : ℚ) (r : KeyedRequest) (outcome : CallOutcome) (s : Keyed) : Keyed :=
  ({ s with
    entries := if outcome.kept then IdempotencyStore.complete r.id (s.clock + ttl) s.entries
      else IdempotencyStore.forget r.key r.id s.entries }.note
    (.ended r.id r.key outcome s.clock)).setRequest
      { r with phase := .ended (.returned outcome), future := some outcome.settled }

/-- `claim_stream`, until its `yield`. -/
def stream (ttl : ℚ) (maxEntries : ℕ) (key : RequestKey) (print : String) (s : Keyed) : Keyed :=
  let began := fun s : Keyed => s.note (.streamed s.requests.length key s.clock)
  match IdempotencyStore.get key s.evict.entries with
  | none =>
    (began (s.evict.add maxEntries key print true (some (s.clock + ttl)))).arrive key print
      (.streaming true)
  | some existing =>
    if existing.expires.isNone then
      s.evict.arrive key print (.ended (.refused IdempotencyStore.requestInProgress))
    else (began s.evict).arrive key print (.streaming false)

/-- Its `finally`, if it holds the key. -/
def endStream (r : KeyedRequest) (holds : Bool) (s : Keyed) : Keyed :=
  { s with entries := if holds then IdempotencyStore.forget r.key r.id s.entries else s.entries
    }.setRequest { r with phase := .ended .streamed }

def step (ttl : ℚ) (maxEntries : ℕ) : KeyedAction → Keyed → Option Keyed
  | .advance now, s => if s.clock ≤ now then some { s with clock := now } else none
  | .run key print, s => some (s.run maxEntries key print)
  | .finish id outcome, s => (s.getRequest id).bind fun r => match r.phase with
    | .calling => some (s.finish ttl r outcome)
    | _ => none
  | .wake id, s => (s.getRequest id).bind fun r => match r.phase with
    | .waiting leader => ((s.getRequest leader).bind KeyedRequest.future).map fun answer =>
      s.setRequest { r with phase := .ended (.replayed leader answer) }
    | _ => none
  | .cancel id, s => (s.getRequest id).bind fun r => match r.phase with
    | .waiting _ => some (s.setRequest { r with phase := .ended .cancelled })
    | _ => none
  | .stream key print, s => some (s.stream ttl maxEntries key print)
  | .endStream id, s => (s.getRequest id).bind fun r => match r.phase with
    | .streaming holds => some (s.endStream r holds)
    | _ => none
  | .abandon id, s => (s.getRequest id).bind fun r => match r.phase with
    | .streaming _ => some (s.setRequest { r with phase := .ended .abandoned })
    | _ => none

end Keyed

def keyedRequests (ttl : ℚ) (maxEntries : ℕ) : Machine Keyed KeyedAction :=
  ⟨Keyed.step ttl maxEntries⟩

end Crewquarters
