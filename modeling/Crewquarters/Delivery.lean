import Crewquarters.Rows
import Crewquarters.Lib.Machine

/-!
# The agent's event buffer

`EventsClient` of the agent SDK. `_add` appends to the buffer, drops from its front what is too
much, and flushes a buffer that holds a batch. `flush` holds a lock and posts the front of the
buffer, batch by batch; the tasks of the agent run between its posts. A batch that is rejected is
sent again event by event (`_salvage`).
-/

namespace Crewquarters

/-- An event as `_add` buffers it. `uuid4` gives a new id every time: here, how many were given
before. -/
structure BufferedEvent where
  clientEventId : ℕ
  type : EventType
  occurredAt : Time
  payload : Json

/-- What comes of a post. A task that is cancelled leaves `flush` as one whose post fails with an
error that may be retried. -/
inductive PostOutcome where
  | accepted
  | retryable
  | rejected
deriving DecidableEq

/-- The post that the task with the lock waits for: of a batch, or of one event of a batch that was
rejected, with the events that come after it. -/
inductive Flushing where
  | posting (batch : List BufferedEvent)
  | salvaging (batch : List BufferedEvent) (event : BufferedEvent) (rest : List BufferedEvent)

structure EventLimits where
  maxBatch : ℕ := 50
  maxBuffer : ℕ := 1000

/-- `EventsClient`. `waiting` counts the tasks that wait for the lock. The last five fields are what
happened so far, which the client itself does not keep: the events passed to `_add`, those dropped
because the buffer was full, the posts, the posts that were accepted and the events that were
rejected on their own. -/
structure EventsClient where
  buffer : List BufferedEvent
  dropped : ℕ
  flushing : Option Flushing
  waiting : ℕ
  added : List BufferedEvent
  overflowed : List BufferedEvent
  posts : List (List BufferedEvent)
  accepted : List (List BufferedEvent)
  rejected : List BufferedEvent

namespace EventsClient

def empty : EventsClient := ⟨[], 0, none, 0, [], [], [], [], []⟩

variable (L : EventLimits)

/-- The head of the loop of `flush`: post the next batch, or release the lock. -/
def nextBatch (s : EventsClient) : EventsClient :=
  if s.buffer.isEmpty then { s with flushing := none }
  else
    let batch := s.buffer.take L.maxBatch
    { s with flushing := some (.posting batch), posts := s.posts ++ [batch] }

/-- A task calls `flush`: it takes the lock, or waits for it. -/
def flush (s : EventsClient) : EventsClient :=
  if s.flushing.isNone ∧ s.waiting = 0 then s.nextBatch L
  else { s with waiting := s.waiting + 1 }

/-- `_add` up to the flush it ends with. -/
def append (type : EventType) (occurredAt : Time) (payload : Json) (s : EventsClient) :
    EventsClient :=
  let event : BufferedEvent := ⟨s.added.length, type, occurredAt, payload⟩
  let buffer := s.buffer ++ [event]
  let overflow := buffer.length - L.maxBuffer
  { s with
    buffer := buffer.drop overflow
    dropped := s.dropped + overflow
    added := s.added ++ [event]
    overflowed := s.overflowed ++ buffer.take overflow }

def add (type : EventType) (occurredAt : Time) (payload : Json) (s : EventsClient) :
    EventsClient :=
  let s := s.append L type occurredAt payload
  if L.maxBatch ≤ s.buffer.length then s.flush L else s

/-- `del self._buffer[: len(batch)]` and on to the next batch. -/
def finishBatch (batch : List BufferedEvent) (s : EventsClient) : EventsClient :=
  { s with buffer := s.buffer.drop batch.length }.nextBatch L

/-- The loop of `_salvage`, before the events `rest` of the batch. -/
def salvageNext (batch rest : List BufferedEvent) (s : EventsClient) : EventsClient :=
  match rest with
  | [] => s.finishBatch L batch
  | event :: rest =>
    { s with flushing := some (.salvaging batch event rest), posts := s.posts ++ [[event]] }

/-- `_salvage`: a batch of one was rejected on its own. -/
def salvage (batch : List BufferedEvent) (s : EventsClient) : EventsClient :=
  if batch.length = 1 then { s with rejected := s.rejected ++ batch }.finishBatch L batch
  else s.salvageNext L batch batch

def answer (outcome : PostOutcome) (s : EventsClient) : Option EventsClient :=
  match s.flushing, outcome with
  | none, _ => none
  | some _, .retryable => some { s with flushing := none }
  | some (.posting batch), .accepted =>
    some ({ s with accepted := s.accepted ++ [batch] }.finishBatch L batch)
  | some (.posting batch), .rejected => some (s.salvage L batch)
  | some (.salvaging batch event rest), .accepted =>
    some ({ s with accepted := s.accepted ++ [[event]] }.salvageNext L batch rest)
  | some (.salvaging batch event rest), .rejected =>
    some ({ s with rejected := s.rejected ++ [event] }.salvageNext L batch rest)

def wake (s : EventsClient) : Option EventsClient :=
  if s.flushing.isNone ∧ 0 < s.waiting then some ({ s with waiting := s.waiting - 1 }.nextBatch L)
  else none

def cancelWait (s : EventsClient) : Option EventsClient :=
  if 0 < s.waiting then some { s with waiting := s.waiting - 1 } else none

end EventsClient

/-- What runs between two suspensions of the agent's tasks. -/
inductive EventsAct where
  | add (type : EventType) (occurredAt : Time) (payload : Json)
  | flush
  | answer (outcome : PostOutcome)
  | wake
  | cancelWait

/-- The buffer under any interleaving of the tasks that use it. -/
def eventsMachine (L : EventLimits) : Machine EventsClient EventsAct where
  step
    | .add type occurredAt payload, s => some (s.add L type occurredAt payload)
    | .flush, s => some (s.flush L)
    | .answer outcome, s => s.answer L outcome
    | .wake, s => s.wake L
    | .cancelWait, s => s.cancelWait

end Crewquarters
