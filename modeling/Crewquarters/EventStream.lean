import Crewquarters.Operations

/-!
# The stream of a run's events

`_event_stream` polls: it reads the run's state, then a page of the events after its cursor, each
in a session of its own, sends the events one by one, and ends when the page is empty and the state
it read is terminal. A client that lost the connection comes back with the last id it received.
Transactions commit at any time in between; `db` is the newest snapshot a query has seen.
-/

namespace Crewquarters

def Db.eventsOf (id : RunId) (db : Db) : List RunEvent :=
  match db.getRun id with
  | none => []
  | some d => d.events

/-- Where `_event_stream` is in its loop. With the state that was read goes, for the record, the log
as it was then. -/
inductive Poll where
  | idle
  | stateRead (state : Option RunState) (log : List RunEvent)
  | sending (page : List RunEvent)
  | ended (state : RunState) (log : List RunEvent)

/-- One `_event_stream`, and for the record where it was started and what it sent. -/
structure EventStream where
  cursor : ℤ
  poll : Poll
  start : ℤ
  sent : List RunEvent

namespace EventStream

/-- `limit(200)`. -/
def pageSize : ℕ := 200

def opened (cursor : ℤ) : EventStream := ⟨cursor, .idle, cursor, []⟩

/-- `select(AgentRun.state)`. -/
def readState (id : RunId) (db : Db) (s : EventStream) : Option EventStream :=
  match s.poll with
  | .idle =>
    some { s with poll := .stateRead ((db.getRun id).map fun d => d.run.state) (db.eventsOf id) }
  | _ => none

/-- `select(RunEvent).where(.., sequence > cursor).order_by(sequence).limit(200)`. -/
def page (id : RunId) (cursor : ℤ) (db : Db) : List RunEvent :=
  (((db.eventsOf id).filter fun e => cursor < e.sequence).insertionSort
    fun a b => a.sequence ≤ b.sequence).take pageSize

/-- The page, and `end` if it is empty and the run is over. -/
def readPage (id : RunId) (db : Db) (s : EventStream) : Option EventStream :=
  match s.poll with
  | .stateRead state log =>
    match page id s.cursor db, state with
    | event :: events, _ => some { s with poll := .sending (event :: events) }
    | [], some state =>
      if state ∈ RunState.terminalStates then some { s with poll := .ended state log }
      else some { s with poll := .idle }
    | [], none => some { s with poll := .idle }
  | _ => none

def send (s : EventStream) : Option EventStream :=
  match s.poll with
  | .sending (event :: events) =>
    some { s with
      cursor := event.sequence
      poll := if events.isEmpty then .idle else .sending events
      sent := s.sent ++ [event] }
  | _ => none

end EventStream

/-- The database, the client's present stream, how many of its events the client has received, and
what it received from earlier streams. -/
structure Streaming where
  db : Db
  stream : EventStream
  delivered : ℕ
  earlier : List RunEvent

namespace Streaming

def connect (cursor : ℤ) (db : Db) : Streaming := ⟨db, .opened cursor, 0, []⟩

def received (s : Streaming) : List RunEvent := s.earlier ++ s.stream.sent.take s.delivered

/-- `Last-Event-ID`: the last id received, or where the client started. -/
def lastEventId (s : Streaming) : ℤ :=
  match (s.stream.sent.take s.delivered).getLast? with
  | none => s.stream.start
  | some event => event.sequence

end Streaming

inductive StreamAct where
  | commit (clk : Clock) (op : DbOp)
  | readState
  | readPage
  | send
  | receive
  | reconnect

/-- A client that follows run `id` while transactions commit. -/
def streamMachine (G : Guards) (id : RunId) : Machine Streaming StreamAct where
  step
    | .commit clk op, s => some { s with db := s.db.commit G clk op }
    | .readState, s => (s.stream.readState id s.db).map fun stream => { s with stream }
    | .readPage, s => (s.stream.readPage id s.db).map fun stream => { s with stream }
    | .send, s => s.stream.send.map fun stream => { s with stream }
    | .receive, s =>
      if s.delivered < s.stream.sent.length then some { s with delivered := s.delivered + 1 }
      else none
    | .reconnect, s =>
      some { s with stream := .opened s.lastEventId, delivered := 0, earlier := s.received }

end Crewquarters
