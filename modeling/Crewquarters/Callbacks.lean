import Crewquarters.Telephony

/-!
# The callbacks of a call

One row of `telephony_calls` from one transaction to the next, after its dial request was sent: what
the create request writes when Twilio answers (`_created`, `_in_doubt`, `_set`), the callbacks
Twilio sends meanwhile, and the views of the row the agent is given. A callback reads the row, takes
over its CallSid if the row has none, reads the row again, and writes what it reports in a
transaction of its own; the create request reads the row once more for its answer.
-/

namespace Crewquarters

def hexDigit (c : Char) : Bool :=
  ('0' ≤ c && c ≤ '9') || ('a' ≤ c && c ≤ 'f') || ('A' ≤ c && c ≤ 'F')

/-- `CALL_SID`; the pattern's `$` also matches before a newline at the end. -/
def callSid (sid : String) : Bool :=
  match sid.toList with
  | 'C' :: 'A' :: rest =>
    let digits := if rest.getLast? = some '\n' then rest.dropLast else rest
    digits.length = 32 && digits.all hexDigit
  | _ => false

/-- What a callback is for. The speech is stripped and cut to `MAX_TRANSCRIPT`; a missing status is
the empty text, and a missing or empty error code is `none`. -/
inductive Report where
  | voice
  | gather (speech : String)
  | status (new : CallState) (duration : Option ℕ) (errorCode : Option String)

/-- A callback whose signature was checked: its `CallSid`, its `To` and its report. -/
structure Callback where
  sid : String
  destination : String
  report : Report

def DialAnswer.accepts : DialAnswer → Bool
  | accepted _ _ => true
  | rejected | unknown => false

namespace TelephonyCall

variable (c : TelephonyCall)

def created (sid : String) (state : CallState) : TelephonyCall :=
  { c with
    providerSid := some (c.providerSid.getD sid)
    state := if c.state.advances state then state else c.state }

/-- What the create request writes when Twilio has answered or failed to. -/
def answered : DialAnswer → TelephonyCall
  | .accepted sid state => c.created sid state
  | .rejected => { c with state := .failed, errorCode := some "PROVIDER_REJECTED" }
  | .unknown => if c.providerSid.isNone then
      { c with state := .inDoubt, errorCode := some "OUTCOME_UNKNOWN" } else c

/-- The condition under which `_callback_call` calls `_adopt`. -/
def adoptable (callback : Callback) : Bool :=
  c.providerSid.isNone && (c.state = .creating || c.state = .inDoubt) && callSid callback.sid
    && (last4 callback.destination = "" || last4 callback.destination = c.destinationLast4)

def adopt (sid : String) : TelephonyCall :=
  if c.providerSid.isNone then
    { c with providerSid := some sid, state := .queued, errorCode := none } else c

def answersTo (callback : Callback) : Bool :=
  c.providerSid = some callback.sid && callback.sid ≠ ""

/-- What `gather` or `status_callback` writes. -/
def reported : Report → TelephonyCall
  | .voice => c
  | .gather speech =>
    if c.transcript.isNone && speech ≠ "" then { c with transcript := some speech } else c
  | .status new duration errorCode =>
    if c.state.advances new then { c with
      state := new
      durationSeconds := duration.or c.durationSeconds
      errorCode := if new = .failed then some (errorCode.getD "CALL_FAILED") else c.errorCode }
    else c

end TelephonyCall

inductive DeliveryPhase where
  | arrived
  /-- read a row it may give its CallSid -/
  | adopting
  /-- and has done so, unless the row had one by then -/
  | rereading
  /-- the row is the one it is for -/
  | found
  /-- its report is written -/
  | applied
  /-- answered with 404 -/
  | refused
deriving DecidableEq

structure Delivery where
  id : ℕ
  callback : Callback
  phase : DeliveryPhase

inductive CreatePhase where
  /-- the dial request is sent -/
  | sent
  /-- the row says how that went -/
  | recorded (answer : DialAnswer)
  | ended (answer : DialAnswer)
  /-- the commit failed -/
  | crashed

def CreatePhase.answer : CreatePhase → Option DialAnswer
  | sent | crashed => none
  | recorded answer | ended answer => some answer

/-- A row whose call was dialed. `applied` are the callbacks written to it and `views` what was
returned of it, both in order. -/
structure PlacedCall where
  call : TelephonyCall
  create : CreatePhase
  deliveries : List Delivery
  applied : List Callback
  views : List CallView

inductive PlacedAction where
  /-- Twilio answers the dial request; `taken` if the CallSid belongs to another call -/
  | answer (answer : DialAnswer) (taken : Bool)
  /-- the create request reads the row and returns -/
  | settle
  | arrive (callback : Callback)
  | read (id : ℕ)
  | adopt (id : ℕ) (taken : Bool)
  | reread (id : ℕ)
  | apply (id : ℕ)
  | getCall
  /-- `create_call` again, with the key of the row -/
  | createCall

namespace PlacedCall

/-- The row `create_call` inserted, and nothing answered yet. -/
def placed (id : ℕ) (runId : RunId) (key last4 : String) : PlacedCall where
  call := ⟨id, runId, key, last4, none, .creating, none, none, none⟩
  create := .sent
  deliveries := []
  applied := []
  views := []

def goto (d : Delivery) (phase : DeliveryPhase) (s : PlacedCall) : PlacedCall :=
  { s with deliveries := Table.put Delivery.id { d with phase } s.deliveries }

def setCall (call : TelephonyCall) (s : PlacedCall) : PlacedCall := { s with call }

/-- The create request's transaction; its commit fails if it writes a CallSid that is taken. -/
def record (answer : DialAnswer) (taken : Bool) (s : PlacedCall) : PlacedCall :=
  if taken && s.call.providerSid.isNone && answer.accepts then { s with create := .crashed }
  else { s with call := s.call.answered answer, create := .recorded answer }

def tell (answer : Except PlatformError CallView) (s : PlacedCall) : PlacedCall :=
  match answer with
  | .ok view => { s with views := s.views ++ [view] }
  | .error _ => s

def settled (answer : DialAnswer) (s : PlacedCall) : Except PlatformError CallView :=
  match answer with
  | .accepted _ _ | .rejected => .ok s.call.view
  | .unknown => s.call.stored

/-- The end of `_callback_call`. -/
def find (d : Delivery) (s : PlacedCall) : PlacedCall :=
  s.goto d (if s.call.answersTo d.callback then .found else .refused)

def onDelivery (id : ℕ) (phase : DeliveryPhase) (f : Delivery → PlacedCall) (s : PlacedCall) :
    Option PlacedCall :=
  (Table.get Delivery.id id s.deliveries).bind fun d => if d.phase = phase then some (f d) else none

def step : PlacedAction → PlacedCall → Option PlacedCall
  | .answer answer taken, s => match s.create with
    | .sent => some (s.record answer taken)
    | .recorded _ | .ended _ | .crashed => none
  | .settle, s => match s.create with
    | .recorded answer => some (tell (s.settled answer) { s with create := .ended answer })
    | .sent | .ended _ | .crashed => none
  | .arrive callback, s =>
    some { s with deliveries := s.deliveries ++ [⟨s.deliveries.length, callback, .arrived⟩] }
  | .read id, s => s.onDelivery id .arrived fun d =>
    if s.call.adoptable d.callback then s.goto d .adopting else s.find d
  | .adopt id taken, s => s.onDelivery id .adopting fun d =>
    (if taken then s else s.setCall (s.call.adopt d.callback.sid)).goto d .rereading
  | .reread id, s => s.onDelivery id .rereading s.find
  | .apply id, s => s.onDelivery id .found fun d =>
    { (s.setCall (s.call.reported d.callback.report)).goto d .applied with
      applied := s.applied ++ [d.callback] }
  | .getCall, s => some (tell (.ok s.call.view) s)
  | .createCall, s => some (tell s.call.stored s)

end PlacedCall

def placement : Machine PlacedCall PlacedAction := ⟨PlacedCall.step⟩

end Crewquarters
