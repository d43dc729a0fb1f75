import Crewquarters.Json
import Crewquarters.Jobs
import Crewquarters.Lib.Machine

/-!
# Outbound calls

`create_call` of `twilio.py` in the capability broker, from one await to the next, and the callbacks
that write the same rows. The transaction that looks the key up, counts the run's calls and inserts
the row holds an advisory lock on the run until it ends; the dial request is sent after it has
committed. A request can crash at any of these points, which gives up its transaction.

A row's id is the number of the request that inserted it.
-/

namespace Crewquarters

/-- The states of a row: the broker's own, those Twilio reports, and any other text it reports. -/
inductive CallState where
  | creating
  | inDoubt
  | queued
  | initiated
  | ringing
  | inProgress
  | completed
  | busy
  | noAnswer
  | failed
  | canceled
  | other (name : String)
deriving DecidableEq, Repr

namespace CallState

def terminal : CallState → Bool
  | completed | busy | noAnswer | failed | canceled => true
  | creating | inDoubt | queued | initiated | ringing | inProgress | other _ => false

def rank : CallState → Option ℤ
  | creating | inDoubt => some 0
  | queued => some 1
  | initiated => some 2
  | ringing => some 3
  | inProgress => some 4
  | completed | busy | noAnswer | failed | canceled | other _ => none

def advances (current new : CallState) : Bool :=
  if current.terminal || new = other "" then false
  else if new.terminal then true
  else new.rank.getD (-1) > current.rank.getD 0

def reported : CallState → CallState
  | creating => queued
  | inDoubt => failed
  | state => state

end CallState

/-- The columns of a row that the view or another call reads. -/
structure TelephonyCall where
  id : ℕ
  runId : RunId
  idempotencyKey : String
  destinationLast4 : String
  providerSid : Option String
  state : CallState
  transcript : Option String
  durationSeconds : Option ℕ
  errorCode : Option String

structure CallView where
  id : ℕ
  idempotencyKey : String
  toMasked : String
  state : CallState
  answered : Bool
  speechCaptured : Bool
  transcript : Option String
  durationSeconds : Option ℕ
  errorCode : Option String

/-- The contract's `Call`. -/
def TelephonyCall.view (c : TelephonyCall) : CallView where
  id := c.id
  idempotencyKey := c.idempotencyKey
  toMasked := "***" ++ c.destinationLast4
  state := c.state.reported
  answered := c.state = .inProgress || c.state = .completed || c.transcript.isSome
  speechCaptured := c.transcript.isSome
  transcript := c.transcript
  durationSeconds := c.durationSeconds
  errorCode := c.errorCode

def outcomeUnknown (callId : ℕ) : PlatformError :=
  ⟨"OUTCOME_UNKNOWN", "Twilio did not confirm the call. It will not be retried automatically.", 503,
    [("callId", .str (toString callId))]⟩

def callLimitReached (maxCalls : ℕ) : PlatformError :=
  ⟨"CALL_LIMIT_REACHED", s!"This run may place at most {maxCalls} calls.", 409, []⟩

def TelephonyCall.stored (c : TelephonyCall) : Except PlatformError CallView :=
  if c.state = .inDoubt then .error (outcomeUnknown c.id) else .ok c.view

/-! ## Destinations and credentials -/

/-- `decimal` is what `\d` matches, and `hashtext` the hash in the advisory lock's key. -/
structure TelephonySettings where
  live : Bool
  allowedNumbers : List String
  decimal : Char → Bool
  hashtext : RunId → ℤ

/-- `value[-4:]`. -/
def last4 (value : String) : String := String.ofList (value.toList.drop (value.length - 4))

namespace TelephonySettings

variable (settings : TelephonySettings)

/-- `E164`; the pattern's `$` also matches before a newline at the end. -/
def e164 (destination : String) : Bool :=
  match destination.toList with
  | '+' :: first :: rest =>
    let digits := if rest.getLast? = some '\n' then rest.dropLast else rest
    '1' ≤ first && first ≤ '9' && 7 ≤ digits.length && digits.length ≤ 14
      && digits.all settings.decimal
  | _ => false

def maskPhone (value : String) : String :=
  let digits := value.toList.filter settings.decimal
  if 4 ≤ digits.length then "***" ++ last4 (String.ofList digits) else "***"

def checkDestination (destination : String) : Except PlatformError Unit :=
  if !settings.e164 destination then
    .error (invalid "INVALID_REQUEST" "The destination must be an E.164 phone number." [])
  else if settings.live && destination ∉ settings.allowedNumbers then
    .error ⟨"PERMISSION_DENIED",
      "Calls are limited to verified numbers in CQ_TWILIO_ALLOWED_NUMBERS.", 403,
      [("to", .str (settings.maskPhone destination))]⟩
  else .ok ()

end TelephonySettings

/-- Why `_credentials` raises. -/
inductive NoCredentials where
  | notConfigured
  | unreadable

def NoCredentials.error (why : NoCredentials) : PlatformError :=
  let message := match why with
    | notConfigured => "Configure Twilio in Connections."
    | unreadable => "The saved Twilio credentials cannot be read. Save them again."
  ⟨"NEEDS_CONNECTION", message, 409, [("provider", .str "twilio")]⟩

/-! ## Requests -/

inductive CallPhase where
  /-- the destination was accepted; awaits the credentials -/
  | checking
  /-- awaits the advisory lock -/
  | locking
  /-- holds it -/
  | holding
  /-- and found no row with its key -/
  | counting
  /-- nor too many rows of its run -/
  | inserting
  /-- its row is committed -/
  | dialing
  /-- the dial request is sent -/
  | sent
  /-- its outcome is unknown, and the row says so -/
  | doubting
  | ended (answer : Except PlatformError CallView)
  /-- an exception that is no platform error, or the process died -/
  | crashed

namespace CallPhase

def locks : CallPhase → Bool
  | holding | counting | inserting => true
  | checking | locking | dialing | sent | doubting | ended _ | crashed => false

def live : CallPhase → Bool
  | ended _ | crashed => false
  | checking | locking | holding | counting | inserting | dialing | sent | doubting => true

end CallPhase

/-- A request; `repeated` records that its key had a row when it arrived. -/
structure CallRequest where
  id : ℕ
  runId : RunId
  key : String
  destination : String
  repeated : Bool
  phase : CallPhase

structure Dial where
  request : ℕ
  runId : RunId
  key : String

structure Telephony where
  calls : List TelephonyCall
  requests : List CallRequest
  dials : List Dial

inductive DialAnswer where
  | accepted (sid : String) (state : CallState)
  /-- a status of 400 to 499 -/
  | rejected
  /-- a status of 500 or more, or no response -/
  | unknown

inductive CallAction where
  | arrive (runId : RunId) (key destination : String)
  | credentials (id : ℕ) (missing : Option NoCredentials)
  | lock (id : ℕ)
  | lookup (id : ℕ)
  | count (id : ℕ)
  | insert (id : ℕ)
  | dial (id : ℕ)
  | answer (id : ℕ) (answer : DialAnswer)
  | settle (id : ℕ)
  | crash (id : ℕ)
  /-- a signed callback of a call without a CallSid, whose `To` fits -/
  | adopt (callId : ℕ) (sid : String)
  | status (callId : ℕ) (new : CallState) (duration : Option ℕ) (errorCode : Option String)
  | gather (callId : ℕ) (speech : String)

namespace Telephony

def empty : Telephony := ⟨[], [], []⟩

def byKey (runId : RunId) (key : String) (s : Telephony) : Option TelephonyCall :=
  s.calls.find? fun c => c.runId = runId && c.idempotencyKey = key

def getCall (id : ℕ) (s : Telephony) : Option TelephonyCall := Table.get TelephonyCall.id id s.calls

def setCall (c : TelephonyCall) (s : Telephony) : Telephony :=
  { s with calls := Table.put TelephonyCall.id c s.calls }

def getRequest (id : ℕ) (s : Telephony) : Option CallRequest :=
  Table.get CallRequest.id id s.requests

def goto (r : CallRequest) (phase : CallPhase) (s : Telephony) : Telephony :=
  { s with requests := Table.put CallRequest.id { r with phase } s.requests }

def count (runId : RunId) (s : Telephony) : ℕ := (s.calls.filter fun c => c.runId = runId).length

def sidTaken (id : ℕ) (sid : String) (s : Telephony) : Bool :=
  s.calls.any fun c => c.id ≠ id && c.providerSid = some sid

variable (settings : TelephonySettings) (maxCalls : RunId → ℕ)

def arrive (runId : RunId) (key destination : String) (s : Telephony) : Telephony :=
  let phase := match settings.checkDestination destination with
    | .error e => .ended (.error e)
    | .ok _ => .checking
  { s with requests := s.requests
      ++ [⟨s.requests.length, runId, key, destination, (s.byKey runId key).isSome, phase⟩] }

/-- `pg_advisory_xact_lock`: nobody else has a transaction open under the same lock key. -/
def lock (r : CallRequest) (s : Telephony) : Option Telephony :=
  if s.requests.any fun q => q.phase.locks && settings.hashtext q.runId = settings.hashtext r.runId
  then none else some (s.goto r .holding)

def lookup (r : CallRequest) (s : Telephony) : Telephony :=
  match s.byKey r.runId r.key with
  | some existing => s.goto r (.ended existing.stored)
  | none => s.goto r .counting

def limit (r : CallRequest) (s : Telephony) : Telephony :=
  if maxCalls r.runId ≤ s.count r.runId then
    s.goto r (.ended (.error (callLimitReached (maxCalls r.runId))))
  else s.goto r .inserting

/-- The commit, and what happens if the key was inserted meanwhile. -/
def insert (r : CallRequest) (s : Telephony) : Telephony :=
  match s.byKey r.runId r.key with
  | some winner => s.goto r (.ended (.ok winner.view))
  | none =>
    goto r .dialing { s with calls := s.calls
      ++ [⟨r.id, r.runId, r.key, last4 r.destination, none, .creating, none, none, none⟩] }

def dial (r : CallRequest) (s : Telephony) : Telephony :=
  goto r .sent { s with dials := s.dials ++ [⟨r.id, r.runId, r.key⟩] }

/-- `_created`; the commit fails if the CallSid belongs to another call. -/
def created (r : CallRequest) (c : TelephonyCall) (sid : String) (state : CallState)
    (s : Telephony) : Telephony :=
  let c := { c with
    providerSid := some (c.providerSid.getD sid)
    state := if c.state.advances state then state else c.state }
  if s.sidTaken c.id (c.providerSid.getD sid) then s.goto r .crashed
  else (s.setCall c).goto r (.ended (.ok c.view))

def answer (r : CallRequest) (c : TelephonyCall) (s : Telephony) : DialAnswer → Telephony
  | .accepted sid state => s.created r c sid state
  | .rejected =>
    let c := { c with state := .failed, errorCode := some "PROVIDER_REJECTED" }
    (s.setCall c).goto r (.ended (.ok c.view))
  | .unknown =>
    (if c.providerSid.isNone then
      s.setCall { c with state := .inDoubt, errorCode := some "OUTCOME_UNKNOWN" }
    else s).goto r .doubting

def adopt (c : TelephonyCall) (sid : String) (s : Telephony) : Telephony :=
  if c.providerSid.isSome || s.sidTaken c.id sid then s
  else s.setCall { c with providerSid := some sid, state := .queued, errorCode := none }

def status (c : TelephonyCall) (new : CallState) (duration : Option ℕ) (errorCode : Option String)
    (s : Telephony) : Telephony :=
  if c.state.advances new then s.setCall { c with
    state := new
    durationSeconds := duration.or c.durationSeconds
    errorCode := if new = .failed then some (errorCode.getD "CALL_FAILED") else c.errorCode }
  else s

def gather (c : TelephonyCall) (speech : String) (s : Telephony) : Telephony :=
  if c.transcript.isNone && speech ≠ "" then s.setCall { c with transcript := some speech } else s

def onRequest (id : ℕ) (f : CallRequest → Option Telephony) (s : Telephony) : Option Telephony :=
  (s.getRequest id).bind f

def step : CallAction → Telephony → Option Telephony
  | .arrive runId key destination, s => some (s.arrive settings runId key destination)
  | .credentials id missing, s => s.onRequest id fun r => match r.phase, missing with
    | .checking, none => some (s.goto r .locking)
    | .checking, some why => some (s.goto r (.ended (.error why.error)))
    | _, _ => none
  | .lock id, s => s.onRequest id fun r => match r.phase with
    | .locking => s.lock settings r
    | _ => none
  | .lookup id, s => s.onRequest id fun r => match r.phase with
    | .holding => some (s.lookup r)
    | _ => none
  | .count id, s => s.onRequest id fun r => match r.phase with
    | .counting => some (s.limit maxCalls r)
    | _ => none
  | .insert id, s => s.onRequest id fun r => match r.phase with
    | .inserting => some (s.insert r)
    | _ => none
  | .dial id, s => s.onRequest id fun r => match r.phase with
    | .dialing => some (s.dial r)
    | _ => none
  | .answer id answer, s => s.onRequest id fun r => match r.phase with
    | .sent => (s.getCall r.id).map fun c => s.answer r c answer
    | _ => none
  | .settle id, s => s.onRequest id fun r => match r.phase with
    | .doubting => (s.getCall r.id).map fun c => s.goto r (.ended c.stored)
    | _ => none
  | .crash id, s => s.onRequest id fun r =>
    if r.phase.live then some (s.goto r .crashed) else none
  | .adopt callId sid, s => (s.getCall callId).map fun c =>
    if c.state = .creating || c.state = .inDoubt then s.adopt c sid else s
  | .status callId new duration errorCode, s => (s.getCall callId).map fun c =>
    s.status c new duration errorCode
  | .gather callId speech, s => (s.getCall callId).map fun c => s.gather c speech

end Telephony

def telephony (settings : TelephonySettings) (maxCalls : RunId → ℕ) :
    Machine Telephony CallAction :=
  ⟨Telephony.step settings maxCalls⟩

end Crewquarters
