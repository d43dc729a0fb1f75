import Crewquarters.Telephony

/-!
# Voice calls

`VoiceService` of `voice.py` in the capability broker, from one await to the next: the owner's
`create` and `end`, Twilio's status callbacks, and the media streams of `accept_stream` with what a
running `Conversation` does to its session. The service keeps its sessions in `self.calls`; a
request or a stream that has looked one up keeps the object, also after `_expire` dropped it from
there.

Sessions, requests and streams are numbered in the order they are made.
-/

namespace Crewquarters

inductive VoiceState where
  | created
  | dialing
  | ringing
  | connected
  | ended
  | failed
deriving DecidableEq, Repr

/-- `TERMINAL_STATES`. -/
def VoiceState.terminal : VoiceState → Bool
  | ended | failed => true
  | created | dialing | ringing | connected => false

structure VoiceSession where
  id : ℕ
  token : String
  simulated : Bool
  state : VoiceState
  twilioSid : Option String
  connectedAt : Option Time
  endedAt : Option Time
  endReason : Option String
  error : Option String
  hangup : Bool
  streamUsed : Bool

/-- `_end`. -/
def VoiceSession.finish (now : Time) (state : VoiceState) (reason : String) (v : VoiceSession) :
    VoiceSession :=
  { v with
    state
    endReason := v.endReason.or (some reason)
    endedAt := v.endedAt.or (some now)
    hangup := true }

def CallState.text : CallState → String
  | creating => "CREATING"
  | inDoubt => "IN_DOUBT"
  | queued => "queued"
  | initiated => "initiated"
  | ringing => "ringing"
  | inProgress => "in-progress"
  | completed => "completed"
  | busy => "busy"
  | noAnswer => "no-answer"
  | failed => "failed"
  | canceled => "canceled"
  | other name => name

/-- `status_callback` on a session that is not over. -/
def VoiceSession.report (now : Time) (status : CallState) (v : VoiceSession) : VoiceSession :=
  if status = .ringing ∧ v.state = .dialing then { v with state := .ringing }
  else if status.terminal ∧ v.state ≠ .connected then
    v.finish now (if status = .completed then .ended else .failed) status.text
  else v

/-- The end of `VoiceService.end`. -/
def VoiceSession.hungUp (now : Time) (v : VoiceSession) : VoiceSession :=
  if v.state ≠ .connected ∧ v.state.terminal = false then
    v.finish now .ended "hung_up_by_owner" else v

/-- The stream's `start` message had the token. -/
def VoiceSession.connect (now : Time) (callSid : Option String) (v : VoiceSession) : VoiceSession :=
  { v with
    twilioSid := v.twilioSid.or callSid
    streamUsed := true
    state := .connected
    connectedAt := some now }

/-- What `accept_stream` does when the conversation is over; `raised` names its exception. -/
def VoiceSession.disconnect (now : Time) (raised : Option String) (v : VoiceSession) :
    VoiceSession :=
  match raised with
  | some name => finish now .failed "error" { v with error := some name }
  | none => if v.state.terminal then v
    else v.finish now .ended (v.endReason.getD "caller_hung_up")

inductive VoiceDial where
  | unreachable
  /-- a status of 300 or more -/
  | rejected (statusCode : ℕ)
  | accepted (sid : Option String)

inductive VoiceCreatePhase where
  /-- passed the checks; awaits the credentials -/
  | checked
  /-- its session is in `self.calls` and the dial request sent -/
  | dialing (session : ℕ)
  | ended (answer : Except PlatformError ℕ)

structure VoiceCreate where
  id : ℕ
  phase : VoiceCreatePhase

/-- A request to end a session that awaits Twilio's answer, or has ended. -/
structure VoiceEnd where
  id : ℕ
  session : ℕ
  waiting : Bool

inductive StreamPhase where
  /-- awaits the signature check -/
  | signing
  /-- accepted; awaits the `start` message -/
  | handshaking
  | running
  | closed (code : ℕ)
deriving DecidableEq

/-- A media stream; `admitted` records that it passed the handshake. -/
structure MediaStream where
  id : ℕ
  session : ℕ
  phase : StreamPhase
  admitted : Bool

/-- `calls` are the keys of `self.calls`. -/
structure Voice where
  sessions : List VoiceSession
  calls : List ℕ
  creates : List VoiceCreate
  ends : List VoiceEnd
  streams : List MediaStream

inductive VoiceAction where
  /-- `create` up to its first await; `token` is the session's if it makes one -/
  | create (destination instructions : String) (simulate : Bool) (token : String)
  | credentials (id : ℕ) (missing : Option NoCredentials) (token : String)
  | dialed (id : ℕ) (answer : VoiceDial)
  /-- `end` up to its first await -/
  | endCall (session : ℕ)
  | endCalled (id : ℕ)
  | status (session : ℕ) (status : CallState)
  | connect (session : ℕ)
  | signed (id : ℕ) (valid : Bool)
  /-- the handshake times out, is broken off or malformed -/
  | broken (id : ℕ)
  | start (id : ℕ) (token : String) (callSid : Option String)
  /-- a `stop` message, or the stream breaks off -/
  | stopped (id : ℕ)
  | timeLimit (id : ℕ)
  | finished (id : ℕ) (raised : Option String)

structure VoiceSettings extends TelephonySettings where
  baseUrl : String

def maxInstructionsChars : ℕ := 1000

def sessionKeepSeconds : ℚ := 3600

def voiceCallActive : PlatformError :=
  conflict "VOICE_CALL_ACTIVE" "A voice call is already in progress." []

def needsCallbackUrl : PlatformError :=
  ⟨"NEEDS_CONFIGURATION", "Realtime calls need a public https callback address " ++
    "(CQ_TWILIO_CALLBACK_BASE_URL and the callback tunnel).", 409, []⟩

def twilioUnreachable : PlatformError := ⟨"PROVIDER_UNAVAILABLE", "Twilio is unreachable.", 503, []⟩

def callNotAccepted (statusCode : ℕ) : PlatformError :=
  ⟨"PROVIDER_ERROR", "Twilio did not accept the call.", 502, [("providerStatus", .num statusCode)]⟩

namespace Voice

def empty : Voice := ⟨[], [], [], [], []⟩

/-- A session by its number, in `self.calls` or not. -/
def session (id : ℕ) (s : Voice) : Option VoiceSession := Table.get VoiceSession.id id s.sessions

/-- `self.calls.get`. -/
def listed (id : ℕ) (s : Voice) : Option VoiceSession :=
  if id ∈ s.calls then s.session id else none

def setSession (v : VoiceSession) (s : Voice) : Voice :=
  { s with sessions := Table.put VoiceSession.id v s.sessions }

/-- In `self.calls` and not over. -/
def live (s : Voice) (v : VoiceSession) : Bool := v.id ∈ s.calls && !v.state.terminal

def active (s : Voice) : Bool := s.sessions.any s.live

def expire (now : Time) (s : Voice) : Voice :=
  { s with calls := s.calls.filter fun id => !((s.session id).any fun v =>
      v.endedAt.any fun ended => sessionKeepSeconds < now - ended) }

def newSession (simulated : Bool) (token : String) (s : Voice) : VoiceSession :=
  { id := s.sessions.length
    token
    simulated
    state := .dialing
    twilioSid := none
    connectedAt := none
    endedAt := none
    endReason := none
    error := none
    hangup := false
    streamUsed := false }

/-- `self.calls[session.id] = session`. -/
def addSession (v : VoiceSession) (s : Voice) : Voice :=
  { s with sessions := s.sessions ++ [v], calls := s.calls ++ [v.id] }

def addCreate (phase : VoiceCreatePhase) (s : Voice) : Voice :=
  { s with creates := s.creates ++ [⟨s.creates.length, phase⟩] }

def gotoCreate (r : VoiceCreate) (phase : VoiceCreatePhase) (s : Voice) : Voice :=
  { s with creates := Table.put VoiceCreate.id { r with phase } s.creates }

def addEnd (session : ℕ) (waiting : Bool) (s : Voice) : Voice :=
  { s with ends := s.ends ++ [⟨s.ends.length, session, waiting⟩] }

def addStream (session : ℕ) (phase : StreamPhase) (s : Voice) : Voice :=
  { s with streams := s.streams ++ [⟨s.streams.length, session, phase, false⟩] }

def gotoStream (m : MediaStream) (phase : StreamPhase) (s : Voice) : Voice :=
  { s with streams := Table.put MediaStream.id { m with phase } s.streams }

variable (settings : VoiceSettings)

def create (now : Time) (destination instructions : String) (simulate : Bool) (token : String)
    (s : Voice) : Voice :=
  let s := s.expire now
  if maxInstructionsChars < instructions.length then
    s.addCreate (.ended (.error
      (invalid "INVALID_REQUEST" "Instructions are limited to 1000 characters." [])))
  else if s.active then s.addCreate (.ended (.error voiceCallActive))
  else if simulate then
    let v := s.newSession true token
    (s.addSession v).addCreate (.ended (.ok v.id))
  else match settings.checkDestination destination with
    | .error e => s.addCreate (.ended (.error e))
    | .ok _ => s.addCreate .checked

/-- `create` from the credentials on, to the dial request. -/
def credentials (r : VoiceCreate) (missing : Option NoCredentials) (token : String) (s : Voice) :
    Voice :=
  match missing with
  | some why => s.gotoCreate r (.ended (.error why.error))
  | none =>
    if !("https://".toList.isPrefixOf settings.baseUrl.toList) then
      s.gotoCreate r (.ended (.error needsCallbackUrl))
    else
      let v := s.newSession false token
      (s.addSession v).gotoCreate r (.dialing v.id)

/-- What `create` makes of Twilio's answer. -/
def dialed (now : Time) (r : VoiceCreate) (v : VoiceSession) (s : Voice) : VoiceDial → Voice
  | .unreachable =>
    (s.setSession (v.finish now .failed "twilio_unreachable")).gotoCreate r
      (.ended (.error twilioUnreachable))
  | .rejected statusCode =>
    (s.setSession { v.finish now .failed "twilio_rejected" with
      error := some s!"Twilio did not accept the call ({statusCode})." }).gotoCreate r
      (.ended (.error (callNotAccepted statusCode)))
  | .accepted sid => (s.setSession { v with twilioSid := sid }).gotoCreate r (.ended (.ok v.id))

/-- `end` asks Twilio to end the call only if it knows it. -/
def endCall (now : Time) (v : VoiceSession) (s : Voice) : Voice :=
  let v := { v with hangup := true }
  if (v.twilioSid.filter (· ≠ "")).isSome && !v.state.terminal then
    (s.setSession v).addEnd v.id true
  else (s.setSession (v.hungUp now)).addEnd v.id false

def connect (session : ℕ) (s : Voice) : Voice :=
  match s.listed session with
  | none => s.addStream session (.closed 4404)
  | some v =>
    if v.streamUsed || v.state.terminal then s.addStream session (.closed 4404)
    else s.addStream session (if v.simulated then .handshaking else .signing)

/-- The end of the handshake, without an await before the session is marked used. -/
def start (now : Time) (m : MediaStream) (v : VoiceSession) (token : String)
    (callSid : Option String) (s : Voice) : Voice :=
  if token ≠ v.token then s.gotoStream m (.closed 4401)
  else (s.setSession (v.connect now callSid)).gotoStream { m with admitted := true } .running

/-- A stream goes on from one of its phases, with the session it looked up. -/
def onStream (id : ℕ) (phase : StreamPhase) (f : MediaStream → VoiceSession → Voice) (s : Voice) :
    Option Voice :=
  (Table.get MediaStream.id id s.streams).bind fun m =>
    if m.phase = phase then (s.session m.session).map (f m) else none

def step : Time × VoiceAction → Voice → Option Voice
  | (now, .create destination instructions simulate token), s =>
    some (s.create settings now destination instructions simulate token)
  | (_, .credentials id missing token), s =>
    (Table.get VoiceCreate.id id s.creates).bind fun r => match r.phase with
    | .checked => some (s.credentials settings r missing token)
    | _ => none
  | (now, .dialed id answer), s =>
    (Table.get VoiceCreate.id id s.creates).bind fun r => match r.phase with
    | .dialing session => (s.session session).map fun v => s.dialed now r v answer
    | _ => none
  | (now, .endCall session), s => (s.listed session).map fun v => s.endCall now v
  | (now, .endCalled id), s =>
    (Table.get VoiceEnd.id id s.ends).bind fun r =>
      if r.waiting then (s.session r.session).map fun v => { s.setSession (v.hungUp now) with
        ends := Table.put VoiceEnd.id { r with waiting := false } s.ends }
      else none
  | (now, .status session status), s => (s.listed session).map fun v =>
    if v.state.terminal then s else s.setSession (v.report now status)
  | (_, .connect session), s => some (s.connect session)
  | (_, .signed id valid), s => s.onStream id .signing fun m _ =>
    s.gotoStream m (if valid then .handshaking else .closed 4403)
  | (_, .broken id), s => s.onStream id .handshaking fun m _ => s.gotoStream m (.closed 4401)
  | (now, .start id token callSid), s => s.onStream id .handshaking fun m v =>
    s.start now m v token callSid
  | (_, .stopped id), s => s.onStream id .running fun _ v =>
    s.setSession { v with endReason := v.endReason.or (some "caller_hung_up") }
  | (_, .timeLimit id), s => s.onStream id .running fun _ v =>
    s.setSession { v with endReason := some "time_limit" }
  | (now, .finished id raised), s => s.onStream id .running fun m v =>
    (s.setSession (v.disconnect now raised)).gotoStream m (.closed 1000)

end Voice

/-- The voice service; every action has its reading of the clock. -/
def voiceService (settings : VoiceSettings) : Machine Voice (Time × VoiceAction) :=
  ⟨Voice.step settings⟩

end Crewquarters
