import Crewquarters.HttpIdempotency
import Crewquarters.Voice

/-!
# Calls the owner starts

`twilio_test_call` and `start_voice_call` of the control API, which `_proxied` runs under an
idempotency key, and what the broker does for them (`test_call`, `VoiceService.create` up to its
dial). The call to the broker is made inside the transaction of the request. The broker works on by
itself, and so does Twilio: a request may fail (an error, a lost response, a timeout, a
cancellation) while its call is still to be placed or has been.
-/

namespace Crewquarters

/-- The body of a request, `TwilioTestCallIn` or `VoiceCallIn`. -/
inductive CallBody where
  | test (destination : String) (confirm : Bool)
  | voice (destination : String) (confirm : Bool) (voice instructions : String)
deriving DecidableEq

def CallBody.instructions : CallBody → String
  | test .. => ""
  | voice _ _ _ instructions => instructions

/-- `_secret_digest`, taken as free of collisions. -/
structure SecretDigest (ε : Type*) where
  hmac : String → ε
  collisionFree : Function.Injective hmac

/-- The fingerprint of a test call (no voice) or of a voice call. -/
structure CallFingerprint (ε : Type*) where
  destination : ε
  confirm : Bool
  voice : Option String
deriving DecidableEq

def CallBody.fingerprint {ε : Type*} (H : SecretDigest ε) : CallBody → CallFingerprint ε
  | test destination confirm => ⟨H.hmac destination, confirm, none⟩
  | voice destination confirm voiceId _ => ⟨H.hmac destination, confirm, some voiceId⟩

def CallBody.path : CallBody → String
  | test .. => "/api/v1/connections/twilio/test-call"
  | voice .. => "/api/v1/connections/twilio/voice-calls"

def CallBody.request {ε : Type*} (H : SecretDigest ε) (key : String) (b : CallBody) :
    MutatingRequest (CallFingerprint ε) :=
  ⟨"POST", b.path, key, b.fingerprint H⟩

/-! ## The broker -/

/-- Twilio's answer to the dial request, as the broker sees it. `result` is the status of a test
call, or the view of the session of a voice call. -/
inductive TwilioAnswer where
  | unreachable
  /-- a status of 300 or more -/
  | rejected (statusCode : ℕ)
  | accepted (result : Json)

inductive BrokerPhase where
  | received
  /-- passed the checks at this time; awaits the credentials -/
  | checked (now : Time)
  /-- the dial request is sent -/
  | posting
  /-- `pending`: the request may still reach Twilio -/
  | ended (reply : Except PlatformError Json) (pending : Bool)

/-- A call of the broker for request `request`; `placed` records that Twilio accepted it. -/
structure BrokerCall where
  request : ℕ
  body : CallBody
  phase : BrokerPhase
  placed : Bool

def BrokerCall.mayDial (c : BrokerCall) : Bool :=
  c.placed || match c.phase with
    | .ended _ pending => pending
    | _ => true

def testCallIntervalSeconds : ℚ := 60

def confirmTestCall : PlatformError :=
  invalid "CONFIRMATION_REQUIRED" "Confirm the test call first." []

def confirmCall : PlatformError := invalid "CONFIRMATION_REQUIRED" "Confirm the call first." []

def testCallLimited : PlatformError :=
  ⟨"RATE_LIMITED", "Wait a minute between test calls.", 429, [("retryAfterSeconds", .num 60)]⟩

def testCallNotAccepted (statusCode : ℕ) : PlatformError :=
  ⟨"PROVIDER_ERROR", "Twilio did not accept the test call.", 502,
    [("providerStatus", .num statusCode)]⟩

/-- The checks before the credentials; `busy` says that a voice call is in progress. -/
def checkCall (settings : VoiceSettings) (now lastTestCall : Time) (busy : Bool) :
    CallBody → Except PlatformError Unit
  | .test destination confirm =>
    if !confirm then .error confirmTestCall
    else do
      settings.checkDestination destination
      if now - lastTestCall < testCallIntervalSeconds then .error testCallLimited else .ok ()
  | .voice destination confirm _ instructions =>
    if !confirm then .error confirmCall
    else if maxInstructionsChars < instructions.length then
      .error (invalid "INVALID_REQUEST" "Instructions are limited to 1000 characters." [])
    else if busy then .error voiceCallActive
    else settings.checkDestination destination

def brokerReply (settings : VoiceSettings) : CallBody → TwilioAnswer → Except PlatformError Json
  | _, .unreachable => .error twilioUnreachable
  | .test .., .rejected statusCode => .error (testCallNotAccepted statusCode)
  | .voice .., .rejected statusCode => .error (callNotAccepted statusCode)
  | .test destination _, .accepted status =>
    .ok (.obj [("placed", .bool true), ("to", .str (settings.maskPhone destination)),
      ("status", status)])
  | .voice .., .accepted view => .ok view

namespace BrokerCall

variable (settings : VoiceSettings)

def check (now lastTestCall : Time) (busy : Bool) (c : BrokerCall) : Option BrokerCall :=
  match c.phase with
  | .received => some { c with
      phase := match checkCall settings now lastTestCall busy c.body with
        | .error e => .ended (.error e) false
        | .ok _ => .checked now }
  | _ => none

/-- The credentials are there, and the dial request is sent. -/
def credentials (missing : Option NoCredentials) (c : BrokerCall) : Option BrokerCall :=
  match c.phase with
  | .checked _ => some { c with
      phase := match missing, c.body with
        | some why, _ => .ended (.error why.error) false
        | none, .test .. => .posting
        | none, .voice .. =>
          if "https://".toList.isPrefixOf settings.baseUrl.toList then .posting
          else .ended (.error needsCallbackUrl) false }
  | _ => none

/-- What a test call sets `_last_test_call` to before it dials. -/
def testCalledAt (missing : Option NoCredentials) (c : BrokerCall) : Option Time :=
  match c.phase, missing, c.body with
  | .checked now, none, .test .. => some now
  | _, _, _ => none

def place (c : BrokerCall) : Option BrokerCall :=
  if c.placed then none
  else match c.phase with
    | .posting | .ended _ true => some { c with placed := true }
    | _ => none

def reply (answer : TwilioAnswer) (c : BrokerCall) : Option BrokerCall :=
  match c.phase with
  | .posting =>
    let ended := fun pending => some { c with
      phase := .ended (brokerReply settings c.body answer) pending }
    match answer with
    | .unreachable => ended true
    | .rejected _ => ended false
    | .accepted _ => if c.placed then ended false else none
  | _ => none

end BrokerCall

/-! ## Requests and their calls -/

/-- `bodies` are those of the requests, in order. -/
structure OwnerCalls (ε δ : Type*) where
  http : HttpIdempotency (CallFingerprint ε) δ Unit
  bodies : List CallBody
  lastTestCall : Time
  calls : List BrokerCall

inductive OwnerCallAction where
  | arrive (key : String) (body : CallBody)
  | insert (n : ℕ)
  | select (n : ℕ)
  /-- the call of request `n` reaches the broker -/
  | send (n : ℕ)
  | check (k : ℕ) (now : Time) (busy : Bool)
  | credentials (k : ℕ) (missing : Option NoCredentials)
  /-- Twilio accepts the call -/
  | place (k : ℕ)
  /-- the broker's dial request returns or fails -/
  | reply (k : ℕ) (answer : TwilioAnswer)
  /-- the broker's answer reaches request `n`, which stores it and commits -/
  | finish (n : ℕ)
  | answer (n : ℕ)
  /-- the broker's error, a lost response, a timeout, a cancellation or a crash -/
  | fail (n : ℕ)

namespace OwnerCalls

variable {ε δ : Type*}

def start : OwnerCalls ε δ := ⟨.start (), [], -testCallIntervalSeconds, []⟩

/-- The broker's call for request `n`. -/
def callOf (n : ℕ) (s : OwnerCalls ε δ) : Option BrokerCall :=
  s.calls.find? fun c => c.request = n

def isWorking (n : ℕ) (s : OwnerCalls ε δ) : Bool :=
  (s.http.requests[n]?).any fun r => match r.phase with
    | .working _ => true
    | _ => false

/-- The request is rolled back although its call was placed or may still be. -/
def abandons (a : OwnerCallAction) (s : OwnerCalls ε δ) : Bool :=
  match a with
  | .fail n => s.isWorking n && (s.callOf n).any (·.mayDial)
  | _ => false

/-- The next step of the broker's call `k`. -/
def onCall (k : ℕ) (f : BrokerCall → Option BrokerCall) (s : OwnerCalls ε δ) :
    Option (OwnerCalls ε δ) :=
  ((s.calls[k]?).bind f).map fun c => { s with calls := s.calls.set k c }

def dialled (key : String) (s : OwnerCalls ε δ) : List BrokerCall :=
  s.calls.filter fun c => c.placed && (s.http.requests[c.request]?).any (·.key = key)

variable [DecidableEq δ] (H : SecretDigest ε) (D : RequestDigest (CallFingerprint ε) δ)
  (settings : VoiceSettings)

def onHttp (a : RequestAction (CallFingerprint ε) Unit) (s : OwnerCalls ε δ) :
    Option (OwnerCalls ε δ) :=
  (HttpIdempotency.step D a s.http).map fun http => { s with http }

def step : OwnerCallAction → OwnerCalls ε δ → Option (OwnerCalls ε δ)
  | .arrive key body, s =>
    (s.onHttp D (.arrive (body.request H key))).map fun t => { t with bodies := t.bodies ++ [body] }
  | .insert n, s => s.onHttp D (.insert n)
  | .select n, s => s.onHttp D (.select n)
  | .send n, s =>
    if s.isWorking n && (s.callOf n).isNone then
      (s.bodies[n]?).map fun body =>
        { s with calls := s.calls ++ [⟨n, body, .received, false⟩] }
    else none
  | .check k now busy, s => s.onCall k (·.check settings now s.lastTestCall busy)
  | .credentials k missing, s =>
    let lastTestCall := ((s.calls[k]?).bind (·.testCalledAt missing)).getD s.lastTestCall
    { s with lastTestCall }.onCall k (·.credentials settings missing)
  | .place k, s => s.onCall k (·.place)
  | .reply k answer, s => s.onCall k (·.reply settings answer)
  | .finish n, s => match (s.callOf n).map BrokerCall.phase with
    | some (.ended (.ok body) _) => s.onHttp D (.finish n 200 body id)
    | _ => none
  | .answer n, s => s.onHttp D (.answer n)
  | .fail n, s => s.onHttp D (.fail n)

def machine : Machine (OwnerCalls ε δ) OwnerCallAction := ⟨step H D settings⟩

end OwnerCalls

end Crewquarters
