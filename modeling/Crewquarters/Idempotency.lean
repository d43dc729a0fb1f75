import Crewquarters.System

/-!
# `ctx.idempotency.once`

`IdempotencyClient.once` of the SDK, with `resume_in_progress` false, around the platform. A call
claims its key, invokes `fn` if the claim is its own, and completes the key with the result. Every
call has a claim token of its own, which names the call here.

`BrokerClient.request` sends a request again, with the same headers, for as long as no response
came. So a request that was sent may arrive any number of times and in any order with others, also
after the call has gone on, failed, or died with its container, and a response may never be read.
-/

namespace Crewquarters

inductive ActionBody where
  | claim
  | complete (result : Json)

/-- `POST /actions/{key}/claim` or `/complete`, sent for an attempt by the call of this token. -/
structure ActionRequest where
  token : String
  runId : RunId
  attempt : ℕ
  key : String
  body : ActionBody

structure ActionReply where
  request : ActionRequest
  answer : Except JobError ActionAnswer

/-- The transaction of `claim_action` or `complete_action`. -/
def Db.serve (G : Guards) (clk : Clock) (q : ActionRequest) (db : Db) :
    Except JobError (ActionAnswer × Db) :=
  db.withRun q.runId fun s => raising <| match q.body with
    | .claim => claimAction q.attempt q.key (some q.token) s
    | .complete result => completeAction G clk q.attempt q.key result s

inductive OncePhase where
  /-- `claim` was sent -/
  | claiming
  /-- `fn` was invoked -/
  | acting
  /-- `fn` returned, `complete` was sent -/
  | completing (value : Json)
  | returned (value : Option Json)
  /-- it raised, or its process died -/
  | failed

/-- A call `once(key, fn)` of an agent. -/
structure OnceCall where
  token : String
  runId : RunId
  attempt : ℕ
  key : String
  phase : OncePhase

namespace OnceCall

def request (body : ActionBody) (c : OnceCall) : ActionRequest :=
  ⟨c.token, c.runId, c.attempt, c.key, body⟩

/-- What `once` does with the answer to its claim: a completed key's result is returned, a claim of
its own goes on to `fn`, and `in_doubt` is `OutcomeUnknown`. -/
def afterClaim : Except JobError ActionAnswer → OncePhase
  | .ok (.completed result) => .returned result
  | .ok .inDoubt => .failed
  | .ok .claimed => .acting
  | .error _ => .failed

def afterComplete (value : Json) : Except JobError ActionAnswer → OncePhase
  | .ok _ => .returned (some value)
  | .error _ => .failed

end OnceCall

/-- The platform, the agents' calls, what was sent and answered, and the calls that invoked `fn`. -/
structure OnceState where
  platform : System
  calls : List OnceCall
  sent : List ActionRequest
  replies : List ActionReply
  invoked : List OnceCall

inductive OnceAction where
  /-- anything else that happens on the platform -/
  | platform (a : Action)
  | call (token : String) (runId : RunId) (attempt : ℕ) (key : String)
  /-- a copy of a sent request arrives -/
  | arrive (i : ℕ) (clk : Clock)
  /-- a call reads a reply -/
  | read (i : ℕ)
  | fnReturns (token : String) (value : Json)
  /-- the call gives up, `fn` raises, or the process dies -/
  | fail (token : String)

namespace OnceState

def init : OnceState := ⟨System.init, [], [], [], []⟩

def getCall (token : String) (w : OnceState) : Option OnceCall :=
  Table.get OnceCall.token token w.calls

def goto (c : OnceCall) (phase : OncePhase) (w : OnceState) : OnceState :=
  { w with calls := Table.put OnceCall.token { c with phase } w.calls }

def send (q : ActionRequest) (w : OnceState) : OnceState := { w with sent := w.sent ++ [q] }

/-- The platform handles a request and answers it; one that raises is rolled back. -/
def arrive (G : Guards) (clk : Clock) (q : ActionRequest) (w : OnceState) : OnceState :=
  match w.platform.db.serve G clk q with
  | .ok (answer, db) => { w with
      platform := { w.platform with db }
      replies := w.replies ++ [⟨q, .ok answer⟩] }
  | .error e => { w with replies := w.replies ++ [⟨q, .error e⟩] }

/-- `fn` is invoked if the claim was answered `claimed`. -/
def invoke (c : OnceCall) (answer : Except JobError ActionAnswer) (w : OnceState) : OnceState :=
  match answer with
  | .ok .claimed => { w with invoked := w.invoked ++ [c] }
  | _ => w

def read (c : OnceCall) (r : ActionReply) (w : OnceState) : Option OnceState :=
  match c.phase, r.request.body with
  | .claiming, .claim => some ((w.goto c (OnceCall.afterClaim r.answer)).invoke c r.answer)
  | .completing value, .complete _ =>
    some (w.goto c (OnceCall.afterComplete value r.answer))
  | _, _ => none

def step (G : Guards) (settings : Settings) : OnceAction → OnceState → Option OnceState
  | .platform a, w => (w.platform.step G settings a).map fun platform => { w with platform }
  | .call token runId attempt key, w =>
    if (w.getCall token).isSome then none
    else
      let c : OnceCall := ⟨token, runId, attempt, key, .claiming⟩
      some { w.send (c.request .claim) with calls := w.calls ++ [c] }
  | .arrive i clk, w => w.sent[i]?.map fun q => w.arrive G clk q
  | .read i, w => w.replies[i]?.bind fun r =>
    (w.getCall r.request.token).bind fun c => w.read c r
  | .fnReturns token value, w => (w.getCall token).bind fun c => match c.phase with
    | .acting => some ((w.goto c (.completing value)).send (c.request (.complete value)))
    | _ => none
  | .fail token, w => (w.getCall token).map fun c => w.goto c .failed

end OnceState

def onceSystem (G : Guards) (settings : Settings) : Machine OnceState OnceAction :=
  ⟨OnceState.step G settings⟩

end Crewquarters
