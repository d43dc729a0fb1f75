import Crewquarters.Lib.Machine

/-!
# Chat replies

The body of the response of `send_message` in `chat.py` of the control API, from the commit of the
assistant's message, whose status is then `streaming`, to the end of the request. `stream` is a
generator: it stands at one of its `yield`s and `await`s until it is resumed there, or until
something is raised there. Of what it sends only the place is kept.
-/

namespace Crewquarters

namespace ChatStream

inductive ReplyStatus where
  | streaming
  | complete
  | stopped
  | failed
deriving DecidableEq

inductive GatewayEvent where
  | delta (text : String)
  | done (text : Option String)
  | error
deriving DecidableEq

/-- The variables of the loop over the gateway's events. -/
structure Reply where
  parts : List String := []
  status : ReplyStatus := .failed
  finalText : Option String := none
deriving DecidableEq

def Reply.receive (reply : Reply) : GatewayEvent → Reply
  | .delta text => { reply with parts := reply.parts ++ [text] }
  | .done text => { reply with status := .complete, finalText := text }
  | .error => reply

/-- Status and content of a message. -/
abbrev Message := ReplyStatus × String

def asCommitted : Message := (.streaming, "")

/-- `rag.NOT_FOUND_ANSWER`. -/
def notFoundAnswer : String := "I could not find this in the knowledge base."

/-- Where `stream` stands. -/
inductive Point where
  /-- its caller has not asked for the first event -/
  | unstarted
  /-- `yield _sse("message", …)` -/
  | message
  /-- `yield _sse("delta", …)` of a local answer -/
  | localDelta
  /-- `await _finish(…)` of a local answer -/
  | localFinish
  /-- `async for event in gateway.chat_stream(…)` -/
  | gateway
  /-- `yield _sse("delta", …)` in the loop -/
  | delta
  /-- `await _finish(…)` under `except BaseException` -/
  | stopping
  /-- `await _finish(…)` after the loop -/
  | finishing
  /-- the `yield` of the `done` or `error` event -/
  | last
  | ended
deriving DecidableEq

/-- Is this inside of the `try`? -/
def Point.inTry : Point → Bool
  | .gateway | .delta => true
  | _ => false

inductive Input where
  /-- The client takes what was sent, or what is awaited returns. -/
  | resume
  | event (event : GatewayEvent)
  /-- The gateway's events end. -/
  | exhausted
  /-- The gateway raises a `PlatformError`. -/
  | platformError
  /-- Anything else is raised: the client closes, or the request is cancelled. -/
  | interrupt
deriving DecidableEq

structure Chat where
  answerLocally : Bool
  point : Point := .unstarted
  reply : Reply := {}
  /-- the assistant's message in the database -/
  stored : Message := asCommitted
  /-- what the gateway has sent -/
  events : List GatewayEvent := []
deriving DecidableEq

namespace Chat

/-- The commit of `_finish`. Its transaction is rolled back if it is interrupted. -/
def finish (c : Chat) (text : String) (status : ReplyStatus) (next : Point) : Chat :=
  { c with stored := (status, text), point := next }

def receive (c : Chat) (event : GatewayEvent) : Chat where
  answerLocally := c.answerLocally
  point := match event with
    | .delta _ => .delta
    | .done _ | .error => .gateway
  reply := c.reply.receive event
  stored := c.stored
  events := c.events ++ [event]

def resume (c : Chat) : Option Chat :=
  match c.point with
  | .unstarted => some { c with point := .message }
  | .message => some { c with point := if c.answerLocally then .localDelta else .gateway }
  | .localDelta => some { c with point := .localFinish }
  | .localFinish => some (c.finish notFoundAnswer .complete .last)
  | .delta => some { c with point := .gateway }
  | .stopping => some (c.finish (String.join c.reply.parts) .stopped .ended)
  | .finishing =>
    some (c.finish (c.reply.finalText.getD (String.join c.reply.parts)) c.reply.status .last)
  | .last => some { c with point := .ended }
  | .gateway | .ended => none

def step (c : Chat) : Input → Option Chat
  | .resume => c.resume
  | .event event => if c.point = .gateway then some (c.receive event) else none
  | .exhausted | .platformError =>
    if c.point = .gateway then some { c with point := .finishing } else none
  | .interrupt =>
    if c.point = .ended then none
    else some { c with point := if c.point.inTry then .stopping else .ended }

end Chat

def stream : Machine Chat Input := ⟨fun input c => c.step input⟩

end ChatStream

end Crewquarters
