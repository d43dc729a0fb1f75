import Crewquarters.SdkRedaction

/-!
# The outcome of a voice call

`outcome.py` of the `voice_caller` agent, and `_outcome` and `_write_row` of its `agent.py`.
-/

namespace Crewquarters

namespace VoiceCaller

inductive Disposition where
  | completed
  | declined
  | dnc
  | callback
  | voicemail
  | noAnswer
  | busy
  | failed
  | wrongPerson
deriving DecidableEq

inductive Interest where
  | high
  | medium
  | low
  | none
  | unknown
deriving DecidableEq

structure CallOutcome where
  disposition : Disposition
  interest : Interest := .unknown
  callbackRequested : Bool := false
  followUp : String := ""
  notes : String := ""
deriving DecidableEq

inductive Speaker where
  | agent
  | callee
deriving DecidableEq

structure Turn where
  speaker : Speaker
  text : String

def said (speaker : Speaker) (transcript : List Turn) : List String :=
  (transcript.filter (·.speaker = speaker)).map Turn.text

structure CallReport where
  answered : Bool
  endedBy : String
  finalState : String
  transcript : List Turn
  errorCode : Option String

/-! ## The do-not-call pattern -/

/-- The alternatives of `_DNC_RE`: the words of each group, and whether a `\b` is at the end. -/
def dncPhrases : List (List (List String) × Bool) :=
  [([["do not ", "don't ", "dont ", "never "], ["call ", "ring ", "contact "],
      ["me", "us", "this number"]], false),
    ([["stop calling"]], true),
    ([["remove "], ["me", "my number"]], true),
    ([["take "], ["me", "my number"], [" off"]], true),
    ([["put me on "], ["the ", "your "], ["do not call"]], true)]

def afterGroups (groups : List (List String)) (cs : List Char) : List (List Char) :=
  groups.foldl (fun rests group => rests.flatMap fun rest =>
    group.filterMap fun word => afterWord word.toList rest) [cs]

/-- `_DNC_RE.search`, after the character `previous`; `word` is `\w`. -/
def dncSearch (word : Char → Bool) (previous : Option Char) : List Char → Bool
  | [] => false
  | c :: cs => (!previous.any word && dncPhrases.any fun phrase =>
      (afterGroups phrase.1 (c :: cs)).any fun rest => !phrase.2 || !rest.head?.any word)
    || dncSearch word (some c) cs

def askedNotToBeCalled (word : Char → Bool) (transcript : List Turn) : Bool :=
  (said .callee transcript).any fun text => dncSearch word none text.toList

/-! ## The outcome -/

def outcomeForUnanswered (state : String) : CallOutcome where
  disposition :=
    if state = "busy" then .busy else if state = "no-answer" then .noAnswer else .failed

def outcomeForMachine (reason : String) : CallOutcome where
  disposition := .voicemail
  notes := "Hung up at a recording (" ++ reason ++ ")."

variable (D : Digits) (word : Char → Bool)

def reconcile (model : CallOutcome) (transcript : List Turn) : CallOutcome :=
  { model with
    disposition :=
      if askedNotToBeCalled word transcript then .dnc
      else if model.disposition ∈ [.noAnswer, .busy, .failed] ∧ said .callee transcript ≠ [] then
        .completed
      else model.disposition
    notes := .ofList ((Sdk.redactText D word model.notes).toList.take 300)
    followUp := .ofList ((Sdk.redactText D word model.followUp).toList.take 200) }

def machineReasons : List String := ["voicemail_reached", "ivr_reached"]

/-- What `ctx.llm.chat` comes to. -/
inductive Summary where
  | parsed (model : CallOutcome)
  | unparsed
  | platformError
  /-- Another exception, which `_outcome` does not catch. -/
  | raised
deriving DecidableEq

def Summary.model : Summary → Option CallOutcome
  | parsed model => some model
  | unparsed => some { disposition := .completed }
  | platformError => some { disposition := .completed, notes := "The call summary is unavailable." }
  | raised => none

/-- The last branch of `_outcome`; no error code is read as an empty one. -/
def endedEarly (code : String) (outcome : CallOutcome) : CallOutcome :=
  if code = "" then outcome
  else { outcome with disposition := .failed, notes := "The call ended early (" ++ code ++ ")." }

/-- `_outcome`, `none` if it raises. -/
def outcome (report : CallReport) (summary : Summary) : Option CallOutcome :=
  if !report.answered then some (outcomeForUnanswered report.finalState)
  else if report.endedBy ∈ machineReasons then some (outcomeForMachine report.endedBy)
  else if said .callee report.transcript = [] then
    some { disposition := .failed, notes := "Answered, but nothing was heard." }
  else summary.model.map fun model =>
    endedEarly (report.errorCode.getD "") (reconcile D word model report.transcript)

/-- The warning to the owner and the disposition in the row that `_write_row` writes. -/
def writeRow (outcome : CallOutcome) : Option String × Disposition :=
  (if outcome.disposition = .dnc then
      some "Asked not to be called again: set this contact's status to dnc" else none,
    outcome.disposition)

end VoiceCaller

end Crewquarters
