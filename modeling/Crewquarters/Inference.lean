import Crewquarters.Keyed

/-!
# Inference requests

`llm_chat` of the model gateway and the parts of `inference.py` behind it, from one await to the
next: a request claims its key, reserves its estimate, has its budgets checked, obtains an adapter
and calls the provider. `chat()` gives its reservation back when the provider has answered and then
records the usage; `stream()` records first and gives back when its generator ends.

A prepared stream is not begun before the response's body is iterated. If that never happens, the
generator never runs and neither does its `finally`.
-/

namespace Crewquarters

abbrev Holder := String × String

/-- A row of `llm_usage`; `tokens` are its input and output tokens. -/
structure LlmUsage where
  provider : String
  holder : Holder
  tokens : ℕ
  day : ℕ

structure ChatRequest where
  messages : List String
  maxOutputTokens : ℕ

def ChatRequest.estimate (r : ChatRequest) : ℕ :=
  (r.messages.map String.length).sum / 4 + r.maxOutputTokens

/-- The budgets of a provider profile, as `CloudProfile.budget` gives them. -/
structure CloudProfile where
  perRunTokens : Option ℕ
  dailyTokens : Option ℕ

structure InferenceSettings where
  perRunTokenLimit : ℕ
  dailyCloudTokenBudget : ℕ
  idempotencyTtlSeconds : ℚ
  idempotencyMaxEntries : ℕ

/-! ## Budgets -/

inductive BudgetScope where
  | run
  | runProvider
  | daily
deriving DecidableEq

/-- One of the comparisons of `_check_budgets`. -/
structure BudgetCheck where
  scope : BudgetScope
  limit : ℕ

def cloudProviders : List String := ["openai", "anthropic"]

def BudgetCheck.error (provider : String) (check : BudgetCheck) : PlatformError :=
  match check.scope with
  | .run => ⟨"RUN_TOKEN_BUDGET_EXCEEDED", "This run has used its token budget.", 429, []⟩
  | .runProvider =>
    ⟨"RUN_TOKEN_BUDGET_EXCEEDED", s!"This run has used its {provider} token budget.", 429,
      [("provider", .str provider), ("limit", .str "perRunTokens")]⟩
  | .daily =>
    ⟨"CLOUD_BUDGET_EXCEEDED", s!"Today's {provider} token budget is used up.", 429,
      [("provider", .str provider), ("limit", .str "dailyTokens")]⟩

/-- The comparisons `_check_budgets` makes, in order. -/
def budgetChecks (settings : InferenceSettings) (holder : Holder) (provider : String)
    (cloud : Option CloudProfile) : List BudgetCheck :=
  let ofRun := fun check : BudgetCheck => if holder.1 = "run" then [check] else []
  let limits := (settings.dailyCloudTokenBudget
    :: (cloud.bind CloudProfile.dailyTokens).toList).filter fun n => 0 < n
  ofRun ⟨.run, settings.perRunTokenLimit⟩
    ++ if provider ∈ cloudProviders then
      ((cloud.bind CloudProfile.perRunTokens).toList.flatMap fun n => ofRun ⟨.runProvider, n⟩)
        ++ limits.min?.toList.map fun n => ⟨.daily, n⟩
    else []

/-! ## Requests -/

inductive LlmPhase where
  /-- nothing is reserved yet -/
  | arriving
  /-- awaits the sum of the recorded usage -/
  | reading (check : BudgetCheck) (rest : List BudgetCheck)
  /-- has it, and will compare it with the reservations -/
  | comparing (check : BudgetCheck) (rest : List BudgetCheck) (used : ℕ)
  /-- awaits the adapter -/
  | adapting
  /-- `chat()` awaits the provider -/
  | calling
  /-- `chat()` awaits the record of an error -/
  | failing
  /-- `chat()` has given its reservation back and awaits the record of the usage -/
  | recording (tokens : ℕ)
  /-- `prepare()` returned to a streaming request -/
  | prepared
  /-- whose response was dropped before its body was iterated -/
  | dropped
  /-- `stream()` awaits the provider or is suspended at an event -/
  | streaming
  /-- `stream()` awaits the record of the usage -/
  | finishing (tokens : ℕ)
  /-- `stream()` awaits the record of what it has streamed -/
  | cutShort (tokens : ℕ)
  /-- `stream()` has recorded, and is suspended at its last event -/
  | finished
  /-- `stream()` has ended, and the key is still claimed -/
  | closing
  | ended

namespace LlmPhase

def held : LlmPhase → Bool
  | reading .. | comparing .. | adapting | calling | failing | prepared | dropped | streaming
  | finishing _ | cutShort _ | finished => true
  | arriving | recording _ | closing | ended => false

/-- An exception or a cancellation can end the request here. -/
def stops : LlmPhase → Bool
  | arriving | reading .. | comparing .. | adapting | calling | failing | recording _ | streaming
  | finishing _ | cutShort _ => true
  | prepared | dropped | finished | closing | ended => false

def isOver : LlmPhase → Bool
  | dropped | ended => true
  | arriving | reading .. | comparing .. | adapting | calling | failing | recording _ | prepared
  | streaming | finishing _ | cutShort _ | finished | closing => false

/-- The next comparison, or the adapter if there is none. -/
def checking : List BudgetCheck → LlmPhase
  | [] => adapting
  | check :: rest => reading check rest

end LlmPhase

/-- A request that executes. `claim` is its number in the idempotency store while it has one; `sent`
and `recorded` say whether the provider was called and how many tokens its rows have. -/
structure LlmRequest where
  id : ℕ
  streaming : Bool
  holder : Holder
  estimate : ℕ
  provider : String
  claim : Option ℕ
  sent : Bool
  recorded : Option ℕ
  phase : LlmPhase

def LlmRequest.reserved (r : LlmRequest) : ℕ := if r.phase.held then r.estimate else 0

@[ext]
structure Inference where
  reserved : Holder → ℤ
  reservedProvider : String → ℤ
  usage : List LlmUsage
  today : ℕ
  store : Keyed
  requests : List LlmRequest

inductive LlmAction where
  /-- `llm_chat`, with the `idempotencyKey` and the fingerprint of the body if there is a key -/
  | arrive (streaming : Bool) (holder : Holder) (key : Option (String × String))
      (body : ChatRequest)
  | reserve (id : ℕ) (provider : String) (cloud : Option CloudProfile)
  | read (id : ℕ)
  | compare (id : ℕ)
  | adapt (id : ℕ)
  /-- the body of a prepared stream is iterated -/
  | start (id : ℕ)
  /-- or never will be -/
  | drop (id : ℕ)
  | result (id : ℕ) (tokens : ℕ)
  /-- the provider's answer to `chat()` is a platform error -/
  | fail (id : ℕ)
  /-- a platform error, a cancellation or a close of `stream()` -/
  | cut (id : ℕ) (tokens : ℕ)
  /-- `events()` is closed at an event, and the generator it iterates is not yet -/
  | disconnect (id : ℕ)
  /-- the awaited record is committed -/
  | record (id : ℕ) (outcome : CallOutcome)
  /-- `stream()` runs to its end -/
  | resume (id : ℕ)
  /-- another exception, or a cancellation -/
  | stop (id : ℕ) (outcome : CallOutcome)
  /-- the `finally` of `events()` -/
  | close (id : ℕ)
  | newDay
  /-- a request that waits for another with its key goes on, or time passes -/
  | keyed (action : KeyedAction)

namespace Inference

variable (settings : InferenceSettings)

def empty : Inference := ⟨fun _ => 0, fun _ => 0, [], 0, .empty, []⟩

def getRequest (id : ℕ) (s : Inference) : Option LlmRequest := Table.get LlmRequest.id id s.requests

def setRequest (r : LlmRequest) (s : Inference) : Inference :=
  { s with requests := Table.put LlmRequest.id r s.requests }

def goto (r : LlmRequest) (phase : LlmPhase) (s : Inference) : Inference :=
  s.setRequest { r with phase }

/-- `_reserve`, or `_unreserve` with the tokens negated. -/
def reserveTokens (holder : Holder) (provider : String) (tokens : ℤ) (s : Inference) : Inference :=
  { s with
    reserved := fun h => if h = holder then s.reserved h + tokens else s.reserved h
    reservedProvider := fun p =>
      if p = provider then s.reservedProvider p + tokens else s.reservedProvider p }

def unreserve (r : LlmRequest) (s : Inference) : Inference :=
  s.reserveTokens r.holder r.provider (-r.estimate)

def used (check : BudgetCheck) (r : LlmRequest) (s : Inference) : ℕ :=
  let counts := fun u : LlmUsage => match check.scope with
    | .run => u.holder = r.holder
    | .runProvider => u.holder = r.holder && u.provider = r.provider
    | .daily => u.provider = r.provider && u.day = s.today
  ((s.usage.filter counts).map LlmUsage.tokens).sum

def pending (check : BudgetCheck) (r : LlmRequest) (s : Inference) : ℤ :=
  match check.scope with
  | .run | .runProvider => s.reserved r.holder
  | .daily => s.reservedProvider r.provider

def record (r : LlmRequest) (tokens : ℕ) (s : Inference) : Inference :=
  { s with usage := s.usage ++ [⟨r.provider, r.holder, tokens, s.today⟩] }

def recordedBy (r : LlmRequest) (tokens : ℕ) : LlmRequest :=
  { r with recorded := some (r.recorded.getD 0 + tokens) }

/-- A step of the idempotency store, for the request's claim. -/
def onClaim (r : LlmRequest) (action : ℕ → KeyedAction) (s : Inference) : Inference :=
  match r.claim with
  | none => s
  | some claim =>
    { s with store := (Keyed.step settings.idempotencyTtlSeconds settings.idempotencyMaxEntries
        (action claim) s.store).getD s.store }

/-- The request leaves `chat()`, or `prepare()` and `stream()`. -/
def leave (r : LlmRequest) (outcome : CallOutcome) (s : Inference) : Inference :=
  if r.streaming then s.goto r .closing
  else (s.onClaim settings r fun claim => .finish claim outcome).goto r .ended

def push (streaming : Bool) (holder : Holder) (body : ChatRequest) (claim : Option ℕ)
    (s : Inference) : Inference :=
  { s with requests := s.requests
      ++ [⟨s.requests.length, streaming, holder, body.estimate, "", claim, false, none,
        .arriving⟩] }

/-- `claim_stream` for a stream, `run` for a call. -/
def enter (streaming : Bool) (key : RequestKey) (print : String) (store : Keyed) : Keyed :=
  if streaming then
    store.stream settings.idempotencyTtlSeconds settings.idempotencyMaxEntries key print
  else store.run settings.idempotencyMaxEntries key print

/-- `llm_chat`: a request with a key executes if the store lets it. -/
def arrive (streaming : Bool) (holder : Holder) (key : Option (String × String))
    (body : ChatRequest) (s : Inference) : Inference :=
  match key with
  | none => s.push streaming holder body none
  | some (raw, print) =>
    let claim := s.store.requests.length
    let store := enter settings streaming (holder.1, holder.2, raw) print s.store
    if (store.getRequest claim).any fun q => q.phase.executing then
      push streaming holder body (some claim) { s with store }
    else { s with store }

/-- The comparison of a check, with what was read before. -/
def compare (r : LlmRequest) (check : BudgetCheck) (rest : List BudgetCheck) (used : ℕ)
    (s : Inference) : Inference :=
  if (used : ℤ) + s.pending check r > check.limit then
    (s.unreserve r).leave settings r (.error (check.error r.provider))
  else s.goto r (.checking rest)

def onRequest (id : ℕ) (f : LlmRequest → Option Inference) (s : Inference) : Option Inference :=
  (s.getRequest id).bind f

def step : LlmAction → Inference → Option Inference
  | .arrive streaming holder key body, s => some (s.arrive settings streaming holder key body)
  | .reserve id provider cloud, s => s.onRequest id fun r => match r.phase with
    | .arriving => some ((s.reserveTokens r.holder provider r.estimate).goto { r with provider }
        (.checking (budgetChecks settings r.holder provider cloud)))
    | _ => none
  | .read id, s => s.onRequest id fun r => match r.phase with
    | .reading check rest => some (s.goto r (.comparing check rest (s.used check r)))
    | _ => none
  | .compare id, s => s.onRequest id fun r => match r.phase with
    | .comparing check rest used => some (s.compare settings r check rest used)
    | _ => none
  | .adapt id, s => s.onRequest id fun r => match r.phase with
    | .adapting => some (if r.streaming then s.goto r .prepared
        else s.goto { r with sent := true } .calling)
    | _ => none
  | .start id, s => s.onRequest id fun r => match r.phase with
    | .prepared => some (s.goto { r with sent := true } .streaming)
    | _ => none
  | .drop id, s => s.onRequest id fun r => match r.phase with
    | .prepared => some ((s.onClaim settings r .abandon).goto r .dropped)
    | _ => none
  | .result id tokens, s => s.onRequest id fun r => match r.phase with
    | .calling => some ((s.unreserve r).goto r (.recording tokens))
    | .streaming => some (s.goto r (.finishing tokens))
    | _ => none
  | .fail id, s => s.onRequest id fun r => match r.phase with
    | .calling => some (s.goto r .failing)
    | _ => none
  | .cut id tokens, s => s.onRequest id fun r => match r.phase with
    | .streaming | .finishing _ | .finished => some (s.goto r (.cutShort tokens))
    | _ => none
  | .disconnect id, s => s.onRequest id fun r => match r.phase with
    | .streaming | .finished =>
      some ((s.onClaim settings r .endStream).setRequest { r with claim := none })
    | _ => none
  | .record id outcome, s => s.onRequest id fun r => match r.phase with
    | .failing => some (((s.record r 0).unreserve r).leave settings (recordedBy r 0) outcome)
    | .recording tokens =>
      some ((s.record r tokens).leave settings (recordedBy r tokens) outcome)
    | .finishing tokens | .cutShort tokens =>
      some ((s.record r tokens).goto (recordedBy r tokens) .finished)
    | _ => none
  | .resume id, s => s.onRequest id fun r => match r.phase with
    | .finished => some ((s.unreserve r).goto r .closing)
    | _ => none
  | .stop id outcome, s => s.onRequest id fun r =>
    if r.phase.stops then
      some ((if r.phase.held then s.unreserve r else s).leave settings r outcome)
    else none
  | .close id, s => s.onRequest id fun r => match r.phase with
    | .closing => some ((s.onClaim settings r .endStream).goto r .ended)
    | _ => none
  | .newDay, s => some { s with today := s.today + 1 }
  | .keyed action, s => match action with
    | .advance _ | .wake _ | .cancel _ =>
      (Keyed.step settings.idempotencyTtlSeconds settings.idempotencyMaxEntries action s.store).map
        fun store => { s with store }
    | _ => none

end Inference

def inference (settings : InferenceSettings) : Machine Inference LlmAction :=
  ⟨Inference.step settings⟩

end Crewquarters
