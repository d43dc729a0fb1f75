import Crewquarters.Rows
import Crewquarters.Lib.Machine

/-!
# The device owner

`bootstrap` of the control API and `_bootstrap_token` of `cq-admin`, as transactions under READ
COMMITTED from one statement to the next. Both lock the row of the setup code with `FOR UPDATE`: a
select that meets a locked row waits, and then gets what the row has become, or nothing if it was
deleted, even if there is a new row by then. The users are counted by a later statement, which sees
everything committed before it. Every row of the setup code has a number of its own (`life`).
-/

namespace Crewquarters

/-- `hash_token`, taken as free of collisions. -/
structure TokenDigest (η : Type*) where
  hash : String → η
  collisionFree : Function.Injective hash

/-- The row of `BOOTSTRAP_SETTING`. -/
structure TokenRow (η : Type*) where
  life : ℕ
  hash : η
  expiresAt : Time

def alreadyBootstrapped : PlatformError :=
  conflict "ALREADY_BOOTSTRAPPED" "The owner account already exists." []

def invalidBootstrapToken : PlatformError :=
  ⟨"INVALID_BOOTSTRAP_TOKEN", "The setup code is invalid or expired.", 403, []⟩

/-- What the select of a bootstrap got. For the record, `obtainedAt` is when, and `issuedBefore` the
number of tokens issued by then. -/
structure ObtainedRow (η : Type*) where
  row : Option (TokenRow η)
  obtainedAt : Time
  issuedBefore : ℕ

inductive BootstrapPhase (η : Type*) where
  | starting
  /-- the row with this number is locked -/
  | waiting (life : ℕ)
  | obtained (got : ObtainedRow η)
  /-- and there is no user -/
  | counted (got : ObtainedRow η)
  /-- has inserted the user and deleted the row -/
  | flushed (row : TokenRow η) (obtainedAt : Time) (issuedBefore : ℕ)
  | ended (reply : Except PlatformError Unit)
  | aborted

inductive IssuePhase where
  | starting
  /-- there is no user, and a token is drawn -/
  | drawn
  | waiting (life : ℕ)
  | obtained (life : Option ℕ)
  | inserted
  | updated (life : ℕ)
  | ended
  | aborted

structure BootstrapRequest (η : Type*) where
  token : String
  phase : BootstrapPhase η

structure TokenIssuance where
  token : String
  expiresAt : Time

inductive SetupTask (η : Type*) where
  | bootstrap (r : BootstrapRequest η)
  | issue (i : TokenIssuance) (phase : IssuePhase)

namespace SetupTask

variable {η : Type*}

def locks : SetupTask η → Option ℕ
  | bootstrap ⟨_, .obtained got⟩ | bootstrap ⟨_, .counted got⟩ => got.row.map (·.life)
  | bootstrap ⟨_, .flushed row _ _⟩ => some row.life
  | bootstrap _ => none
  | issue _ (.obtained life) => life
  | issue _ (.updated life) => some life
  | issue _ _ => none

def deletes : SetupTask η → Bool
  | bootstrap ⟨_, .flushed ..⟩ => true
  | _ => false

def inserts : SetupTask η → Bool
  | issue _ .inserted => true
  | _ => false

end SetupTask

structure SetupSuccess where
  token : String
  obtainedAt : Time
  issuedBefore : ℕ

/-- `users` is their number; `lives` that of the rows there have been. For the record, `issued` are
the tokens issued, in the order of their commits. -/
structure Setup (η : Type*) where
  now : Time
  users : ℕ
  row : Option (TokenRow η)
  lives : ℕ
  tasks : List (SetupTask η)
  issued : List TokenIssuance
  successes : List SetupSuccess

inductive SetupAction where
  | advance (seconds : ℚ)
  | request (token : String)
  | issue
  /-- an issuance counts the users and draws a token -/
  | draw (n : ℕ) (token : String) (ttlHours : ℚ)
  | select (n : ℕ)
  | wake (n : ℕ)
  | count (n : ℕ)
  | check (n : ℕ)
  | write (n : ℕ)
  | commit (n : ℕ)
  | abort (n : ℕ)

namespace Setup

variable {η : Type*}

def start (now : Time) : Setup η := ⟨now, 0, none, 0, [], [], []⟩

def goto (n : ℕ) (t : SetupTask η) (s : Setup η) : Setup η := { s with tasks := s.tasks.set n t }

def locked (life : ℕ) (s : Setup η) : Bool := s.tasks.any fun t => t.locks = some life

def receive (n : ℕ) (row : Option (TokenRow η)) (s : Setup η) : SetupTask η → Setup η
  | .bootstrap r => s.goto n (.bootstrap { r with
      phase := .obtained ⟨row, s.now, s.issued.length⟩ })
  | .issue i _ => s.goto n (.issue i (.obtained (row.map (·.life))))

def await (n life : ℕ) (s : Setup η) : SetupTask η → Setup η
  | .bootstrap r => s.goto n (.bootstrap { r with phase := .waiting life })
  | .issue i _ => s.goto n (.issue i (.waiting life))

def selectRow (n : ℕ) (t : SetupTask η) (s : Setup η) : Setup η :=
  match s.row with
  | none => s.receive n none t
  | some row => if s.locked row.life then s.await n row.life t else s.receive n (some row) t

def wake (n life : ℕ) (t : SetupTask η) (s : Setup η) : Option (Setup η) :=
  match s.row.filter (fun row => row.life = life) with
  | none => some (s.receive n none t)
  | some row => if s.locked life then none else some (s.receive n (some row) t)

section Bootstrap

variable (n : ℕ) (r : BootstrapRequest η)

def onward (phase : BootstrapPhase η) (s : Setup η) : Setup η :=
  s.goto n (.bootstrap { r with phase })

def count (got : ObtainedRow η) (s : Setup η) : Setup η :=
  if s.users ≠ 0 then s.onward n r (.ended (.error alreadyBootstrapped))
  else s.onward n r (.counted got)

/-- `valid`, and what comes of it up to the commit. -/
def check [DecidableEq η] (H : TokenDigest η) (got : ObtainedRow η) (s : Setup η) : Setup η :=
  match got.row with
  | none => s.onward n r (.ended (.error invalidBootstrapToken))
  | some row =>
    if s.now < row.expiresAt ∧ row.hash = H.hash r.token then
      s.onward n r (.flushed row got.obtainedAt got.issuedBefore)
    else s.onward n r (.ended (.error invalidBootstrapToken))

def commitOwner (obtainedAt : Time) (issuedBefore : ℕ) (s : Setup η) : Setup η :=
  onward n r (.ended (.ok ())) { s with
    users := s.users + 1
    row := none
    successes := s.successes ++ [⟨r.token, obtainedAt, issuedBefore⟩] }

end Bootstrap

section Issue

variable (n : ℕ) (i : TokenIssuance)

def draw (token : String) (ttlHours : ℚ) (s : Setup η) : Setup η :=
  if s.users ≠ 0 then s.goto n (.issue i .ended)
  else s.goto n (.issue ⟨token, s.now + ttlHours * 3600⟩ .drawn)

/-- An insert waits for one that is not committed, or for the deletion of the row that is there, and
fails if there is a row. -/
def write (life : Option ℕ) (s : Setup η) : Option (Setup η) :=
  match life, s.row with
  | some life, _ => some (s.goto n (.issue i (.updated life)))
  | none, none =>
    if s.tasks.any SetupTask.inserts then none else some (s.goto n (.issue i .inserted))
  | none, some row =>
    if s.tasks.any (fun t => t.deletes && t.locks = some row.life) then none
    else some (s.goto n (.issue i .aborted))

def commitToken (H : TokenDigest η) (life : ℕ) (s : Setup η) : Setup η :=
  goto n (.issue i .ended) { s with
    row := some ⟨life, H.hash i.token, i.expiresAt⟩
    issued := s.issued ++ [i] }

end Issue

variable [DecidableEq η] (H : TokenDigest η)

def onSelect (n : ℕ) (s : Setup η) : SetupTask η → Option (Setup η)
  | .bootstrap ⟨token, .starting⟩ => some (s.selectRow n (.bootstrap ⟨token, .starting⟩))
  | .issue i .drawn => some (s.selectRow n (.issue i .drawn))
  | _ => none

def onWake (n : ℕ) (s : Setup η) : SetupTask η → Option (Setup η)
  | .bootstrap ⟨token, .waiting life⟩ => s.wake n life (.bootstrap ⟨token, .waiting life⟩)
  | .issue i (.waiting life) => s.wake n life (.issue i (.waiting life))
  | _ => none

def onCommit (n : ℕ) (s : Setup η) : SetupTask η → Option (Setup η)
  | .bootstrap ⟨token, .flushed row obtainedAt issuedBefore⟩ =>
    some (s.commitOwner n ⟨token, .flushed row obtainedAt issuedBefore⟩ obtainedAt issuedBefore)
  | .issue i .inserted => some (commitToken n i H s.lives { s with lives := s.lives + 1 })
  | .issue i (.updated life) => some (s.commitToken n i H life)
  | _ => none

def onAbort (n : ℕ) (s : Setup η) : SetupTask η → Option (Setup η)
  | .bootstrap ⟨_, .ended _⟩ => none
  | .bootstrap r => some (s.onward n r .aborted)
  | .issue _ .ended => none
  | .issue i _ => some (s.goto n (.issue i .aborted))

def step : SetupAction → Setup η → Option (Setup η)
  | .advance seconds, s => if 0 ≤ seconds then some { s with now := s.now + seconds } else none
  | .request token, s => some { s with tasks := s.tasks ++ [.bootstrap ⟨token, .starting⟩] }
  | .issue, s => some { s with tasks := s.tasks ++ [.issue ⟨"", s.now⟩ .starting] }
  | .draw n token ttlHours, s => (s.tasks[n]?).bind fun t => match t with
    | .issue i .starting => some (s.draw n i token ttlHours)
    | _ => none
  | .select n, s => (s.tasks[n]?).bind (s.onSelect n)
  | .wake n, s => (s.tasks[n]?).bind (s.onWake n)
  | .count n, s => (s.tasks[n]?).bind fun t => match t with
    | .bootstrap ⟨token, .obtained got⟩ => some (s.count n ⟨token, .obtained got⟩ got)
    | _ => none
  | .check n, s => (s.tasks[n]?).bind fun t => match t with
    | .bootstrap ⟨token, .counted got⟩ => some (s.check n ⟨token, .counted got⟩ H got)
    | _ => none
  | .write n, s => (s.tasks[n]?).bind fun t => match t with
    | .issue i (.obtained life) => s.write n i life
    | _ => none
  | .commit n, s => (s.tasks[n]?).bind (s.onCommit H n)
  | .abort n, s => (s.tasks[n]?).bind (s.onAbort n)

def machine : Machine (Setup η) SetupAction := ⟨step H⟩

end Setup

end Crewquarters
