import Crewquarters.Operations
import Crewquarters.Cron

/-!
# The scheduler

`scheduler.py`: a tick fires the schedules that are due, in one transaction. Next to it, the owner
creates, changes and deletes schedules, and every other transaction on runs goes on.
-/

namespace Crewquarters

/-- A version, with its agent and what the control API reads of `manifest["spec"]["triggers"]`. -/
structure CatalogVersion extends AgentVersion where
  agentId : String
  triggers : List String

structure OwnedInstallation extends AgentInstallation where
  userId : UserId
  agentId : String

inductive MisfirePolicy where
  | fireOnce
  | skip
deriving DecidableEq, Repr

structure Schedule where
  id : ScheduleId
  installationId : InstallationId
  cron : Expression
  timezone : String
  nextRunAt : Option Time
  misfirePolicy : MisfirePolicy
  enabled : Bool
  lastFiredAt : Option Time
  lastRunId : Option RunId
  version : ℕ
  deletedAt : Option Time

/-- What the scheduler writes to the audit log, with its metadata. -/
inductive ScheduleRecord where
  | misfireSkipped (scheduleId : ScheduleId) (missedFrom missedThrough : Time)
  /-- the installation is unavailable -/
  | skipped (scheduleId : ScheduleId) (scheduledFor : Time)
  | misfireFiredOnce (scheduleId : ScheduleId) (missedFrom firedFor : Time)

inductive FireOutcome where
  | fired
  | duplicate
  | misfireSkipped
  | installationUnavailable
deriving DecidableEq, Repr

structure FireResult where
  scheduleId : ScheduleId
  scheduledFor : Time
  runId : Option RunId
  outcome : FireOutcome

structure Scheduling where
  db : Db
  schedules : List Schedule
  installations : List OwnedInstallation
  versions : List CatalogVersion
  audit : List ScheduleRecord

/-- `SchedulePatchIn`. -/
structure SchedulePatch where
  version : ℕ
  cron : Option Expression
  timezone : Option String
  misfirePolicy : Option MisfirePolicy
  enabled : Option Bool

inductive ScheduleAction where
  /-- a tick at `now`, while others hold the locks of some rows; `clk` are the readings of each
  `create_run` -/
  | tick (now : Time) (locked : List ScheduleId) (clk : ScheduleId → Clock)
  | create (now : Time) (user : UserId) (installationId : InstallationId) (cron : Expression)
      (timezone : String) (misfirePolicy : MisfirePolicy) (enabled : Bool)
  | update (now : Time) (user : UserId) (id : ScheduleId) (patch : SchedulePatch)
  | delete (now : Time) (user : UserId) (id : ScheduleId)
  /-- any other transaction on runs -/
  | transact (clk : Clock) (op : DbOp)
  | publish (version : CatalogVersion)
  | install (installation : OwnedInstallation)
  | change (installation : OwnedInstallation)

namespace Scheduling

variable (zones : String → Option Zone) (grace : ℕ)

def getSchedule (id : ScheduleId) (s : Scheduling) : Option Schedule :=
  Table.get Schedule.id id s.schedules

def setSchedule (r : Schedule) (s : Scheduling) : Scheduling :=
  { s with schedules := Table.put Schedule.id r s.schedules }

def getInstallation (id : InstallationId) (s : Scheduling) : Option OwnedInstallation :=
  Table.get (fun i : OwnedInstallation => i.id) id s.installations

def getVersion (id : VersionId) (s : Scheduling) : Option CatalogVersion :=
  Table.get (fun v : CatalogVersion => v.id) id s.versions

/-- `audit.record`. -/
def record (r : ScheduleRecord) (s : Scheduling) : Scheduling := { s with audit := s.audit ++ [r] }

def due (now : Time) (locked : List ScheduleId) (s : Scheduling) : List Schedule :=
  ((s.schedules.filter fun r => r.enabled && r.deletedAt.isNone && r.nextRunAt.any (· ≤ now)
    && r.id ∉ locked).mergeSort fun a b => a.nextRunAt.getD 0 ≤ b.nextRunAt.getD 0).take 100

/-- The rest of `_fire`, once the row has its next `next_run_at`. -/
def fireRun (clk : Clock) (now : Time) (late : Bool) (dueAt scheduledFor : Time) (r : Schedule)
    (s : Scheduling) : Except JobError (FireResult × Scheduling) :=
  match s.getInstallation r.installationId with
  | none => unavailable
  | some installation =>
    if installation.unready then unavailable
    else match s.getVersion installation.agentVersionId with
      | none => .error (.unexpected "AssertionError")
      | some version => do
        let created ← s.db.createRun clk installation.toAgentInstallation version.toAgentVersion
          .schedule none (some r.id) (some scheduledFor) none none none
        let r := { r with lastFiredAt := some now, lastRunId := some created.1.1 }
        let s := setSchedule r { s with db := created.2 }
        let s := if late then s.record (.misfireFiredOnce r.id dueAt scheduledFor) else s
        let outcome := if created.1.2 then FireOutcome.fired else .duplicate
        .ok (⟨r.id, scheduledFor, some created.1.1, outcome⟩, s)
where
  unavailable : Except JobError (FireResult × Scheduling) :=
    .ok (⟨r.id, scheduledFor, none, .installationUnavailable⟩,
      s.record (.skipped r.id scheduledFor))

def firedFor (now dueAt : Time) (late : Bool) (r : Schedule) : Except PlatformError Time :=
  if late then latestOccurrenceAtOrBefore zones r.cron r.timezone dueAt now else .ok dueAt

def fire (clk : Clock) (now : Time) (r : Schedule) (s : Scheduling) :
    Except JobError (FireResult × Scheduling) :=
  match r.nextRunAt with
  | none => .error (.unexpected "AssertionError")
  | some dueAt => do
    let late := decide ((grace : Time) < now - dueAt)
    let scheduledFor ← raising (firedFor zones now dueAt late r)
    let next ← raising (nextOccurrence zones r.cron r.timezone
      (if late then now else scheduledFor))
    let r := { r with nextRunAt := some next }
    let s := s.setSchedule r
    if late && r.misfirePolicy = .skip then
      .ok (⟨r.id, scheduledFor, none, .misfireSkipped⟩,
        s.record (.misfireSkipped r.id dueAt scheduledFor))
    else s.fireRun clk now late dueAt scheduledFor r

def tick (now : Time) (locked : List ScheduleId) (clk : ScheduleId → Clock) (s : Scheduling) :
    Except JobError (List FireResult × Scheduling) :=
  (s.due now locked).foldlM (fun (results, s) r => do
    let (result, s) ← s.fire zones grace (clk r.id) now r
    .ok (results ++ [result], s)) ([], s)

/-- `_installation`. -/
def ownInstallation (id : InstallationId) (user : UserId) (s : Scheduling) :
    Except PlatformError OwnedInstallation :=
  match s.getInstallation id with
  | some i =>
    if i.userId = user ∧ i.deletedAt.isNone then .ok i else .error (notFound "Installation" id)
  | none => .error (notFound "Installation" id)

/-- `_schedule`. -/
def ownSchedule (id : ScheduleId) (user : UserId) (s : Scheduling) :
    Except PlatformError Schedule :=
  match s.getSchedule id with
  | some r =>
    if r.deletedAt.isNone ∧ (s.getInstallation r.installationId).any fun i => i.userId = user
    then .ok r
    else .error (notFound "Schedule" id)
  | none => .error (notFound "Schedule" id)

/-- `next_occurrence(.., utcnow()) if enabled else None`. -/
def firstRun (now : Time) (cron : Expression) (timezone : String) (enabled : Bool) :
    Except PlatformError (Option Time) :=
  if enabled then (nextOccurrence zones cron timezone now).map some else .ok none

def createSchedule (now : Time) (user : UserId) (installationId : InstallationId)
    (cron : Expression) (timezone : String) (misfirePolicy : MisfirePolicy) (enabled : Bool)
    (s : Scheduling) : Except JobError Scheduling := do
  let installation ← raising (s.ownInstallation installationId user)
  match s.getVersion installation.agentVersionId with
  | none => .error (.unexpected "AssertionError")
  | some version =>
    if "schedule" ∉ version.triggers then
      .error (.platform (conflict "TRIGGER_NOT_SUPPORTED" "This agent cannot be scheduled." []))
    else do
      let _ ← raising (validateTimezone zones timezone)
      let nextRunAt ← raising (firstRun zones now cron timezone enabled)
      .ok { s with schedules := s.schedules ++ [⟨s.schedules.length, installation.id, cron,
        timezone, nextRunAt, misfirePolicy, enabled, none, none, 1, none⟩] }

/-- The row with the fields of the patch, and whether `next_run_at` is to be set. -/
def patched (patch : SchedulePatch) (r : Schedule) : Schedule × Bool :=
  ({ r with
      cron := patch.cron.getD r.cron
      timezone := patch.timezone.getD r.timezone
      misfirePolicy := patch.misfirePolicy.getD r.misfirePolicy
      enabled := patch.enabled.getD r.enabled
      version := r.version + 1 },
    patch.cron.isSome || patch.timezone.isSome || patch.enabled.isSome)

def updateSchedule (now : Time) (user : UserId) (id : ScheduleId) (patch : SchedulePatch)
    (s : Scheduling) : Except JobError Scheduling := do
  let r ← raising (s.ownSchedule id user)
  if r.version ≠ patch.version then
    .error (.platform (conflict "VERSION_CONFLICT" "The schedule changed; reload it."
      [("currentVersion", .num r.version)]))
  else do
    let _ ← raising ((patch.timezone.map (validateTimezone zones)).getD (.ok .utc))
    let (r, reset) := patched patch r
    if reset then do
      let nextRunAt ← raising (firstRun zones now r.cron r.timezone r.enabled)
      .ok (s.setSchedule { r with nextRunAt })
    else .ok (s.setSchedule r)

def deleteSchedule (now : Time) (user : UserId) (id : ScheduleId) (s : Scheduling) :
    Except JobError Scheduling := do
  let r ← raising (s.ownSchedule id user)
  .ok (s.setSchedule { r with deletedAt := some now, enabled := false, nextRunAt := none })

def unscheduled : DbOp → Bool
  | .client (.createRun _ _ _ _ schedule _ _ _ _) => schedule.isNone
  | _ => true

def commit (x : Except JobError Scheduling) (s : Scheduling) : Scheduling :=
  match x with
  | .ok t => t
  | .error _ => s

def step (G : Guards) : ScheduleAction → Scheduling → Option Scheduling
  | .tick now locked clk, s => some (s.commit ((s.tick zones grace now locked clk).map Prod.snd))
  | .create now user installationId cron timezone misfirePolicy enabled, s =>
    some (s.commit (s.createSchedule zones now user installationId cron timezone misfirePolicy
      enabled))
  | .update now user id patch, s => some (s.commit (s.updateSchedule zones now user id patch))
  | .delete now user id, s => some (s.commit (s.deleteSchedule now user id))
  | .transact clk op, s =>
    if unscheduled op then some { s with db := s.db.commit G clk op } else none
  | .publish version, s => some { s with versions := s.versions ++ [version] }
  | .install i, s => some { s with installations := s.installations ++ [i] }
  | .change i, s => some { s with
      installations := Table.put (fun i : OwnedInstallation => i.id) i s.installations }

end Scheduling

/-- The scheduler, the owner's endpoints and everything else that writes runs. -/
def scheduling (zones : String → Option Zone) (grace : ℕ) (G : Guards) :
    Machine Scheduling ScheduleAction :=
  ⟨Scheduling.step zones grace G⟩

end Crewquarters
