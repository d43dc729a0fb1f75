import Crewquarters.Jobs
import Crewquarters.Json
import Crewquarters.Lib.Succession
import Crewquarters.Lib.WallClock

/-!
# Occurrences of a schedule

`cron.py`. `croniter` is the enumeration of the naive minutes that match an expression, and a
zone of `zoneinfo` the table of its transitions. A naive time is the number of seconds its wall
clock shows since the epoch.
-/

namespace Crewquarters

def minute : Time := 60

/-- `t.replace(second=0, microsecond=0)`. -/
def floorMinute (t : Time) : Time := minute * ⌊t / minute⌋

def IsMinute (t : Time) : Prop := floorMinute t = t

instance (t : Time) : Decidable (IsMinute t) := inferInstanceAs (Decidable (floorMinute t = t))

/-- A cron expression, by the minutes that match it and `croniter(expr, t).get_next()`. `none` is a
`CroniterBadDateError`. -/
structure Expression where
  matching : Set Time
  isMinute : ∀ m ∈ matching, IsMinute m
  getNext : Time → Option Time
  getNext_eq : ∀ t m, getNext t = some m ↔ NextIn matching t m

/-- A time zone. Its gaps are shorter than a day and end on a whole minute. -/
structure Zone where
  offset : Time
  transitions : List (Jump Time)
  apart : WallClock.Apart offset transitions
  gaps : ∀ gap ∈ WallClock.skipped offset transitions,
    IsMinute gap.2 ∧ gap.2 - gap.1 < 24 * 60 * minute

namespace Zone

def utc : Zone := ⟨0, [], trivial, nofun⟩

/-- `t.astimezone(zone).replace(tzinfo=None)`. -/
def toLocal (zone : Zone) (t : Time) : Time := WallClock.toLocal zone.offset zone.transitions t

/-- `naive.replace(tzinfo=zone, fold=0).astimezone(UTC)`. -/
def toUtc (zone : Zone) (naive : Time) : Time := WallClock.toUtc zone.offset zone.transitions naive

end Zone

def invalidTimezone (name : String) : PlatformError :=
  invalid "INVALID_TIMEZONE"
    "Use an IANA timezone name such as Asia/Kolkata; abbreviations are not accepted."
    [("timezone", .str name)]

/-- `zones` are those of `available_timezones()`. -/
def validateTimezone (zones : String → Option Zone) (name : String) : Except PlatformError Zone :=
  if name = "UTC" then .ok .utc
  else if '/' ∈ name.toList ∧ ¬ "Etc/".toList <+: name.toList then
    match zones name with
    | some zone => .ok zone
    | none => .error (invalidTimezone name)
  else .error (invalidTimezone name)

def isValidLocal (naive : Time) (zone : Zone) : Bool := zone.toLocal (zone.toUtc naive) = naive

/-- The loop of `_resolve_local`. -/
def probeLocal (zone : Zone) : ℕ → Time → Except PlatformError Time
  | 0, _ => .error (invalid "INVALID_SCHEDULE" "Could not resolve a valid local time." [])
  | n + 1, probe =>
    if isValidLocal probe zone then .ok (zone.toUtc probe)
    else probeLocal zone n (floorMinute probe + minute)

def resolveLocal (naive : Time) (zone : Zone) : Except PlatformError Time :=
  probeLocal zone (24 * 60) naive

def neverOccurs : PlatformError := invalid "INVALID_CRON" "This schedule never occurs." []

/-- The loop of `next_occurrence`; the iterator is at `naive`. -/
def searchFrom (expr : Expression) (zone : Zone) (after : Time) :
    ℕ → Time → Except PlatformError Time
  | 0, _ => .error (invalid "INVALID_SCHEDULE" "Schedule produced no future occurrence." [])
  | n + 1, naive =>
    match expr.getNext naive with
    | none => .error neverOccurs
    | some naive => do
      let candidate ← resolveLocal naive zone
      if after < candidate then .ok candidate else searchFrom expr zone after n naive

section

variable (zones : String → Option Zone) (expr : Expression) (timezone : String)

def nextOccurrence (after : Time) : Except PlatformError Time := do
  let zone ← validateTimezone zones timezone
  searchFrom expr zone after 10000 (zone.toLocal after)

def nextOccurrences (after : Time) : ℕ → Except PlatformError (List Time)
  | 0 => .ok []
  | n + 1 => do
    let cursor ← nextOccurrence zones expr timezone after
    let rest ← nextOccurrences cursor n
    .ok (cursor :: rest)

/-- The loop of `latest_occurrence_at_or_before`. -/
def latestFrom (now : Time) : ℕ → Time → Except PlatformError Time
  | 0, latest => .ok latest
  | n + 1, latest => do
    let nxt ← nextOccurrence zones expr timezone latest
    if now < nxt then .ok latest else latestFrom now n nxt

def latestOccurrenceAtOrBefore (start now : Time) : Except PlatformError Time :=
  latestFrom zones expr timezone now 100000 start

end

/-! ## The rule -/

namespace Zone

def Exists (zone : Zone) (naive : Time) : Prop := ∃ t, zone.toLocal t = naive

/-- When a local time fires: at its first instant, or that of the first minute after the gap it is
in. -/
inductive Fires (zone : Zone) (naive t : Time) : Prop where
  | existing (first : IsLeast {t | zone.toLocal t = naive} t)
  | nonexistent (gap : ¬ zone.Exists naive) (next : Time)
      (least : IsLeast {w | naive < w ∧ IsMinute w ∧ zone.Exists w} next)
      (first : IsLeast {t | zone.toLocal t = next} t)

def occurrences (zone : Zone) (expr : Expression) : Set Time :=
  {t | ∃ naive ∈ expr.matching, zone.Fires naive t}

/-- Fewer than 10 000 minutes match in any stretch of local time that is repeated. -/
def Sparse (zone : Zone) (expr : Expression) : Prop :=
  ∀ stretch ∈ WallClock.repeated zone.offset zone.transitions,
    {m | m ∈ expr.matching ∧ stretch.1 ≤ m ∧ m < stretch.2}.encard < 10000

end Zone

end Crewquarters
