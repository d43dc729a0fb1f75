import Crewquarters.OwnerCalls

/-!
# Test calls

`test_call` of `twilio.py` in the capability broker up to its dial request, from one await to the
next. `dials` are the dial requests that were sent, each with the request that sent it and the time
at which that request passed the interval check.
-/

namespace Crewquarters

inductive TestCallPhase where
  | refused
  | rateLimited
  /-- It awaits its credentials; `before` dial requests were sent when it passed the check. -/
  | loading (checked : ℚ) (before : ℕ)
  | failed
  | dialed (checked : ℚ)
deriving DecidableEq

structure TestCalls where
  clock : ℚ
  lastTestCall : ℚ
  requests : List TestCallPhase
  dials : List (ℕ × ℚ)
deriving DecidableEq

inductive TestCallAction where
  /-- A request whose destination is checked, at a time. -/
  | arrive (destination : Bool) (now : ℚ)
  /-- `_credentials` returns, or raises. -/
  | credentials (n : ℕ) (found : Bool)
  | cancel (n : ℕ)

namespace TestCalls

def init (start : ℚ) : TestCalls := ⟨start, -testCallIntervalSeconds, [], []⟩

/-- What a request becomes in `test_call` before its first await. -/
def checked (s : TestCalls) (destination : Bool) (now : ℚ) : TestCallPhase :=
  if !destination then .refused
  else if now - s.lastTestCall < testCallIntervalSeconds then .rateLimited
  else .loading now s.dials.length

def step : TestCallAction → TestCalls → Option TestCalls
  | .arrive destination now, s =>
    if now < s.clock then none
    else some { s with clock := now, requests := s.requests ++ [s.checked destination now] }
  | .credentials n found, s =>
    match s.requests[n]? with
    | some (.loading checked _) =>
      if found then some { s with
        lastTestCall := checked
        requests := s.requests.set n (.dialed checked)
        dials := s.dials ++ [(n, checked)] }
      else some { s with requests := s.requests.set n .failed }
    | _ => none
  | .cancel n, s =>
    match s.requests[n]? with
    | some (.loading _ _) => some { s with requests := s.requests.set n .failed }
    | _ => none

def machine : Machine TestCalls TestCallAction := ⟨step⟩

end TestCalls

end Crewquarters
