import Mathlib.Data.List.TakeWhile
import Mathlib.Tactic

/-!
# The sign-in limiter

`RateLimiter` of the control API's `security.py`, with the times at which it is called.
-/

namespace Crewquarters

structure RateLimiter where
  limit : ℕ
  window : ℚ

/-- The limiter's `_hits`; for the record, the times of the calls it allowed. -/
structure Limiting (κ : Type*) where
  hits : κ → List ℚ
  granted : κ → List ℚ

namespace RateLimiter

variable {κ : Type*} [DecidableEq κ] (L : RateLimiter)

/-- The hits that are left when those out of the window are popped. -/
def kept (now : ℚ) (hits : List ℚ) : List ℚ := hits.dropWhile fun hit => L.window < now - hit

def allow (key : κ) (now : ℚ) (s : Limiting κ) : Bool × Limiting κ :=
  let hits := L.kept now (s.hits key)
  if L.limit ≤ hits.length then (false, { s with hits := Function.update s.hits key hits })
  else (true, ⟨Function.update s.hits key (hits ++ [now]),
    Function.update s.granted key (s.granted key ++ [now])⟩)

/-- `int` of a number. -/
def truncate (q : ℚ) : ℤ := if 0 ≤ q then ⌊q⌋ else ⌈q⌉

def retryAfter (key : κ) (now : ℚ) (s : Limiting κ) : ℤ :=
  match s.hits key with
  | [] => 0
  | first :: _ => max 1 (truncate (L.window - (now - first)) + 1)

/-- The limiter after calls with these keys at these times. -/
def served (calls : List (κ × ℚ)) : Limiting κ :=
  calls.foldl (fun s call => (L.allow call.1 call.2 s).2) ⟨fun _ => [], fun _ => []⟩

def allowed (calls : List (κ × ℚ)) (key : κ) (now : ℚ) : Bool :=
  (L.allow key now (L.served calls)).1

end RateLimiter

end Crewquarters
