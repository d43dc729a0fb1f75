import Mathlib.Data.Rat.Defs
import Mathlib.Tactic

/-!
# JSON values and platform errors

The values agents, owners and the platform exchange, and the error every service call can end
with: `{"error": {code, message, details}}` and a status.
-/

namespace Crewquarters

/-- A JSON value; an object keeps its keys in insertion order, as a Python `dict` does. -/
inductive Json where
  | null
  | bool (b : Bool)
  | num (n : ℚ)
  | str (s : String)
  | arr (xs : List Json)
  | obj (kvs : List (String × Json))
deriving Inhabited

namespace Json

/-- `value.get(key)` of a `dict`. -/
def get? (key : String) : Json → Option Json
  | .obj kvs => (kvs.find? fun kv => kv.1 = key).map Prod.snd
  | _ => none

/-- `bool(value)`. -/
def truthy : Json → Bool
  | .null => false
  | .bool b => b
  | .num n => n ≠ 0
  | .str s => s ≠ ""
  | .arr xs => !xs.isEmpty
  | .obj kvs => !kvs.isEmpty

/-- `null` for Python's `None`. -/
def ofOption : Option Json → Json := fun o => o.getD .null

mutual

/-- `schema_guard._has_regex_keyword`. -/
def hasRegexKeyword : Json → Bool
  | .obj kvs => (kvs.any fun kv => kv.1 = "pattern" || kv.1 = "patternProperties")
      || anyValueRegex kvs
  | .arr xs => anyRegex xs
  | _ => false

def anyRegex : List Json → Bool
  | [] => false
  | x :: xs => hasRegexKeyword x || anyRegex xs

def anyValueRegex : List (String × Json) → Bool
  | [] => false
  | (_, v) :: kvs => hasRegexKeyword v || anyValueRegex kvs

end

end Json

/-- `errors.PlatformError`. -/
structure PlatformError where
  code : String
  message : String
  statusCode : ℕ
  details : List (String × Json)

def notFound {α : Type} [ToString α] (what : String) (ident : α) : PlatformError :=
  ⟨"NOT_FOUND", s!"{what} not found.", 404, [("id", .str (toString ident))]⟩

def conflict (code message : String) (details : List (String × Json)) : PlatformError :=
  ⟨code, message, 409, details⟩

def invalid (code message : String) (details : List (String × Json)) : PlatformError :=
  ⟨code, message, 422, details⟩

end Crewquarters
