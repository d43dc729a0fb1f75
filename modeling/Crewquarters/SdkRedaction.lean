import Crewquarters.Redaction

/-!
# Redaction in the SDK

`redact_text` of the agents' own `redact.py`. It differs from the platform's in the phone pattern,
in what it puts in the place of a match and in the parameters of URLs, whose values it hides.
-/

namespace Crewquarters

namespace Sdk

variable (D : Digits) (word : Char → Bool)

/-- `[\d\s().-]`. -/
def phoneChar (c : Char) : Bool :=
  D.decimal c || isSpace c || c ∈ ['(', ')', '.', '-']

/-- `_PHONE_RE`: of the characters in the middle, 6 to 18, as many as leave a digit after them. -/
def phoneAt : Matcher Char
  | '+' :: first :: rest =>
    let middle := min 18 (rest.takeWhile (phoneChar D)).length
    if D.decimal first then
      ((List.range' 6 (middle - 5)).reverse.find? fun n => (rest[n]?).any D.decimal).map (· + 2)
    else none
  | _ => none

def mask : List Char := "••••".toList

def maskPhone (number : List Char) : List Char :=
  let digits := number.filter D.decimal
  if 4 ≤ digits.length then mask ++ digits.drop (digits.length - 4) else mask

/-- The first group of `_BEARER_RE`, and what stands for the token. -/
def maskBearer (found : List Char) : List Char :=
  found.take 6 ++ (found.drop 6).takeWhile isSpace ++ "[REDACTED]".toList

def secretParams : List String :=
  ["token", "access_token", "refresh_token", "api_key", "apikey", "key", "secret", "password",
    "code"]

/-- The characters of a text, each with the one before it. -/
def withPrevious (cs : List Char) : List (Option Char × Char) :=
  (none :: cs.map some).zip cs

/-- `_SECRET_PARAM_RE`, where `word` is `\w`; the `\b` looks at the character before the match. -/
def secretParamAt : Matcher (Option Char × Char)
  | (previous, c) :: rest =>
    if previous.any word then none
    else secretParams.firstM fun name =>
      match afterWord name.toList (c :: rest.map Prod.snd) with
      | some ('=' :: after) =>
        let value := after.takeWhile fun d => !(isSpace d || d ∈ "&\"'".toList)
        if value = [] then none else some (name.length + value.length)
      | _ => none
  | [] => none

/-- The name and the equals sign stay. -/
def maskParam (found : List (Option Char × Char)) : List (Option Char × Char) :=
  found.takeWhile (·.2 ≠ '=') ++ "=[REDACTED]".toList.map fun c => (none, c)

def redactText (text : String) : String :=
  let phones := (phoneAt D).replace (maskPhone D) text.toList
  let bearers := bearerAt.replace maskBearer phones
  .ofList (((secretParamAt word).replace maskParam (withPrevious bearers)).map Prod.snd)

-- the spaces go with the number, the name of the parameter stays, and `mycode` is another name
example : redactText asciiDigits Char.isAlphanum "+1 (555) 010-4567, ?Code=42&mycode=1 bearer  x"
    = "••••4567, ?Code=[REDACTED]&mycode=1 bearer  [REDACTED]" := by
  decide

end Sdk

end Crewquarters
