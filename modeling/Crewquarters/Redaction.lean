import Crewquarters.Json
import Crewquarters.Lib.Substitution

/-!
# Redaction

`redact` of `redaction.py`, which the run service applies to events, errors, previews and the
results of idempotent actions: the values of keys that look secret, bearer tokens and phone numbers
are replaced, anywhere in a value. The three patterns are matched by hand, letter by letter.
-/

namespace Crewquarters

/-- What `\d` matches: the decimal digits of Unicode, which in ASCII are `0` to `9`. -/
structure Digits where
  decimal : Char → Bool
  ascii : ∀ c : Char, c.toNat < 128 → decimal c = c.isDigit

def asciiDigits : Digits := ⟨Char.isDigit, fun _ _ => rfl⟩

/-- What `\s` matches. -/
def isSpace (c : Char) : Bool :=
  let n := c.toNat
  (9 ≤ n && n ≤ 13) || (28 ≤ n && n ≤ 32) || n = 0x85 || n = 0xA0 || n = 0x1680
    || (0x2000 ≤ n && n ≤ 0x200A) || n = 0x2028 || n = 0x2029 || n = 0x202F || n = 0x205F
    || n = 0x3000

/-- `c` matches the small letter `letter` under `re.IGNORECASE`. -/
def ignoringCase (letter c : Char) : Bool :=
  c = letter || c = letter.toUpper || (letter = 's' && c = 'ſ')
    || (letter = 'k' && c.toNat = 0x212A)
    || (letter = 'i' && (c = 'İ' || c = 'ı'))

/-- What follows `word` at the head of a text, ignoring case. -/
def afterWord : List Char → List Char → Option (List Char)
  | [], cs => some cs
  | _ :: _, [] => none
  | letter :: word, c :: cs => if ignoringCase letter c then afterWord word cs else none

/-- `first[_-]?second` at the head of a text. -/
def twoWords (first second : List Char) (cs : List Char) : Bool :=
  (afterWord first cs).any fun rest => (afterWord second rest).isSome || match rest with
    | c :: rest => (c = '_' || c = '-') && (afterWord second rest).isSome
    | [] => false

/-- One of the alternatives of `_SECRET_KEYS` at the head of a text. -/
def secretAt : Matcher Char := fun cs =>
  if ["pass", "secret", "token", "authorization", "cookie", "refresh"].any
      (fun word => (afterWord word.toList cs).isSome)
    || twoWords "api".toList "key".toList cs || twoWords "auth".toList "code".toList cs
  then some 0 else none

/-- `_SECRET_KEYS.search`. -/
def secretKey (key : String) : Bool := secretAt.occurs key.toList

/-- `[A-Za-z0-9._~+/=-]` under `re.IGNORECASE`. -/
def tokenChar (c : Char) : Bool :=
  c.isAlphanum || c ∈ ['.', '_', '~', '+', '/', '=', '-'] || c = 'ſ' || c.toNat = 0x212A || c = 'İ'
    || c = 'ı'

/-- `_BEARER`. -/
def bearerAt : Matcher Char := fun cs =>
  (afterWord "bearer".toList cs).bind fun rest =>
    let spaces := rest.takeWhile isSpace
    let token := (rest.drop spaces.length).takeWhile tokenChar
    if spaces = [] ∨ token = [] then none else some (5 + spaces.length + token.length)

def bearerMask : List Char := "Bearer [REDACTED]".toList

variable (D : Digits)

/-- `_E164`. -/
def phoneAt : Matcher Char
  | '+' :: rest =>
    let digits := (rest.takeWhile D.decimal).take 15
    if digits.length < 8 then none else some digits.length
  | _ => none

def maskPhone (value : List Char) : List Char :=
  let digits := value.filter D.decimal
  if 4 ≤ digits.length then "***".toList ++ digits.drop (digits.length - 4) else "***".toList

def redactText (value : String) : String :=
  String.ofList ((phoneAt D).replace (maskPhone D)
    (bearerAt.replace (fun _ => bearerMask) value.toList))

mutual

/-- Recursively redact secret-looking keys and phone numbers in JSON-like data. -/
def redact : Json → Json
  | .obj kvs => .obj (redactFields kvs)
  | .arr xs => .arr (redactItems xs)
  | .str s => .str (redactText D s)
  | .null => .null
  | .bool b => .bool b
  | .num n => .num n

def redactItems : List Json → List Json
  | [] => []
  | x :: xs => redact x :: redactItems xs

def redactFields : List (String × Json) → List (String × Json)
  | [] => []
  | (k, v) :: kvs =>
    (k, if secretKey k then .str "[REDACTED]" else redact v) :: redactFields kvs

end

end Crewquarters
