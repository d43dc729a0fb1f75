import Mathlib.Data.List.DropRight
import Crewquarters.Redaction
import Crewquarters.Lib.Backtracking

/-!
# Contacts and what is said to them

The `caller` agent sorts the contacts of a sheet into those it may call and those it skips. What is
said to a contact is the owner's script with the contact's name in it.
-/

namespace Crewquarters

/-- What Python's Unicode tables say: the categories L and M, `\d`, and `str.lower`. -/
structure CharTables where
  letter : Char → Bool
  mark : Char → Bool
  decimal : Char → Bool
  lower : String → String

/-- `str.strip`. -/
def strip (s : String) : String := .ofList ((s.toList.dropWhile isSpace).rdropWhile isSpace)

/-! ## Rows -/

def consentYes : List String := ["yes", "true", "consented"]

def doneStatuses : List String := ["done", "called", "skip", "dnc", "do-not-call"]

def readyStatuses : List String := ["", "ready", "pending"]

def maxName : ℕ := 40

def namePunctuation : List Char := [' ', '\'', '’', '-', '.']

structure ContactRow where
  row : ℕ
  name : String
  phone : String
  consent : String
  status : String
deriving DecidableEq

inductive SkipReason where
  | consent
  | invalidNumber
  | invalidName
  | status
  | unrecognizedStatus
  | duplicate
  | overCap
deriving DecidableEq

structure SkippedRow where
  row : ℕ
  name : String
  reason : SkipReason
deriving DecidableEq

structure Plan where
  eligible : List ContactRow
  skipped : List SkippedRow
deriving DecidableEq

namespace CharTables

variable (T : CharTables)

/-- `is_e164`; the pattern's `$` also matches before a newline at the end. -/
def isE164 (value : String) : Bool :=
  match value.toList with
  | '+' :: first :: rest =>
    let digits := if rest.getLast? = some '\n' then rest.dropLast else rest
    '1' ≤ first && first ≤ '9' && 7 ≤ digits.length && digits.length ≤ 14 && digits.all T.decimal
  | _ => false

def plainName (name : String) : Bool :=
  let cs := name.toList
  let separates := fun c => decide (c ∈ namePunctuation)
  decide (1 ≤ cs.length ∧ cs.length ≤ maxName) && cs.head?.any T.letter
    && decide (name = strip name)
    && cs.all (fun c => T.letter c || T.mark c || separates c)
    && !(cs.zip cs.tail).any (fun pair => separates pair.1 && separates pair.2 && pair ≠ ('.', ' '))
    -- a period ends the name or follows a one-letter initial; it is never at the head
    && cs.zipIdx.all fun entry => entry.1 ≠ '.' || entry.2 = cs.length - 1 || entry.2 = 1
      || cs[entry.2 - 2]?.any separates

def skipReason (contact : ContactRow) (seen : List String) (eligibleCount maxCalls : ℕ) :
    Option SkipReason :=
  if T.lower contact.consent ∉ consentYes then some .consent
  else if !T.isE164 contact.phone then some .invalidNumber
  else if !T.plainName contact.name then some .invalidName
  else if T.lower contact.status ∈ doneStatuses then some .status
  else if T.lower contact.status ∉ readyStatuses then some .unrecognizedStatus
  else if contact.phone ∈ seen then some .duplicate
  else if maxCalls ≤ eligibleCount then some .overCap
  else none

/-- The body of the loop in `classify`, with the phones seen so far. -/
def classifyNext (maxCalls : ℕ) (acc : Plan × List String) (contact : ContactRow) :
    Plan × List String :=
  match T.skipReason contact acc.2 acc.1.eligible.length maxCalls with
  | none => (⟨acc.1.eligible ++ [contact], acc.1.skipped⟩, contact.phone :: acc.2)
  | some reason =>
    (⟨acc.1.eligible, acc.1.skipped ++ [⟨contact.row, contact.name, reason⟩]⟩, acc.2)

def classify (contacts : List ContactRow) (maxCalls : ℕ) : Plan :=
  (contacts.foldl (T.classifyNext maxCalls) (⟨[], []⟩, [])).1

end CharTables

/-! ## The script -/

/-- `{name}`. -/
def placeholder : List Char := "\x7bname\x7d".toList

/-- `script.replace("{name}", name)`. -/
def personalised (script name : String) : String :=
  .ofList ((Matcher.literal placeholder).replace (fun _ => name.toList) script.toList)

def backreferences (name : List Char) : List (List Char) → Pattern Char PUnit
  | [] => pure .unit
  | [part] => .literal part
  | part :: parts => do
    .literal part
    .literal name
    backreferences name parts

def scriptPattern (first : List Char) (rest : List (List Char)) : Pattern Char (List Char) := do
  .literal first
  let name ← .nonempty (.lazily fun _ => true)
  backreferences name rest
  return name

/-- `approved_script` of the broker, whose `plain_name` is that of the agent. -/
def CharTables.approvedScript (T : CharTables) (template text : String) : Bool :=
  match (Matcher.literal placeholder).split template.toList with
  | first :: part :: parts =>
    ((scriptPattern first (part :: parts)).fullmatch text.toList).any fun name =>
      T.plainName (.ofList name)
  | _ => decide (text = template)

end Crewquarters
