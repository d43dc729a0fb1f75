import Mathlib.Data.List.DropRight
import Crewquarters.Untrusted

/-!
# Ranges of a sheet

The broker's `a1.py`, and `_within` of its agent API, which lets a call through if the range it asks
for lies in the configured one. A `ValueError` of the parser is `none`: both callers only see that
there was one.
-/

namespace Crewquarters

/-- The group `((?:[^']|'')+)` of a quoted tab, and what comes after its closing quote: the first
quote that is not one of a pair. -/
def quotedGroup : List Char → Option (List Char × List Char)
  | [] => none
  | '\'' :: '\'' :: cs => (quotedGroup cs).map fun x => ('\'' :: '\'' :: x.1, x.2)
  | '\'' :: cs => some ([], cs)
  | c :: cs => (quotedGroup cs).map fun x => (c :: x.1, x.2)

/-- `_REF`: the letters and the digits. Its `$` also matches before a line break at the end. -/
def readRef (p : List Char) : Option (List Char × List Char) :=
  let letters := p.takeWhile Char.isAlpha
  let rest := p.dropWhile Char.isAlpha
  let digits := rest.takeWhile Char.isDigit
  let tail := rest.dropWhile Char.isDigit
  if letters.length ≤ 3 ∧ digits.length ≤ 7 ∧ digits.head? ≠ some '0' ∧ (tail = [] ∨ tail = ['\n'])
  then some (letters, digits) else none

structure Area where
  tab : List Char
  firstCol : ℕ
  firstRow : ℕ
  lastCol : ℕ∞
  lastRow : ℕ∞
deriving DecidableEq

def Area.contains (casefold : List Char → List Char) (self other : Area) : Bool :=
  casefold self.tab = casefold other.tab && self.firstCol ≤ other.firstCol
    && other.lastCol ≤ self.lastCol && self.firstRow ≤ other.firstRow
    && other.lastRow ≤ self.lastRow

def column (letters : List Char) : ℕ :=
  letters.foldl (fun index c => index * 26 + (c.toUpper.toNat - 'A'.toNat + 1)) 0

/-- `int` of ASCII digits. -/
def rowNumber (digits : List Char) : ℕ :=
  digits.foldl (fun n c => n * 10 + (c.toNat - '0'.toNat)) 0

def readPart (p : List Char) : Option (List Char × List Char) := if p = [] then none else readRef p

def splitTab : List Char → Option (List Char × Option (List Char))
  | '\'' :: cs => (quotedGroup cs).bind fun x =>
    let tab := replaceText "''".toList "'".toList x.1
    match x.2 with
    | [] => if x.1 = [] then none else some (tab, none)
    | '!' :: ref => if x.1 = [] then none else some (tab, some ref)
    | _ => none
  | text => match text.dropWhile (· ≠ '!') with
    | _ :: ref => some (text.takeWhile (· ≠ '!'), some ref)
    | [] => if (text.splitOn ':').all fun p => (readPart p).isSome then none else some (text, none)

/-- The two references of a range; one reference is both. -/
def readCells (ref : List Char) : Option ((List Char × List Char) × (List Char × List Char)) :=
  match (ref.splitOn ':').map readPart with
  | [some ref] => some (ref, ref)
  | [some first, some last] => some (first, last)
  | _ => none

def areaOf (tab : List Char) (first last : List Char × List Char) : Option Area :=
  let area : Area := ⟨tab, if first.1 = [] then 1 else column first.1,
    if first.2 = [] then 1 else rowNumber first.2, if last.1 = [] then ⊤ else column last.1,
    if last.2 = [] then ⊤ else rowNumber last.2⟩
  if area.lastCol < area.firstCol ∨ area.lastRow < area.firstRow then none else some area

def trim (text : List Char) : List Char := (text.dropWhile isSpace).rdropWhile isSpace

/-- `parse`. -/
def parseRange (text : List Char) : Option Area :=
  (splitTab (trim text)).bind fun x =>
    if x.1 = [] ∨ '!' ∈ x.1 ∨ x.2.any (fun ref => '!' ∈ ref) then none
    else match x.2 with
      | none => some ⟨x.1, 1, 1, ⊤, ⊤⟩
      | some ref => (readCells ref).bind fun refs => areaOf x.1 refs.1 refs.2

def permissionDenied (message key : String) : PlatformError :=
  ⟨"PERMISSION_DENIED", message, 403, [("key", .str key)]⟩

/-- `_within`; `configured` is what the installation has under `key`. -/
def within (casefold : List Char → List Char) (key : String) (configured requested : List Char) :
    Except PlatformError Unit :=
  match parseRange configured, parseRange requested with
  | none, _ => .error (conflict "NEEDS_CONFIGURATION"
      s!"The installation config's {key} is not valid." [("key", .str key)])
  | some _, none =>
    .error (invalid "INVALID_REQUEST" "The range must be A1 notation with a tab." [])
  | some allowed, some area =>
    if allowed.contains casefold area then .ok ()
    else .error (permissionDenied s!"Only cells within the configured {key} may be used." key)

end Crewquarters
