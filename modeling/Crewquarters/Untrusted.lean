import Crewquarters.Redaction
import Crewquarters.Lib.Backtracking

/-!
# Evidence blocks

`untrusted.py` of the SDK: texts from outside go into a prompt between two markers with a boundary,
and `parse_evidence` reads the blocks of a prompt back. Texts are lists of characters.
-/

namespace Crewquarters

structure EvidenceItem where
  text : List Char
  ref : List Char
  source : List Char

structure EvidenceBlock where
  ref : List Char
  source : List Char
  body : List Char
deriving DecidableEq

/-- `[0-9a-f]`. -/
def isHex (c : Char) : Bool := c.isDigit || ('a' ≤ c && c ≤ 'f')

/-- `str.replace` of a text that is not empty. -/
def replaceText (old new : List Char) : List Char → List Char :=
  (Matcher.literal old).replace fun _ => new

/-- `\s+`. -/
def spacesAt : Matcher Char := fun cs =>
  if cs.takeWhile isSpace = [] then none else some ((cs.takeWhile isSpace).length - 1)

def cleanRef (ref : List Char) : List Char :=
  let cleaned := ref.map fun c => if isSpace c || c = '>' then '_' else c
  if cleaned = [] then ['_'] else cleaned

def cleanSource (source : List Char) : List Char :=
  replaceText "boundary=".toList [] (replaceText ">>>".toList [] (spacesAt.replace (fun _ => [' '])
    source))

def endMarker (boundary : List Char) : List Char :=
  "\n<<<END EVIDENCE boundary=".toList ++ boundary ++ ">>>".toList

def evidence (boundary : List Char) (item : EvidenceItem) : List Char :=
  "<<<EVIDENCE ref=".toList ++ cleanRef item.ref ++ " source=".toList ++ cleanSource item.source
    ++ " boundary=".toList ++ boundary ++ ">>>\n".toList ++ replaceText boundary [] item.text
    ++ endMarker boundary

/-- `_BLOCK_RE`. -/
def blockPattern : Pattern Char EvidenceBlock := do
  .literal "<<<EVIDENCE ref=".toList
  let ref ← .nonempty (.greedily fun c => !isSpace c && c ≠ '>')
  .literal " source=".toList
  let source ← .lazily fun c => c ≠ '\n'
  .literal " boundary=".toList
  let boundary ← .nonempty (.greedily isHex)
  .literal ">>>\n".toList
  let body ← .lazily fun _ => true
  .literal (endMarker boundary)
  return ⟨ref, source, body⟩

def parseEvidence (text : List Char) : List EvidenceBlock := blockPattern.findAll text

end Crewquarters
