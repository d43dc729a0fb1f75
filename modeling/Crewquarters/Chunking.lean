import Crewquarters.Redaction
import Crewquarters.Lib.Scanning

/-!
# Chunks of a document

`chunk` of the knowledge service's `chunking.py`: a document is a list of segments of text, each
with a locator; it is cut into overlapping chunks of a limited number of tokens, which end at the
beginning of a segment where one is near enough. Tokens are words and single other characters.
Locators are values of any type.
-/

namespace Crewquarters

/-- What `\w` matches: nothing that `\s` does. -/
structure WordChars where
  word : Char → Bool
  blank : ∀ c, isSpace c = true → word c = false

structure Segment (L : Type) where
  text : List Char
  locator : L

/-- `head`, or `{**head, "through": tail}`. -/
structure ChunkLocator (L : Type) where
  head : L
  through : Option L
deriving DecidableEq

structure Chunk (L : Type) where
  text : List Char
  tokenCount : ℕ
  locator : ChunkLocator L
deriving DecidableEq

/-- `text[b:e]`. -/
def slice (b e : ℕ) (text : List Char) : List Char := (text.take e).drop b

/-- `TOKEN`: `\w+|[^\w\s]`. -/
def tokenAt (W : WordChars) : Matcher Char
  | [] => none
  | c :: cs =>
    if W.word c then some (cs.takeWhile W.word).length
    else if isSpace c then none
    else some 0

def countTokens (W : WordChars) (text : List Char) : ℕ := ((tokenAt W).spans text).length

def separator : List Char := ['\n', '\n']

section Segments

variable {L : Type}

def joinSegments (segments : List (Segment L)) : List Char :=
  separator.intercalate (segments.map (·.text))

/-- The loop for `starts`, from this offset on. -/
def startsFrom : ℕ → List (Segment L) → List ℕ
  | _, [] => []
  | offset, s :: segments =>
    offset :: startsFrom (offset + (s.text.length + separator.length)) segments

/-- `bisect_left(spans, (start, 0))`. -/
def bisectSpans (spans : List (ℕ × ℕ)) (start : ℕ) : ℕ :=
  (spans.takeWhile fun span => span.1 < start).length

/-- `bisect_right(starts, position)`. -/
def bisectStarts (starts : List ℕ) (position : ℕ) : ℕ :=
  (starts.takeWhile fun start => start ≤ position).length

/-- The tokens with which a segment begins, the first segment apart. -/
def boundaries (spans : List (ℕ × ℕ)) (starts : List ℕ) : List ℕ :=
  (starts.tail.map (bisectSpans spans)).dedup.insertionSort (· ≤ ·)

/-- `_locator`. -/
def locatorOf [DecidableEq L] (segments : List (Segment L)) (starts : List ℕ)
    (beginChar lastChar : ℕ) : Option (ChunkLocator L) := do
  let head ← segments[bisectStarts starts beginChar - 1]?
  let tail ← segments[bisectStarts starts lastChar - 1]?
  return if tail.locator = head.locator then ⟨head.locator, none⟩
    else ⟨head.locator, some tail.locator⟩

/-- Where the chunk that begins with token `first` ends: at the last boundary in the last quarter of
the window, if there is one. -/
def chunkEnd (bounds : List ℕ) (count maxTokens first : ℕ) : ℕ :=
  let last := min (first + maxTokens) count
  if last < count then
    let floor := first + maxTokens * 3 / 4
    (bounds.filter fun b => floor < b ∧ b ≤ last).getLast?.getD last
  else last

section Loop

variable [DecidableEq L] (segments : List (Segment L)) (text : List Char) (starts : List ℕ)
  (spans : List (ℕ × ℕ)) (bounds : List ℕ) (maxTokens overlap : ℕ)

/-- The chunk of the tokens from `first` up to `last`. -/
def chunkOf (first last : ℕ) : Option (Chunk L) := do
  let begins ← spans[first]?
  let ends ← spans[last - 1]?
  let locator ← locatorOf segments starts begins.1 (ends.2 - 1)
  return ⟨slice begins.1 ends.2 text, last - first, locator⟩

/-- The loop, from token `first` on. -/
def chunkFrom (first : ℕ) : Option (List (Chunk L)) :=
  if first < spans.length then
    let last := chunkEnd bounds spans.length maxTokens first
    (chunkOf segments text starts spans first last).bind fun chunk =>
      if last = spans.length then some [chunk]
      else (chunkFrom (max (last - overlap) (first + 1))).map fun chunks => chunk :: chunks
  else some []
termination_by spans.length - first
decreasing_by omega

end Loop

/-- `none` is an exception. -/
def chunk [DecidableEq L] (W : WordChars) (segments : List (Segment L)) (maxTokens overlap : ℕ) :
    Option (List (Chunk L)) :=
  if overlap < maxTokens then
    let text := joinSegments segments
    let starts := startsFrom 0 segments
    let spans := (tokenAt W).spans text
    chunkFrom segments text starts spans (boundaries spans starts) maxTokens overlap 0
  else none

end Segments

end Crewquarters
