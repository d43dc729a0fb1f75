import Crewquarters.Json
import Mathlib.Data.Char
import Mathlib.Data.List.DropRight
import Mathlib.Data.List.Lex
import Mathlib.Data.List.Sort

/-!
# Pages of a list in memory

`pagination.py`: `page_in_memory` and its text cursors, the URL-safe base64 of a key's UTF-8
without its padding. Keys are compared as Python compares strings, by code points.
-/

namespace Crewquarters.Pagination

def alphabet : List Char :=
  "ABCDEFGHIJKLMNOPQRSTUVWXYZabcdefghijklmnopqrstuvwxyz0123456789-_".toList

def symbol (n : ℕ) : Char := alphabet.getD n '='

def value (c : Char) : Option ℕ :=
  if c = '+' then some 62 else if c = '/' then some 63 else alphabet.idxOf? c

def b64encode : List UInt8 → List Char
  | [] => []
  | [a] => [symbol (a.toNat / 4), symbol (a.toNat % 4 * 16), '=', '=']
  | [a, b] => [symbol (a.toNat / 4), symbol (a.toNat % 4 * 16 + b.toNat / 16),
      symbol (b.toNat % 16 * 4), '=']
  | a :: b :: c :: rest => symbol (a.toNat / 4) :: symbol (a.toNat % 4 * 16 + b.toNat / 16)
      :: symbol (b.toNat % 16 * 4 + c.toNat / 64) :: symbol (c.toNat % 64) :: b64encode rest

/-- Python's lenient decoder: the characters of the group read so far, the bits left of the last
one and the pads seen. Characters outside the alphabet are skipped, enough pads end the text. -/
def b64decode (position left pads : ℕ) : List Char → Option (List UInt8)
  | [] => if position = 0 then some [] else none
  | c :: rest =>
    if c = '=' then
      if 2 ≤ position then
        if 4 ≤ position + (pads + 1) then some [] else b64decode position left (pads + 1) rest
      else b64decode position left pads rest
    else match value c, position with
      | none, _ => b64decode position left pads rest
      | some v, 0 => b64decode 1 v 0 rest
      | some v, 1 => (b64decode 2 (v % 16) 0 rest).map (.ofNat (left * 4 + v / 16) :: ·)
      | some v, 2 => (b64decode 3 (v % 4) 0 rest).map (.ofNat (left * 16 + v / 4) :: ·)
      | some v, _ => (b64decode 0 0 0 rest).map (.ofNat (left * 64 + v) :: ·)

def encodeTextCursor (text : List Char) : List Char :=
  (b64encode (text.flatMap String.utf8EncodeChar)).rdropWhile (· = '=')

def decodeTextCursor : Option (List Char) → Except PlatformError (Option (List Char))
  | none | some [] => .ok none
  | some cursor =>
    let padded := cursor ++ List.replicate ((4 - cursor.length % 4) % 4) '='
    -- The decoder takes ASCII text only.
    let bytes := if padded.all (·.val < 128) then b64decode 0 0 0 padded else none
    match bytes.bind fun bytes => bytes.toByteArray.utf8Decode? with
    | some text => .ok (some text.toList)
    | none => .error (invalid "INVALID_CURSOR" "The pagination cursor is invalid." [])

def maxLimit : ℤ := 200

def clampLimit (limit : ℤ) : ℕ := (max 1 (min maxLimit limit)).toNat

variable {α : Type} (key : α → List Char)

def pageInMemory (items : List α) (limit : ℤ) (cursor : Option (List Char)) :
    Except PlatformError (List α × Option (List Char)) := do
  let limit := clampLimit limit
  let ordered := items.insertionSort fun a b => key a ≤ key b
  let after ← decodeTextCursor cursor
  let ordered := match after with
    | none => ordered
    | some after => ordered.filter fun i => after < key i
  let page := ordered.take limit
  .ok (page, if limit < ordered.length then page.getLast?.map fun i => encodeTextCursor (key i)
    else none)

/-- The pages of a client that passes each cursor to its next request, and whether the last had
none; the list may be another at each request. -/
def follow (limit : ℤ) :
    List (List α) → Option (List Char) → Except PlatformError (List (List α) × Bool)
  | [], _ => .ok ([], false)
  | items :: lists, cursor => do
    let (page, next) ← pageInMemory key items limit cursor
    match next with
    | none => .ok ([page], true)
    | some _ =>
      let (pages, ended) ← follow limit lists next
      .ok (page :: pages, ended)

end Crewquarters.Pagination
