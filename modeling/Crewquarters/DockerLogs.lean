import Mathlib.Data.Int.Order.Basic

/-!
# Container logs

`_demux` and `container_logs` of the Docker client and `Engine.run_logs` for a container that
exists. What `decode` with `errors="replace"` makes of bytes that are not UTF-8 is `replaced`.
-/

namespace Crewquarters.DockerLogs

inductive Stream
  | stdout
  | stderr
  deriving DecidableEq

def isLineBreak (c : Char) : Bool :=
  c ∈ ['\n', '\r', '\x0b', '\x0c', '\x1c', '\x1d', '\x1e', '\u0085', '\u2028', '\u2029']

/-- `str.splitlines`: `\r\n` is one break, and no line follows the last one. -/
def splitlines : List Char → List (List Char)
  | [] => []
  | '\r' :: '\n' :: t => [] :: splitlines t
  | c :: t =>
    if isLineBreak c then [] :: splitlines t
    else match splitlines t with
      | [] => [[c]]
      | l :: ls => (c :: l) :: ls

variable (replaced : List UInt8 → List Char)

def decode (bytes : List UInt8) : List Char :=
  match bytes.toByteArray.utf8Decode? with
  | some text => text.toList
  | none => replaced bytes

def demux : List UInt8 → List (Stream × List Char)
  | stream :: _ :: _ :: _ :: a :: b :: c :: d :: rest =>
    let size := ((a.toNat * 256 + b.toNat) * 256 + c.toNat) * 256 + d.toNat
    (splitlines (decode replaced (rest.take size))).map
      (if stream = 2 then .stderr else .stdout, ·) ++ demux (rest.drop size)
  | _ => []
termination_by raw => raw.length

/-- `request` is Docker's answer for a `tail`. -/
def containerLogs (request : ℤ → List UInt8) (tail : ℤ) : List (Stream × List Char) :=
  demux replaced (request tail)

structure RunLogs where
  lines : List (Stream × List Char)
  truncated : Bool

def runLogs (logTailLimit : ℤ) (request : ℤ → List UInt8) (tail : ℤ) : RunLogs :=
  let tail := max 1 (min tail logTailLimit)
  let lines := containerLogs replaced request tail
  ⟨lines.map fun l => (l.1, l.2.take 4000), tail ≤ lines.length⟩

end Crewquarters.DockerLogs
