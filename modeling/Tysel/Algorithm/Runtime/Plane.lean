import Tysel.Model.Durable.Types
import Tysel.Shared.Chars
import Tysel.Shared.Except

/-! The names of durable exports, which a program carries in a comment before its source, and the
task ids that the plane generates. -/

namespace Tysel.Runtime

open Tysel.Text

def maxModuleTasks : ℕ := 256

def maxTaskMetadataBytes : ℕ := 64 * 1024

def decodeDurableExports (fromStr : String → Except String (List String)) (json : String) :
    Except String (List String) := do
  reject (maxTaskMetadataBytes < json.utf8ByteSize)
    s!"durable export metadata exceeds {maxTaskMetadataBytes} bytes"
  let names ← (fromStr json).mapError ("invalid durable exports: " ++ ·)
  reject (maxModuleTasks < names.length) s!"durable export count exceeds {maxModuleTasks}"
  return names

def durableExportPrefix : String := "/*tysel-durable-export:"

/-- What stands before and after the first end of a comment. -/
def splitComment : List Char → Option (List Char × List Char)
  | '*' :: '/' :: rest => some ([], rest)
  | c :: rest => (splitComment rest).map fun parts => (c :: parts.1, parts.2)
  | [] => none

def isLineBreak (c : Char) : Bool := c = '\r' || c = '\n'

def splitDurableExport (source : List Char) : List Char × Option (List Char) :=
  match (stripPrefix durableExportPrefix source).bind splitComment with
  | some (name, body) =>
    if trim name = [] then (source, none) else (body.dropWhile isLineBreak, some (trim name))
  | none => (source, none)

def encodeDurableExport (name source : List Char) : List Char :=
  durableExportPrefix.toList ++ (name ++ '*' :: '/' :: '\n' :: source)

/-- A call of `next_task_id` that reads the clock and gets a value of the counter. -/
def nextTaskId (pid : UInt32) (nanos : ℕ) (n : UInt64) : Durable.TaskId :=
  Fin.ofNat _ (nanos <<< 16 ||| n.toNat ||| pid.toNat <<< 96)

/-- The ids of all calls, in the order in which they get the values of the counter. -/
def taskIds (pid : UInt32) (readings : List ℕ) : List Durable.TaskId :=
  (readings.zipIdx 1).map fun call => nextTaskId pid call.1 (.ofNat call.2)

end Tysel.Runtime
