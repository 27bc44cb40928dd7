import Tysel.Algorithm.Tasks.Rpc
import Tysel.Shared.Bytes

/-! Messages on a byte stream, each behind its length. -/

namespace Tysel.Tasks

open Tysel.Bytes

variable {J : Type}

def writeMessage (T : Texts J) (envelope : Envelope J) : Except TaskRpcError (List UInt8) := do
  let text ← encodeMessage T envelope
  let bytes := textBytes text
  return leBytes 4 bytes.length ++ bytes

/-- A stream and the reads to come: `none` is interrupted, `some n` delivers at most `n + 1`
bytes. A read behind the schedule delivers all that it is asked for. -/
structure Reader where
  bytes : List UInt8
  schedule : List (Option ℕ)

/-- The retried read of one byte. -/
def readFirst (bytes : List UInt8) : List (Option ℕ) → Option (UInt8 × Reader)
  | none :: schedule => readFirst bytes schedule
  | schedule =>
    match bytes with
    | [] => none
    | first :: rest => some (first, ⟨rest, schedule.tail⟩)

def endOfFile : TaskRpcError := .io "failed to fill whole buffer"

/-- `Read::read_exact` into a buffer of `asked` bytes. -/
def readExact (asked : ℕ) (bytes : List UInt8) :
    List (Option ℕ) → Except TaskRpcError (List UInt8 × Reader)
  | [] => do
    reject (bytes.length < asked) endOfFile
    return (bytes.take asked, ⟨bytes.drop asked, []⟩)
  | step :: schedule =>
    if asked = 0 then .ok ([], ⟨bytes, step :: schedule⟩)
    else
      match step with
      | none => readExact asked bytes schedule
      | some n => do
        let count := min asked (min (n + 1) bytes.length)
        reject (count = 0) endOfFile
        let (rest, r) ← readExact (asked - count) (bytes.drop count) schedule
        return (bytes.take count ++ rest, r)

/-- The size of the buffer for the next payload; nothing at a clean end. -/
def frameLength (r : Reader) : Except TaskRpcError (Option (ℕ × Reader)) :=
  match readFirst r.bytes r.schedule with
  | none => .ok none
  | some (first, r) => do
    let (rest, r) ← readExact 3 r.bytes r.schedule
    let length := ofLeBytes (first :: rest)
    reject (maxTaskRpcFrame < length) (.frameTooLarge length)
    return some (length, r)

variable (T : Texts J) (fromSlice : List UInt8 → Except String (Envelope J))

def decodeMessage (bytes : List UInt8) : Except TaskRpcError (Envelope J) := do
  reject (maxTaskRpcFrame < bytes.length) (.frameTooLarge bytes.length)
  let envelope ← (fromSlice bytes).mapError .json
  envelope.validate T
  return envelope

def readMessageOpt (r : Reader) : Except TaskRpcError (Option (Envelope J × Reader)) := do
  match ← frameLength r with
  | none => return none
  | some (length, r) =>
    let (bytes, r) ← readExact length r.bytes r.schedule
    let envelope ← decodeMessage T fromSlice bytes
    return some (envelope, r)

/-- The results of at most `n` calls, up to the end of the stream or an error. -/
def readMessages : ℕ → Reader → List (Except TaskRpcError (Option (Envelope J)))
  | 0, _ => []
  | n + 1, r =>
    match readMessageOpt T fromSlice r with
    | .error e => [.error e]
    | .ok none => [.ok none]
    | .ok (some (envelope, r)) => .ok (some envelope) :: readMessages n r

end Tysel.Tasks
