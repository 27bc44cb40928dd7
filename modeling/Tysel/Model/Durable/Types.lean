import Tysel.Shared.Table
import Mathlib.Data.Fintype.Basic

/-! Limits, identifiers, events, claims and errors of the `tysel-durable` crate.
Unsigned 64-bit values are natural numbers; every conversion that can leave the
signed range of a SQL integer is written out where the source performs it. -/

namespace Tysel.Durable

/-- `tysel_task::TaskId`, a 128-bit identifier. Its big-endian blob sorts as the number. -/
abbrev TaskId := Fin (2 ^ 128)

instance taskIds : NeZero (2 ^ 128) := inferInstance

def maxWakeupBatch : ℕ := 10000
def maxEventKeyBytes : ℕ := 256
def maxEventPayloadBytes : ℕ := 1048576
def maxHistoryEvents : ℕ := 10000
def maxHistoryBytes : ℕ := 16 * 1048576
def maxPendingSignals : ℕ := 1000
def maxLeaseOwnerBytes : ℕ := 128
def maxIdempotencyKeyBytes : ℕ := 256
def maxPruneBatch : ℕ := 100
def durableLogVersion : ℕ := 3
def maxDurableProgramBytes : ℕ := 1048576
def maxDurableProgramTotalBytes : ℕ := 64 * 1048576
def maxDurablePrograms : ℕ := 10000

inductive EventKind where
  | step | effect | sleep | signal | retry | now | random
  deriving DecidableEq, Repr

/-- An event offered to the store. `J` is the type of parsed JSON values. -/
structure NewEvent (J : Type) where
  kind : EventKind
  key : String
  payload : J
  recordedAtMs : ℕ

/-- An event as the store returns it, with both the parsed payload and its stored text. -/
structure TaskEvent (J : Type) where
  taskId : TaskId
  sequence : ℕ
  kind : EventKind
  key : String
  payload : J
  recordedAtMs : ℕ
  payloadJson : String

structure History (J : Type) where
  taskId : TaskId
  events : List (TaskEvent J)

inductive DurableProgramKind where
  | script | module
  deriving DecidableEq, Repr

/-- A SHA-256 digest is represented by its lower-case hexadecimal text. -/
structure DurableProgram where
  taskId : TaskId
  kind : DurableProgramKind
  source : String
  sourceSha256 : String
  registeredAtMs : ℕ
  deriving DecidableEq

structure Wakeup where
  taskId : TaskId
  sequence : ℕ
  wakeAtMs : ℕ
  deriving DecidableEq

structure WakeupClaim where
  taskId : TaskId
  sequence : ℕ
  wakeAtMs : ℕ
  leaseOwner : String
  leaseUntilMs : ℕ
  deriving DecidableEq

structure SignalWait where
  taskId : TaskId
  sequence : ℕ
  signalName : String
  deriving DecidableEq

/-- Fences one execution independently of its currently suspended boundary. -/
structure ExecutionClaim where
  taskId : TaskId
  owner : String
  generation : ℕ
  leaseUntilMs : ℕ
  wakeup : Option WakeupClaim
  deriving DecidableEq

structure TaskCompletion (J : Type) where
  taskId : TaskId
  nextSequence : ℕ
  value : J
  completedAtMs : ℕ

/-- The variants of `DurableError` that the store operations raise. `io`, `sqlite`,
`postgres` and `json` stand for the wrapped errors of the clock, the drivers and the parser. -/
inductive DurableError where
  | executionLeaseLost
  | admissionConflict
  | invalidIdempotencyKey
  | taskCompleted (taskId : TaskId)
  | taskSuspended (taskId : TaskId)
  | io
  | sqlite
  | postgres
  | json
  | integerRange (field : String)
  | eventKeyTooLarge
  | eventPayloadTooLarge
  | historyConflict (expected actual : ℕ)
  | historyEventLimit
  | historyByteLimit
  | invalidLeaseOwner
  | invalidSignalName
  | signalWaitConflict
  | wakeupClaimRequired
  | signalInboxLimit
  | invalidProgram
  | programLimit
  | programByteLimit
  | programConflict (taskId : TaskId)
  | programInUse (taskId : TaskId)
  | invalidProgramDigest
  | invalidLogVersion
  | unsupportedLogVersion (found supported : ℕ)
  deriving DecidableEq, Repr

/-- What the store calls in `serde_json` and `sha2`: printing, parsing and comparing JSON
values, and the hexadecimal SHA-256 digest of a text. -/
structure Crates (J : Type) where
  toStr : J → String
  fromStr : String → Option J
  eq : J → J → Bool
  sha256 : String → String

end Tysel.Durable
