import Tysel.Shared.Except
import Tysel.Model.Durable.Database

/-! Integer conversions, argument validation, the completion and execution guards,
and `insert_event`. A failed check is an error; the caller's transaction is then
dropped, so an operation that returns an error commits nothing. -/

namespace Tysel.Durable

variable {J : Type} (S : Crates J) (db : Db) (task : TaskId)

def toSqlInteger (value : ℕ) (field : String) : Except DurableError ℕ :=
  if value < 2 ^ 63 then .ok value else .error (.integerRange field)

/-- The wrapping cast `value as i64` of a 64-bit value. -/
def asI64 (value : ℕ) : ℤ :=
  if value < 2 ^ 63 then value else value - 2 ^ 64

def checkedAdd (a b : ℕ) : Option ℕ :=
  if a + b < 2 ^ 64 then some (a + b) else none

/-- `execution::now`: a clock reading in milliseconds relative to the Unix epoch. -/
def now (clock : ℤ) : Except DurableError ℕ :=
  if clock < 0 then .error .io
  else if clock < 2 ^ 64 then .ok clock.toNat
  else .error (.integerRange "time")

def validateProgramSource (source : String) : Except DurableError Unit :=
  reject (source = "" ∨ maxDurableProgramBytes < source.utf8ByteSize) .invalidProgram

def validateLeaseOwner (owner : String) : Except DurableError Unit :=
  reject (owner = "" ∨ maxLeaseOwnerBytes < owner.utf8ByteSize) .invalidLeaseOwner

def validateSignalName (name : String) : Except DurableError Unit :=
  reject (name = "" ∨ maxEventKeyBytes < name.utf8ByteSize) .invalidSignalName

def validateKey (key : String) : Except DurableError Unit :=
  reject (key = "" ∨ maxIdempotencyKeyBytes < key.utf8ByteSize) .invalidIdempotencyKey

/-- `serde_json::from_str` with its error. -/
def parseJson (text : String) : Except DurableError J :=
  match S.fromStr text with
  | some value => .ok value
  | none => .error .json

def validateEvent (event : NewEvent J) : Except DurableError (String × ℕ) := do
  reject (maxEventKeyBytes < event.key.utf8ByteSize) .eventKeyTooLarge
  let payload := S.toStr event.payload
  reject (maxEventPayloadBytes < payload.utf8ByteSize) .eventPayloadTooLarge
  let recordedAtMs ← toSqlInteger event.recordedAtMs "recorded_at_ms"
  return (payload, recordedAtMs)

def rawEvent (kind : EventKind) (key payloadJson : String) (recordedAtMs : ℕ) :
    Except DurableError (NewEvent J) := do
  reject (maxEventKeyBytes < key.utf8ByteSize) .eventKeyTooLarge
  reject (maxEventPayloadBytes < payloadJson.utf8ByteSize) .eventPayloadTooLarge
  let payload ← parseJson S payloadJson
  return { kind, key, payload, recordedAtMs }

def storedEvent (sequence : ℕ) (event : NewEvent J) (payloadJson : String) : TaskEvent J where
  taskId := task
  sequence := sequence
  kind := event.kind
  key := event.key
  payload := event.payload
  recordedAtMs := event.recordedAtMs
  payloadJson := payloadJson

def ensureOpen : Except DurableError Unit :=
  reject ((db.completions.get? task).isSome) (.taskCompleted task)

/-- The `EXISTS` query of `guard_execution` on the task's execution row. -/
def ExecutionClaim.holds (claim : ExecutionClaim) (time : ℕ) (row : ExecutionRow) : Bool :=
  row.state = .running && row.owner = some claim.owner &&
    row.generation = claim.generation && row.leaseUntilMs.any (time < ·)

/-- `guard_execution`: a store scoped to a claim may write only while the execution
row is running under that claim's owner and generation with an unexpired lease. -/
def guardExecution (execution : Option ExecutionClaim) (db : Db) (task : TaskId) (clock : ℤ) :
    Except DurableError Unit :=
  match execution with
  | none => .ok ()
  | some claim => do
      let _ ← toSqlInteger claim.generation "generation"
      let reading ← now clock
      let time ← toSqlInteger reading "time"
      let valid := (db.executions.get? task).any (claim.holds time)
      reject (task ≠ claim.taskId ∨ valid = false) .executionLeaseLost

def decodeProgram (row : ProgramRow) : Except DurableError DurableProgram := do
  validateProgramSource row.source
  reject (row.sourceSha256 ≠ S.sha256 row.source) .invalidProgramDigest
  return ⟨task, row.programKind, row.source, row.sourceSha256, row.registeredAtMs⟩

def selectProgram : Except DurableError (Option DurableProgram) :=
  match db.programs.get? task with
  | none => .ok none
  | some row => do
      let program ← decodeProgram S task row
      return some program

/-- The singleton row of `durable_program_stats`; a missing row is a driver error. -/
def selectProgramStats : Except DurableError ProgramStatsRow :=
  match db.programStats with
  | some stats => .ok stats
  | none => .error .sqlite

/-- `insert_event`: limits, sequence allocation and the optimistic sequence check. -/
def insertEvent (expectedSequence : Option ℕ) (event : NewEvent J) (payload : String)
    (recordedAtMs : ℕ) : Except DurableError (ℕ × Db) := do
  ensureOpen db task
  let eventBytes := event.key.utf8ByteSize + payload.utf8ByteSize
  let stats := (db.historyStats.get? task).getD ⟨0, 0⟩
  reject (maxHistoryEvents ≤ stats.eventCount) .historyEventLimit
  reject (maxHistoryBytes < stats.payloadBytes + eventBytes) .historyByteLimit
  let sequence := db.nextSequence task
  match expectedSequence with
  | some expected => reject (sequence ≠ expected) (.historyConflict expected sequence)
  | none => pure ()
  return (sequence, db.insertEventRow
    ⟨task, sequence, event.kind, event.key, payload, recordedAtMs⟩)

end Tysel.Durable
