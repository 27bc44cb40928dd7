import Tysel.Algorithm.Durable.Common

/-! Every append goes through `appendValidated`: guard, insert, optional wakeup, guard.
The two clock readings of the guards are arguments. -/

namespace Tysel.Durable

variable {J : Type} (S : Crates J) (execution : Option ExecutionClaim) (db : Db) (task : TaskId)

/-- The transaction shared by the append operations once their arguments are validated. -/
def appendValidated (expectedSequence : Option ℕ) (event : NewEvent J) (payload : String)
    (recordedAtMs : ℕ) (wakeAtMs : Option ℕ) (clock₁ clock₂ : ℤ) :
    Except DurableError (TaskEvent J × Db) := do
  guardExecution execution db task clock₁
  let (sequence, inserted) ← insertEvent db task expectedSequence event payload recordedAtMs
  let written := match wakeAtMs with
    | some wake => inserted.upsertWakeup task sequence wake
    | none => inserted
  guardExecution execution written task clock₂
  return (storedEvent task sequence event payload, written)

def appendEventJsonAt (expectedSequence : ℕ) (kind : EventKind) (key payloadJson : String)
    (recordedAtMs : ℕ) (clock₁ clock₂ : ℤ) : Except DurableError (TaskEvent J × Db) := do
  let event ← rawEvent S kind key payloadJson recordedAtMs
  let recordedAtMs ← toSqlInteger recordedAtMs "recorded_at_ms"
  appendValidated execution db task (some expectedSequence) event payloadJson recordedAtMs none
    clock₁ clock₂

/-- `append_event` and `append_event_at`, which differ in the expected sequence. -/
def appendEventInner (expectedSequence : Option ℕ) (event : NewEvent J) (clock₁ clock₂ : ℤ) :
    Except DurableError (TaskEvent J × Db) := do
  let (payload, recordedAtMs) ← validateEvent S event
  appendValidated execution db task expectedSequence event payload recordedAtMs none clock₁ clock₂

def appendEventJsonWithWakeupAt (expectedSequence : ℕ) (key payloadJson : String)
    (recordedAtMs wakeAtMs : ℕ) (clock₁ clock₂ : ℤ) : Except DurableError (TaskEvent J × Db) := do
  let event ← rawEvent S .sleep key payloadJson recordedAtMs
  let recordedAtMs ← toSqlInteger recordedAtMs "recorded_at_ms"
  let wakeAtMs ← toSqlInteger wakeAtMs "wake_at_ms"
  appendValidated execution db task (some expectedSequence) event payloadJson recordedAtMs
    (some wakeAtMs) clock₁ clock₂

/-- `append_event_with_wakeup` and `append_event_with_wakeup_at`. -/
def appendEventWithWakeupInner (expectedSequence : Option ℕ) (event : NewEvent J) (wakeAtMs : ℕ)
    (clock₁ clock₂ : ℤ) : Except DurableError (TaskEvent J × Db) := do
  let (payload, recordedAtMs) ← validateEvent S event
  let wakeAtMs ← toSqlInteger wakeAtMs "wake_at_ms"
  appendValidated execution db task expectedSequence event payload recordedAtMs (some wakeAtMs)
    clock₁ clock₂

def decodeHistoryRows (S : Crates J) (task : TaskId) :
    List EventRow → List (TaskEvent J) → ℕ → Except DurableError (List (TaskEvent J))
  | [], events, _ => .ok events
  | row :: rows, events, historyBytes => do
      reject (maxHistoryEvents ≤ events.length) .historyEventLimit
      let historyBytes := historyBytes + row.eventKey.utf8ByteSize + row.payload.utf8ByteSize
      reject (maxHistoryBytes < historyBytes) .historyByteLimit
      let payload ← parseJson S row.payload
      decodeHistoryRows S task rows
        (events ++ [⟨task, row.sequence, row.kind, row.eventKey, payload, row.recordedAtMs,
          row.payload⟩]) historyBytes

def loadHistory : Except DurableError (History J) := do
  let rows := ((db.eventsOf task).insertionSort fun a b => a.sequence ≤ b.sequence).take
    (maxHistoryEvents + 1)
  let events ← decodeHistoryRows S task rows [] 0
  return ⟨task, events⟩

end Tysel.Durable
