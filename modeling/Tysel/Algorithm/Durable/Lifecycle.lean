import Tysel.Algorithm.Durable.Common

/-! # Completion and retention -/

namespace Tysel.Durable

variable {J : Type} (S : Crates J) (execution : Option ExecutionClaim) (db : Db) (task : TaskId)

/-- The clock of a leased completion is read inside the transaction; an unleased
completion keeps the caller's timestamp. -/
def completionTime (timestamp : ℕ) (leaseUntilMs : Option ℕ) (clock : ℤ) : Except DurableError ℕ :=
  match leaseUntilMs with
  | none => .ok timestamp
  | some until_ =>
    if clock < 0 then .error .io
    else if until_ ≤ clock.toNat then .error (.taskSuspended task)
    else .ok clock.toNat

def completion : Except DurableError (Option (TaskCompletion J)) :=
  match db.completions.get? task with
  | none => .ok none
  | some row => do
      let value ← parseJson S row.resultJson
      return some ⟨task, row.nextSequence, value, row.completedAtMs⟩

/-- The four clock readings of `finish_task` in the order they are taken. -/
structure FinishClocks where
  guard₁ : ℤ
  time₁ : ℤ
  time₂ : ℤ
  guard₂ : ℤ

def Db.pending : Bool := (db.wakeups.get? task).isSome || (db.signalWaits.get? task).isSome

/-- The branch of `finish_task` for a task without a stored completion. -/
def finishOpen (expectedSequence : ℕ) (json : String) (completedAtMs : ℕ) (leaseUntilMs : Option ℕ)
    (clocks : FinishClocks) : Except DurableError (Bool × Db) := do
  guardExecution execution db task clocks.guard₁
  match db.programs.get? task with
  | none => return (false, db)
  | some program => do
      let actual := db.nextSequence task
      reject (actual ≠ expectedSequence) (.historyConflict expectedSequence actual)
      reject (db.pending task) (.taskSuspended task)
      let completedAtMs ← completionTime task completedAtMs leaseUntilMs clocks.time₁
      let completedAtMs ← toSqlInteger completedAtMs "completed_at_ms"
      let inserted := db.insertCompletion task ⟨actual, json, completedAtMs⟩
      let discharged ← inserted.dischargeProgram program.source.utf8ByteSize
      let _ ← completionTime task completedAtMs leaseUntilMs clocks.time₂
      guardExecution execution discharged task clocks.guard₂
      return (true, discharged.closeExecution task .completed)

def finishTask (expectedSequence : ℕ) (value : J) (completedAtMs : ℕ) (leaseUntilMs : Option ℕ)
    (clocks : FinishClocks) : Except DurableError (Bool × Db) := do
  let json := S.toStr value
  reject (maxEventPayloadBytes < json.utf8ByteSize) .eventPayloadTooLarge
  match db.completions.get? task with
  | some row => do
      let expectedSequence ← toSqlInteger expectedSequence "next_sequence"
      -- `||` parses the stored text only when the sequences agree.
      reject (row.nextSequence ≠ expectedSequence) (.taskCompleted task)
      let stored ← parseJson S row.resultJson
      reject (S.eq stored value = false) (.taskCompleted task)
      return (true, db)
  | none =>
    finishOpen execution db task expectedSequence json completedAtMs leaseUntilMs clocks

/-- The bytes a completed task retains in its tables. -/
def Db.retainedBytes (row : CompletionRow) : ℕ :=
  ((db.historyStats.get? task).map HistoryStatsRow.payloadBytes).getD 0 +
    ((db.programs.get? task).map fun p => p.source.utf8ByteSize).getD 0 +
    row.resultJson.utf8ByteSize + db.pendingBytes task +
    ((db.receiptsOf task).map fun r =>
      r.requestKey.utf8ByteSize + r.signalName.utf8ByteSize + r.payload.utf8ByteSize).sum

def completionOrder (a b : TaskId × CompletionRow) : Prop :=
  a.2.completedAtMs < b.2.completedAtMs ∨ a.2.completedAtMs = b.2.completedAtMs ∧ a.1 ≤ b.1

instance : DecidableRel completionOrder := fun _ _ =>
  inferInstanceAs (Decidable (_ ∨ _ ∧ _))

/-- The deletion loop over the candidates still to visit. -/
def pruneLoop : List (TaskId × ℕ) → ℕ → ℕ → Db → ℕ × Db
  | [], deleted, _, db => (deleted, db)
  | (task, retained) :: rest, deleted, bytes, db =>
    if 0 < deleted ∧ maxHistoryBytes < bytes + retained then (deleted, db)
    else if db.pending task then pruneLoop rest deleted bytes db
    else pruneLoop rest (deleted + 1) (bytes + retained) (db.deleteTask task)

def pruneCompleted (beforeMs limit : ℕ) : Except DurableError (ℕ × Db) :=
  if limit = 0 then .ok (0, db)
  else do
    let beforeMs ← toSqlInteger beforeMs "before_ms"
    let rows := (db.completions.entries.filter fun e => e.2.completedAtMs < beforeMs).map
      fun e => (e.1, e.2)
    let candidates := ((rows.insertionSort completionOrder).take (min limit maxPruneBatch)).map
      fun e => (e.1, db.retainedBytes e.1 e.2)
    return pruneLoop candidates 0 0 db

end Tysel.Durable
