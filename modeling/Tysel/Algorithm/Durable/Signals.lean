import Tysel.Algorithm.Durable.Wakeups

/-! # Signal operations -/

namespace Tysel.Durable

variable {J : Type} (S : Crates J) (db : Db) (task : TaskId)

/-- The receipt check of a keyed signal: the id of an earlier identical request, or
`none` when the request is new and may be accepted. -/
def checkReceipt (signalName payload key : String) : Except DurableError (Option ℕ) := do
  validateKey key
  let hash := S.sha256 payload
  match db.receipt? task key with
  | some receipt => do
      reject (receipt.signalName ≠ signalName ∨ receipt.payload ≠ hash) .admissionConflict
      return some receipt.signalId
  | none => do
      reject (maxHistoryEvents ≤ (db.receiptsOf task).length) .signalInboxLimit
      reject ((db.programs.get? task).isNone) .admissionConflict
      return none

def checkPrior (signalName payload : String) (key : Option String) :
    Except DurableError (Option ℕ) :=
  match key with
  | some key => checkReceipt S db task signalName payload key
  | none => .ok none

/-- A wait for this signal becomes immediately claimable unless the task already has a wakeup
(`ON CONFLICT(task_id) DO NOTHING`). -/
def Db.wakeWaiting (signalName : String) (sentAtMs : ℕ) : Db :=
  { db with
    wakeups := match db.signalWaits.get? task with
      | some wait =>
        if wait.signalName = signalName then
          db.wakeups.insertNew task ⟨wait.sequence, sentAtMs, none, none⟩
        else db.wakeups
      | none => db.wakeups }

/-- The inbox insert, the wakeup of a matching wait and the receipt of one accepted signal. -/
def deliverSignal (signalName payload : String) (sentAtMs : ℕ) (key : Option String) :
    Except DurableError (ℕ × Db) := do
  ensureOpen db task
  reject (maxPendingSignals ≤ (db.inboxOf task).length ∨
    maxHistoryBytes < db.pendingBytes task + (signalName.utf8ByteSize + payload.utf8ByteSize))
    .signalInboxLimit
  let queued := db.insertSignal task signalName payload sentAtMs
  let signalId := queued.inboxSequence
  let woken := queued.wakeWaiting task signalName sentAtMs
  match key with
  | some key =>
    return (signalId, woken.insertReceipt ⟨task, key, signalName, S.sha256 payload, signalId⟩)
  | none => return (signalId, woken)

def sendSignalInner (signalName : String) (payload : J) (sentAtMs : ℕ) (key : Option String) :
    Except DurableError (ℕ × Db) := do
  validateSignalName signalName
  let payload := S.toStr payload
  reject (maxEventPayloadBytes < payload.utf8ByteSize) .eventPayloadTooLarge
  let sentAtMs ← toSqlInteger sentAtMs "sent_at_ms"
  let prior ← checkPrior S db task signalName payload key
  match prior with
  | some signalId => return (signalId, db)
  | none => deliverSignal S db task signalName payload sentAtMs key

def signalWait : Option SignalWait :=
  (db.signalWaits.get? task).map fun w => ⟨task, w.sequence, w.signalName⟩

/-- `register_signal_wait`: an identical wait is kept, another one is a conflict. -/
def registerSignalWait (sequence : ℕ) (signalName : String) : Except DurableError Db :=
  match db.signalWaits.get? task with
  | some wait => do
      reject (wait.sequence ≠ sequence ∨ wait.signalName ≠ signalName) .signalWaitConflict
      return db
  | none => do
      let sequence ← toSqlInteger sequence "sequence"
      return db.insertWait task ⟨sequence, signalName⟩

/-- Take the wakeup that entitles a poll to consume a queued signal. -/
def takeSignalWakeup (expectedSequence nowMs : ℕ) (claim : Option WakeupClaim) :
    Except DurableError Db :=
  match claim with
  | some claim => do
      reject ((db.signalWaits.get? task).isNone ∨ claim.taskId ≠ task ∨
        claim.sequence ≠ expectedSequence) .wakeupClaimRequired
      claim.toSql
      reject (((db.wakeups.get? task).any fun w =>
        claim.matches w && decide (nowMs < claim.leaseUntilMs)) = false) .wakeupClaimRequired
      return db.deleteWakeup task
  | none => do
      reject ((db.signalWaits.get? task).isSome) .wakeupClaimRequired
      reject ((db.wakeups.get? task).isSome) .wakeupClaimRequired
      return db

/-- Move a queued signal from the inbox to the history and clear its wait. -/
def consumeSignal (expectedSequence : ℕ) (queued : InboxRow) :
    Except DurableError (TaskEvent J × Db) := do
  let payload ← parseJson S queued.payload
  let event : NewEvent J := ⟨.signal, queued.signalName, payload, queued.sentAtMs⟩
  let (sequence, inserted) ←
    insertEvent db task (some expectedSequence) event queued.payload queued.sentAtMs
  let cleared := (inserted.deleteSignal queued.id).deleteWait task sequence queued.signalName
  return (storedEvent task sequence event queued.payload, cleared)

/-- Atomically consume the oldest matching signal and append its replay event. If no
signal exists, register the boundary as suspended. -/
def pollSignal (execution : Option ExecutionClaim) (db : Db) (task : TaskId) (expectedSequence : ℕ)
    (signalName : String) (nowMs : ℕ) (claim : Option WakeupClaim) (clock₁ clock₂ : ℤ) :
    Except DurableError (Option (TaskEvent J) × Db) := do
  validateSignalName signalName
  let nowMs ← toSqlInteger nowMs "now_ms"
  guardExecution execution db task clock₁
  ensureOpen db task
  let actual := db.nextSequence task
  reject (actual ≠ expectedSequence) (.historyConflict expectedSequence actual)
  reject ((db.signalWaits.get? task).any fun w =>
    w.sequence ≠ expectedSequence || w.signalName ≠ signalName) .signalWaitConflict
  match db.oldestSignal task signalName with
  | none => do
      let waiting ← registerSignalWait db task expectedSequence signalName
      guardExecution execution waiting task clock₂
      return (none, waiting)
  | some queued => do
      let taken ← takeSignalWakeup db task expectedSequence nowMs claim
      let (event, consumed) ← consumeSignal S taken task expectedSequence queued
      guardExecution execution consumed task clock₂
      return (some event, consumed)

end Tysel.Durable
