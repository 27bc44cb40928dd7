import Tysel.Algorithm.Durable.Programs
import Tysel.Algorithm.Durable.Events
import Tysel.Algorithm.Durable.Signals
import Tysel.Algorithm.Durable.Execution
import Tysel.Algorithm.Durable.Lifecycle
import Tysel.Algorithm.Durable.Schema

/-! The tables have the columns of the SQLite schema, so the statements that both stores run are
those of `Db`. Every mutation of one task first locks the task's row in `durable_task_locks`.
A transaction that is not committed leaves no lock row either. Inbox ids come from a
`BIGSERIAL` sequence: `nextval n` is the id of the `n`-th committed insert, with gaps where
other transactions were dropped. -/

namespace Tysel.Durable

structure PostgresDb where
  tables : Db
  taskLocks : Finset TaskId

namespace PostgresDb

def fresh : PostgresDb := ⟨Db.fresh, ∅⟩

/-- `INSERT INTO durable_task_locks .. ON CONFLICT DO NOTHING` -/
def lockRow (pg : PostgresDb) (task : TaskId) : PostgresDb :=
  { pg with taskLocks := insert task pg.taskLocks }

/-- The statements of a transaction on the shared tables. -/
def write (pg : PostgresDb) (tables : Db) : PostgresDb := { pg with tables }

end PostgresDb

namespace Postgres

variable {J : Type} (S : Crates J) (execution : Option ExecutionClaim) (pg : PostgresDb)
  (task : TaskId)

/-! ## Locks and guards -/

/-- `lock_task`: the lock row, then the completion check. -/
def lockTask : Except DurableError PostgresDb := do
  let locked := pg.lockRow task
  reject ((locked.tables.completions.get? task).isSome) (.taskCompleted task)
  return locked

/-- `guard_execution`. The lock row is selected with `query_one`, which is a driver error on a
task that was never locked. -/
def guardExecution (clock : ℤ) : Except DurableError Unit :=
  match execution with
  | none => .ok ()
  | some claim => do
      reject (task ∉ pg.taskLocks) .postgres
      let _ ← toSqlInteger claim.generation "generation"
      let reading ← now clock
      let time ← toSqlInteger reading "time"
      let valid := (pg.tables.executions.get? task).any (claim.holds time)
      reject (task ≠ claim.taskId ∨ valid = false) .executionLeaseLost

def insertEvent (expectedSequence : ℕ) (event : NewEvent J) (payload : String) (recordedAtMs : ℕ) :
    Except DurableError (ℕ × PostgresDb) := do
  let locked ← lockTask pg task
  let stats := (locked.tables.historyStats.get? task).getD ⟨0, 0⟩
  reject (maxHistoryEvents ≤ stats.eventCount) .historyEventLimit
  let eventBytes := event.key.utf8ByteSize + payload.utf8ByteSize
  reject (maxHistoryBytes < stats.payloadBytes + eventBytes) .historyByteLimit
  let sequence := locked.tables.nextSequence task
  reject (sequence ≠ expectedSequence) (.historyConflict expectedSequence sequence)
  return (sequence, locked.write (locked.tables.insertEventRow
    ⟨task, sequence, event.kind, event.key, payload, recordedAtMs⟩))

/-! ## Programs -/

/-- `select_program` decodes the row as the SQLite store does. -/
def program : Except DurableError (Option DurableProgram) := selectProgram S pg.tables task

/-- `SELECT active_count, active_bytes .. FOR UPDATE` with `query_one`. -/
def selectProgramStats : Except DurableError ProgramStatsRow :=
  match pg.tables.programStats with
  | some stats => .ok stats
  | none => .error .postgres

/-- The quota decrement; a violated `CHECK` constraint is a driver error. -/
def dischargeProgram (bytes : ℕ) : Except DurableError PostgresDb :=
  match pg.tables.programStats with
  | none => .ok pg
  | some s =>
    if 1 ≤ s.activeCount ∧ bytes ≤ s.activeBytes then
      .ok (pg.write { pg.tables with
        programStats := some ⟨s.activeCount - 1, s.activeBytes - bytes⟩ })
    else .error .postgres

def putProgramInner (kind : DurableProgramKind) (source : String) (registeredAtMs : ℕ) :
    Except DurableError (Option DurableProgram × PostgresDb) := do
  validateProgramSource source
  let registeredAtMs ← toSqlInteger registeredAtMs "registered_at_ms"
  let digest := S.sha256 source
  let locked ← lockTask pg task
  let existing ← program S locked task
  match existing with
  | some program => do
      reject (program.kind ≠ kind ∨ program.sourceSha256 ≠ digest ∨ program.source ≠ source)
        (.programConflict task)
      return (some program, locked)
  | none => do
      let stats ← selectProgramStats locked
      reject (maxDurablePrograms ≤ stats.activeCount) .programLimit
      reject (maxDurableProgramTotalBytes < stats.activeBytes + source.utf8ByteSize)
        .programByteLimit
      return (none, locked.write
        (locked.tables.insertProgram task ⟨kind, source, digest, registeredAtMs⟩))

def putProgram (source : String) (registeredAtMs : ℕ) :=
  putProgramInner S pg task .script source registeredAtMs

def putModule (source : String) (registeredAtMs : ℕ) :=
  putProgramInner S pg task .module source registeredAtMs

def removeProgram : Except DurableError (Option DurableProgram × PostgresDb) := do
  let locked ← lockTask pg task
  let existing ← program S locked task
  match existing with
  | none => return (none, locked)
  | some program => do
      reject (locked.tables.inUse task) (.programInUse task)
      let discharged ← dischargeProgram locked program.source.utf8ByteSize
      return (some program, discharged.write (discharged.tables.deleteProgram task))

def programCount : Except DurableError ℕ := do
  let stats ← selectProgramStats pg
  return stats.activeCount

/-- The decoding loop of `load_due_programs_batch`: a row is decoded before it is counted. -/
def decodeRows (S : Crates J) :
    List (TaskId × ProgramRow) → List DurableProgram → ℕ → Except DurableError (List DurableProgram)
  | [], programs, _ => .ok programs
  | (task, row) :: rows, programs, total => do
      let program ← decodeProgram S task row
      let total := total + program.source.utf8ByteSize
      reject (maxDurableProgramTotalBytes < total) .programByteLimit
      decodeRows S rows (programs ++ [program]) total

def loadDueProgramsBatch (nowMs : ℕ) (kind : DurableProgramKind) (limit : ℕ) :
    Except DurableError (List DurableProgram) := do
  let nowMs ← toSqlInteger nowMs "now_ms"
  let rows := ((pg.tables.duePrograms nowMs kind).insertionSort dueOrder).take
    (min limit maxDurablePrograms)
  reject (maxDurablePrograms < rows.length) .programLimit
  decodeRows S (rows.map Prod.snd) [] 0

def loadDueProgramsByKind (nowMs : ℕ) (kind : DurableProgramKind) :
    Except DurableError (List DurableProgram) :=
  loadDueProgramsBatch S pg nowMs kind maxDurablePrograms

def logVersion : Except DurableError ℕ :=
  match pg.tables.schemaVersion with
  | some version => do
      reject (2 ^ 32 ≤ version) .invalidLogVersion
      return version
  | none => .error .invalidLogVersion

/-! ## History -/

def appendValidated (expectedSequence : ℕ) (event : NewEvent J) (payloadJson : String)
    (wakeAtMs : Option ℕ) (clock₁ clock₂ : ℤ) : Except DurableError (TaskEvent J × PostgresDb) := do
  let recordedSql ← toSqlInteger event.recordedAtMs "recorded_at_ms"
  let wakeSql ← wakeAtMs.mapM fun value => toSqlInteger value "wake_at_ms"
  guardExecution execution pg task clock₁
  let (sequence, inserted) ← insertEvent pg task expectedSequence event payloadJson recordedSql
  let written := match wakeSql with
    | some wake => inserted.write (inserted.tables.upsertWakeup task sequence wake)
    | none => inserted
  guardExecution execution written task clock₂
  return (storedEvent task sequence event payloadJson, written)

def appendEventJsonAt (expectedSequence : ℕ) (kind : EventKind) (key payloadJson : String)
    (recordedAtMs : ℕ) (clock₁ clock₂ : ℤ) : Except DurableError (TaskEvent J × PostgresDb) := do
  let event ← rawEvent S kind key payloadJson recordedAtMs
  appendValidated execution pg task expectedSequence event payloadJson none clock₁ clock₂

def appendEventJsonWithWakeupAt (expectedSequence : ℕ) (key payloadJson : String)
    (recordedAtMs wakeAtMs : ℕ) (clock₁ clock₂ : ℤ) :
    Except DurableError (TaskEvent J × PostgresDb) := do
  let event ← rawEvent S .sleep key payloadJson recordedAtMs
  appendValidated execution pg task expectedSequence event payloadJson (some wakeAtMs) clock₁ clock₂

/-- The row loop of `load_history`, as in the SQLite store. -/
def loadHistory : Except DurableError (History J) := do
  let rows := ((pg.tables.eventsOf task).insertionSort fun a b => a.sequence ≤ b.sequence).take
    (maxHistoryEvents + 1)
  let events ← decodeHistoryRows S task rows [] 0
  return ⟨task, events⟩

/-! ## Wakeups -/

/-- `sort_unstable_by_key(|claim| (claim.wake_at_ms, claim.task_id))` -/
def claimOrder (a b : WakeupClaim) : Prop :=
  a.wakeAtMs < b.wakeAtMs ∨ a.wakeAtMs = b.wakeAtMs ∧ a.taskId ≤ b.taskId

instance : DecidableRel claimOrder := fun _ _ =>
  inferInstanceAs (Decidable (_ ∨ _ ∧ _))

def leaseRow (owner : String) (until_ : ℕ) (w : WakeupRow) : WakeupRow :=
  { w with leaseOwner := some owner, leaseUntilMs := some until_ }

def leaseRows (owner : String) (until_ : ℕ) (tasks : List TaskId) (t : Table TaskId WakeupRow) :
    Table TaskId WakeupRow :=
  tasks.foldl (fun t task => t.modify task (leaseRow owner until_)) t

def leaseClaim (owner : String) (until_ : ℕ) (e : TaskId × WakeupRow) : WakeupClaim :=
  ⟨e.1, e.2.sequence, e.2.wakeAtMs, owner, until_⟩

/-- One `UPDATE .. FROM candidates .. RETURNING` statement; the returned rows come in the
order of the table and are sorted afterwards. -/
def claimDueWakeups (nowMs limit : ℕ) (leaseOwner : String) (leaseDurationMs : ℕ) :
    Except DurableError (List WakeupClaim × PostgresDb) := do
  validateLeaseOwner leaseOwner
  if limit = 0 then
    return ([], pg)
  else do
    let leaseUntilMs ← leaseDeadline nowMs leaseDurationMs
    let now ← toSqlInteger nowMs "now_ms"
    let leaseUntilMs ← toSqlInteger leaseUntilMs "lease_until_ms"
    let rows := pg.tables.wakeups.select fun _ w => w.claimable now
    let candidates := ((rows.insertionSort wakeupOrder).take (min limit maxWakeupBatch)).map
      Prod.fst
    let returned := pg.tables.wakeups.select fun task _ => task ∈ candidates
    let claims := returned.map (leaseClaim leaseOwner leaseUntilMs)
    let wakeups := leaseRows leaseOwner leaseUntilMs candidates pg.tables.wakeups
    return (claims.insertionSort claimOrder, pg.write { pg.tables with wakeups })

def claimWakeup (nowMs : ℕ) (leaseOwner : String) (leaseDurationMs : ℕ) :
    Except DurableError (Option WakeupClaim × PostgresDb) := do
  validateLeaseOwner leaseOwner
  let leaseUntilMs ← leaseDeadline nowMs leaseDurationMs
  let now ← toSqlInteger nowMs "now_ms"
  let leaseUntilMs ← toSqlInteger leaseUntilMs "lease_until_ms"
  match pg.tables.wakeups.get? task with
  | none => return (none, pg)
  | some w =>
    if w.claimable now then
      return (some ⟨task, w.sequence, w.wakeAtMs, leaseOwner, leaseUntilMs⟩,
        pg.write (pg.tables.setWakeup task (leaseRow leaseOwner leaseUntilMs w)))
    else return (none, pg)

/-- The integer conversions come before the guard here. -/
def completeWakeup (sequence : ℕ) (leaseOwner : Option String) (nowMs : ℕ) (clock₁ clock₂ : ℤ) :
    Except DurableError (Bool × PostgresDb) := do
  let sequence ← toSqlInteger sequence "sequence"
  let now ← toSqlInteger nowMs "now_ms"
  guardExecution execution pg task clock₁
  validateWakeupOwner leaseOwner
  let changed := (pg.tables.wakeups.get? task).any fun w => w.completable sequence leaseOwner now
  let written := if changed then pg.write (pg.tables.deleteWakeup task) else pg
  guardExecution execution written task clock₂
  return (changed, written)

def claimIsActive (claim : WakeupClaim) (nowMs : ℕ) : Except DurableError Bool := do
  claim.toSql
  let now ← toSqlInteger nowMs "now_ms"
  return (pg.tables.wakeups.get? claim.taskId).any fun w =>
    claim.matches w && decide (now < claim.leaseUntilMs)

def renewWakeupClaim (claim : WakeupClaim) (nowMs leaseDurationMs : ℕ) :
    Except DurableError (Option WakeupClaim × PostgresDb) := do
  validateLeaseOwner claim.leaseOwner
  let leaseUntilMs ← leaseDeadline nowMs leaseDurationMs
  let leaseUntilMs ← toSqlInteger leaseUntilMs "lease_until_ms"
  claim.toSql
  let now ← toSqlInteger nowMs "now_ms"
  match pg.tables.wakeups.get? claim.taskId with
  | none => return (none, pg)
  | some w =>
    if claim.matches w ∧ now < claim.leaseUntilMs then
      return (some { claim with leaseUntilMs }, pg.write
        (pg.tables.setWakeup claim.taskId { w with leaseUntilMs := some leaseUntilMs }))
    else return (none, pg)

def releaseWakeupClaim (claim : WakeupClaim) : Except DurableError (Bool × PostgresDb) := do
  validateLeaseOwner claim.leaseOwner
  claim.toSql
  match pg.tables.wakeups.get? claim.taskId with
  | none => return (false, pg)
  | some w =>
    if claim.matches w then
      return (true, pg.write
        (pg.tables.setWakeup claim.taskId { w with leaseOwner := none, leaseUntilMs := none }))
    else return (false, pg)

def wakeup : Option Wakeup :=
  (pg.tables.wakeups.get? task).map fun w => ⟨task, w.sequence, w.wakeAtMs⟩

def signalWait : Option SignalWait :=
  (pg.tables.signalWaits.get? task).map fun w => ⟨task, w.sequence, w.signalName⟩

/-! ## Signals -/

/-- `INSERT INTO durable_signal_inbox .. RETURNING id` -/
def insertSignal (nextval : ℕ → ℕ) (db : Db) (task : TaskId) (name payload : String)
    (sentAtMs : ℕ) : ℕ × Db :=
  let id := nextval (db.inboxSequence + 1)
  (id, { db with
    signalInbox := db.signalInbox ++ [⟨id, task, name, payload, sentAtMs⟩]
    inboxSequence := db.inboxSequence + 1 })

/-- The receipt check runs before `lock_task` looks for a completion. -/
def checkPrior (signalName payload : String) (key : Option String) :
    Except DurableError (Option ℕ) :=
  match key with
  | none => .ok none
  | some key => do
      validateKey key
      let hash := S.sha256 payload
      match pg.tables.receipt? task key with
      | some receipt => do
          reject (receipt.signalName ≠ signalName ∨ receipt.payload ≠ hash) .admissionConflict
          return some receipt.signalId
      | none => do
          reject (maxHistoryEvents ≤ (pg.tables.receiptsOf task).length) .signalInboxLimit
          reject ((pg.tables.programs.get? task).isNone) .admissionConflict
          return none

def sendSignalInner (nextval : ℕ → ℕ) (pg : PostgresDb) (task : TaskId) (signalName : String)
    (payload : J) (sentAtMs : ℕ) (key : Option String) :
    Except DurableError (ℕ × PostgresDb) := do
  validateSignalName signalName
  let payload := S.toStr payload
  reject (maxEventPayloadBytes < payload.utf8ByteSize) .eventPayloadTooLarge
  let sentAtMs ← toSqlInteger sentAtMs "sent_at_ms"
  let prior ← checkPrior S (pg.lockRow task) task signalName payload key
  match prior with
  -- the transaction is dropped
  | some signalId => return (signalId, pg)
  | none => do
      let locked ← lockTask pg task
      reject (maxPendingSignals ≤ (locked.tables.inboxOf task).length ∨ maxHistoryBytes <
          locked.tables.pendingBytes task + (signalName.utf8ByteSize + payload.utf8ByteSize))
        .signalInboxLimit
      let (signalId, queued) := insertSignal nextval locked.tables task signalName payload sentAtMs
      let woken := queued.wakeWaiting task signalName sentAtMs
      let written := match key with
        | some key =>
          woken.insertReceipt ⟨task, key, signalName, S.sha256 payload, signalId⟩
        | none => woken
      return (signalId, locked.write written)

/-- `INSERT .. ON CONFLICT (task_id) DO NOTHING`, then the stored wait is compared. -/
def registerWait (db : Db) (task : TaskId) (expectedSequence : ℕ) (signalName : String) :
    Except DurableError Db := do
  let sequence ← toSqlInteger expectedSequence "sequence"
  let inserted := { db with signalWaits := db.signalWaits.insertNew task ⟨sequence, signalName⟩ }
  match inserted.signalWaits.get? task with
  | none => .error .postgres
  | some wait => do
      reject (wait.sequence ≠ expectedSequence ∨ wait.signalName ≠ signalName) .signalWaitConflict
      return inserted

/-- The wakeup that entitles a poll to consume a queued signal. -/
def takeWakeup (db : Db) (task : TaskId) (expectedSequence nowMs : ℕ)
    (claim : Option WakeupClaim) : Except DurableError Db :=
  match claim with
  | some claim => do
      reject ((db.signalWaits.get? task).isNone ∨ claim.taskId ≠ task ∨
        claim.sequence ≠ expectedSequence) .wakeupClaimRequired
      claim.toSql
      let changed := (db.wakeups.get? task).any fun w =>
        claim.matches w && decide (nowMs < claim.leaseUntilMs)
      reject (changed = false) .wakeupClaimRequired
      return db.deleteWakeup task
  | none => do
      reject ((db.signalWaits.get? task).isSome ∨ (db.wakeups.get? task).isSome)
        .wakeupClaimRequired
      return db

def pollSignal (expectedSequence : ℕ) (signalName : String) (nowMs : ℕ) (claim : Option WakeupClaim)
    (clock₁ clock₂ : ℤ) :
    Except DurableError (Option (TaskEvent J) × PostgresDb) := do
  validateSignalName signalName
  let nowMs ← toSqlInteger nowMs "now_ms"
  guardExecution execution pg task clock₁
  let locked ← lockTask pg task
  let actual := locked.tables.nextSequence task
  reject (actual ≠ expectedSequence) (.historyConflict expectedSequence actual)
  reject ((locked.tables.signalWaits.get? task).any fun w =>
    w.sequence ≠ expectedSequence || w.signalName ≠ signalName) .signalWaitConflict
  match locked.tables.oldestSignal task signalName with
  | none => do
      let waiting ← registerWait locked.tables task expectedSequence signalName
      let written := locked.write waiting
      guardExecution execution written task clock₂
      return (none, written)
  | some queued => do
      let taken ← takeWakeup locked.tables task expectedSequence nowMs claim
      let payload ← parseJson S queued.payload
      let event : NewEvent J := ⟨.signal, signalName, payload, queued.sentAtMs⟩
      let (sequence, inserted) ← insertEvent (locked.write taken) task expectedSequence event
        queued.payload queued.sentAtMs
      let cleared := (inserted.tables.deleteSignal queued.id).deleteWait task sequence signalName
      let written := inserted.write cleared
      guardExecution execution written task clock₂
      return (some (storedEvent task sequence event queued.payload), written)

/-! ## Admission and execution claims -/

def admitModule (key source input : String) (time : ℕ) :
    Except DurableError (Unit × PostgresDb) := do
  validateKey key
  let (hash, input) ← fingerprint S source input
  let locked := pg.lockRow task
  match locked.tables.executions.get? task with
  | some row => do
      reject (row.admissionKey ≠ some key ∨ row.requestHash ≠ some hash) .admissionConflict
      -- the transaction is dropped
      return ((), pg)
  | none => do
      let existing ← program S locked task
      reject existing.isSome .admissionConflict
      let stats ← selectProgramStats locked
      reject (maxDurablePrograms ≤ stats.activeCount) .programLimit
      reject (maxDurableProgramTotalBytes < stats.activeBytes + source.utf8ByteSize)
        .programByteLimit
      let registeredAtMs ← toSqlInteger time "time"
      let registered := locked.write
        (locked.tables.insertProgram task ⟨.module, source, S.sha256 source, registeredAtMs⟩)
      let event ← rawEvent S .step taskInputKey input time
      let (_, recorded) ← insertEvent registered task 0 event input registeredAtMs
      return ((), recorded.write
        (recorded.tables.setExecution task ⟨.ready, 0, none, none, some key, some hash⟩))

/-- `claim_run`. With one caller at a time `SKIP LOCKED` never skips the row. -/
def claimRun (owner : String) (duration : ℕ) (drawn : Option String) (clock₁ clock₂ : ℤ) :
    Except DurableError (Option ExecutionClaim × PostgresDb) := do
  let token ← ownerToken owner drawn
  let locked := pg.lockRow task
  let db := locked.tables
  if (db.completions.get? task).isSome then
    return (none, pg)
  else if (db.programs.get? task).isNone then
    return (none, pg)
  else do
    let time ← now clock₁
    let until_ ← executionDeadline time duration
    if db.claimBlocked task time then
      return (none, pg)
    else do
      let generation ← nextGeneration (db.executions.get? task)
      let until_ ← toSqlInteger until_ "lease"
      let again ← now clock₂
      if until_ ≤ again then
        return (none, pg)
      else
        return (some
          { taskId := task
            owner := token
            generation := generation
            leaseUntilMs := until_
            wakeup := (db.wakeups.get? task).map fun w =>
              ⟨task, w.sequence, w.wakeAtMs, token, until_⟩ },
          locked.write (db.grantRun task generation token until_))

def releaseRun (claim : ExecutionClaim) (failed : Bool) (clock₁ clock₂ : ℤ) :
    Except DurableError (Unit × PostgresDb) := do
  guardExecution (some claim) pg claim.taskId clock₁
  let unleased := pg.write (pg.tables.clearWakeupLease claim.taskId)
  guardExecution (some claim) unleased claim.taskId clock₂
  return ((), unleased.write
    (unleased.tables.closeExecution claim.taskId (if failed then .failed else .suspended)))

def executionFailed : Bool := (pg.tables.executions.get? task).any fun r => r.state = .failed

/-! ## Completion and retention -/

def readCompletion : Except DurableError (Option (TaskCompletion J)) :=
  match pg.tables.completions.get? task with
  | none => .ok none
  | some row => do
      let value ← parseJson S row.resultJson
      return some ⟨task, row.nextSequence, value, row.completedAtMs⟩

/-- `finish_task`. The quota is updated before the clock is read, so that its row lock cannot
delay the commit past the lease check. -/
def finishTask (expectedSequence : ℕ) (value : J) (completedAtMs : ℕ) (leaseUntilMs : Option ℕ)
    (clocks : FinishClocks) :
    Except DurableError (Bool × PostgresDb) := do
  let json := S.toStr value
  reject (maxEventPayloadBytes < json.utf8ByteSize) .eventPayloadTooLarge
  let locked := pg.lockRow task
  match locked.tables.completions.get? task with
  | some row => do
      let expectedSequence ← toSqlInteger expectedSequence "next_sequence"
      reject (row.nextSequence ≠ expectedSequence) (.taskCompleted task)
      let stored ← parseJson S row.resultJson
      reject (S.eq stored value = false) (.taskCompleted task)
      return (true, pg)
  | none => do
      guardExecution execution locked task clocks.guard₁
      match locked.tables.programs.get? task with
      | none => return (false, pg)
      | some program => do
          let actual := locked.tables.nextSequence task
          reject (actual ≠ expectedSequence) (.historyConflict expectedSequence actual)
          reject (locked.tables.pending task) (.taskSuspended task)
          let discharged ← dischargeProgram locked program.source.utf8ByteSize
          let completedAtMs ← completionTime task completedAtMs leaseUntilMs clocks.time₁
          let completedAtMs ← toSqlInteger completedAtMs "completed_at_ms"
          let inserted := discharged.write
            (discharged.tables.insertCompletion task ⟨actual, json, completedAtMs⟩)
          let _ ← completionTime task completedAtMs leaseUntilMs clocks.time₂
          guardExecution execution inserted task clocks.guard₂
          return (true, inserted.write (inserted.tables.closeExecution task .completed))

/-- The deletion of one candidate runs in its own transaction, which checks again that the
task is completed before the cutoff and not suspended. -/
def eligible (beforeMs : ℕ) (task : TaskId) : Bool :=
  (pg.tables.completions.get? task).any (·.completedAtMs < beforeMs) &&
    !(pg.tables.wakeups.get? task).isSome && !(pg.tables.signalWaits.get? task).isSome

def pruneLoop (beforeMs : ℕ) : List (TaskId × ℕ) → ℕ → ℕ → PostgresDb → ℕ × PostgresDb
  | [], deleted, _, pg => (deleted, pg)
  | (task, retained) :: rest, deleted, bytes, pg =>
    if 0 < deleted ∧ maxHistoryBytes < bytes + retained then (deleted, pg)
    else
      let locked := pg.lockRow task
      if eligible locked beforeMs task then
        pruneLoop beforeMs rest (deleted + 1) (bytes + retained)
          (locked.write (locked.tables.deleteTask task))
      else pruneLoop beforeMs rest deleted bytes pg

def pruneFinished (beforeMs limit : ℕ) : Except DurableError (ℕ × PostgresDb) :=
  if limit = 0 then .ok (0, pg)
  else do
    let beforeMs ← toSqlInteger beforeMs "before_ms"
    let rows := (pg.tables.completions.entries.filter fun e => e.2.completedAtMs < beforeMs).map
      fun e => (e.1, e.2)
    let candidates := ((rows.insertionSort completionOrder).take (min limit maxPruneBatch)).map
      fun e => (e.1, pg.tables.retainedBytes e.1 e.2)
    return pruneLoop beforeMs candidates 0 0 pg

end Postgres

end Tysel.Durable
