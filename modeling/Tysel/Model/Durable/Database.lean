import Tysel.Model.Durable.Types
import Mathlib.Data.List.Sort

/-! One field per table. Tables whose primary key is the task are keyed tables; the
event, inbox and receipt tables hold several rows per task and are row lists.
The definitions below are the SQL queries and statements of the store. -/

namespace Tysel.Durable

structure EventRow where
  taskId : TaskId
  sequence : ℕ
  kind : EventKind
  eventKey : String
  payload : String
  recordedAtMs : ℕ
  deriving DecidableEq

structure WakeupRow where
  sequence : ℕ
  wakeAtMs : ℕ
  leaseOwner : Option String
  leaseUntilMs : Option ℕ
  deriving DecidableEq

structure HistoryStatsRow where
  eventCount : ℕ
  payloadBytes : ℕ
  deriving DecidableEq

structure InboxRow where
  id : ℕ
  taskId : TaskId
  signalName : String
  payload : String
  sentAtMs : ℕ
  deriving DecidableEq

structure WaitRow where
  sequence : ℕ
  signalName : String
  deriving DecidableEq

structure ProgramRow where
  programKind : DurableProgramKind
  source : String
  sourceSha256 : String
  registeredAtMs : ℕ
  deriving DecidableEq

structure CompletionRow where
  nextSequence : ℕ
  resultJson : String
  completedAtMs : ℕ
  deriving DecidableEq

structure ProgramStatsRow where
  activeCount : ℕ
  activeBytes : ℕ
  deriving DecidableEq

inductive ExecutionState where
  | ready | running | suspended | failed | completed
  deriving DecidableEq, Repr

structure ExecutionRow where
  state : ExecutionState
  generation : ℕ
  owner : Option String
  leaseUntilMs : Option ℕ
  admissionKey : Option String
  requestHash : Option String
  deriving DecidableEq

/-- `payload` is the hexadecimal digest of the accepted payload. -/
structure ReceiptRow where
  taskId : TaskId
  requestKey : String
  signalName : String
  payload : String
  signalId : ℕ
  deriving DecidableEq

/-- The contents of the database. `inboxSequence` is the largest inbox id ever
allocated, as kept by `AUTOINCREMENT`; `schemaVersion` is the metadata row. -/
structure Db where
  events : List EventRow
  wakeups : Table TaskId WakeupRow
  historyStats : Table TaskId HistoryStatsRow
  signalInbox : List InboxRow
  inboxSequence : ℕ
  signalWaits : Table TaskId WaitRow
  programs : Table TaskId ProgramRow
  completions : Table TaskId CompletionRow
  programStats : Option ProgramStatsRow
  executions : Table TaskId ExecutionRow
  signalReceipts : List ReceiptRow
  schemaVersion : Option ℕ

namespace Db

def empty : Db where
  events := []
  wakeups := ∅
  historyStats := ∅
  signalInbox := []
  inboxSequence := 0
  signalWaits := ∅
  programs := ∅
  completions := ∅
  programStats := none
  executions := ∅
  signalReceipts := []
  schemaVersion := none

variable (db : Db) (task : TaskId)

def eventsOf : List EventRow := db.events.filter fun row => row.taskId = task

/-- `SELECT COALESCE(MAX(sequence) + 1, 0) FROM durable_events WHERE task_id = ?` -/
def nextSequence : ℕ :=
  match ((db.eventsOf task).map EventRow.sequence).max? with
  | some last => last + 1
  | none => 0

def inboxOf : List InboxRow := db.signalInbox.filter fun row => row.taskId = task

/-- `SELECT id, payload, sent_at_ms .. WHERE task_id AND signal_name ORDER BY id LIMIT 1` -/
def oldestSignal (name : String) : Option InboxRow :=
  (((db.inboxOf task).filter fun row => row.signalName = name).insertionSort
    fun a b => a.id ≤ b.id).head?

def receiptsOf : List ReceiptRow := db.signalReceipts.filter fun row => row.taskId = task

def receipt? (key : String) : Option ReceiptRow :=
  (db.receiptsOf task).find? fun row => row.requestKey = key

def pendingBytes : ℕ :=
  ((db.inboxOf task).map fun row => row.signalName.utf8ByteSize + row.payload.utf8ByteSize).sum

/-- A wakeup or execution lease that no longer excludes a claim at `now`. -/
def leaseFree (lease : Option ℕ) (now : ℕ) : Prop := ∀ u ∈ lease, u ≤ now

instance (lease : Option ℕ) (now : ℕ) : Decidable (leaseFree lease now) :=
  inferInstanceAs (Decidable (∀ u ∈ lease, u ≤ now))

/-- The two inserts of `insert_event`: the event row and the history statistics. -/
def insertEventRow (row : EventRow) : Db :=
  let bytes := row.eventKey.utf8ByteSize + row.payload.utf8ByteSize
  let stats := match db.historyStats.get? row.taskId with
    | some s => { eventCount := s.eventCount + 1, payloadBytes := s.payloadBytes + bytes }
    | none => { eventCount := 1, payloadBytes := bytes : HistoryStatsRow }
  { db with
    events := db.events ++ [row]
    historyStats := db.historyStats.insert row.taskId stats }

/-- `INSERT INTO durable_wakeups .. ON CONFLICT(task_id) DO UPDATE ..`, which drops any lease. -/
def upsertWakeup (sequence wakeAtMs : ℕ) : Db :=
  { db with wakeups := db.wakeups.insert task ⟨sequence, wakeAtMs, none, none⟩ }

def setWakeup (row : WakeupRow) : Db := { db with wakeups := db.wakeups.insert task row }

def deleteWakeup : Db := { db with wakeups := db.wakeups.erase task }

/-- `UPDATE durable_wakeups SET lease_owner=NULL, lease_until_ms=NULL WHERE task_id=?` -/
def clearWakeupLease : Db :=
  { db with
    wakeups := db.wakeups.modify task fun w =>
      { w with leaseOwner := none, leaseUntilMs := none } }

def insertWait (row : WaitRow) : Db := { db with signalWaits := db.signalWaits.insert task row }

/-- `DELETE FROM durable_signal_waits WHERE task_id AND sequence AND signal_name` -/
def deleteWait (sequence : ℕ) (name : String) : Db :=
  { db with
    signalWaits :=
      if db.signalWaits.get? task = some ⟨sequence, name⟩ then db.signalWaits.erase task
      else db.signalWaits }

def insertSignal (name payload : String) (sentAtMs : ℕ) : Db :=
  { db with
    signalInbox := db.signalInbox ++ [⟨db.inboxSequence + 1, task, name, payload, sentAtMs⟩]
    inboxSequence := db.inboxSequence + 1 }

def deleteSignal (id : ℕ) : Db :=
  { db with signalInbox := db.signalInbox.filter fun row => row.id ≠ id }

def insertReceipt (row : ReceiptRow) : Db :=
  { db with signalReceipts := db.signalReceipts ++ [row] }

/-- The program insert together with
`UPDATE durable_program_stats SET active_count = active_count + 1, ..`. -/
def insertProgram (row : ProgramRow) : Db :=
  { db with
    programs := db.programs.insert task row
    programStats := db.programStats.map fun s =>
      { activeCount := s.activeCount + 1
        activeBytes := s.activeBytes + row.source.utf8ByteSize } }

/-- The statement
`UPDATE durable_program_stats SET active_count = active_count - 1, active_bytes = active_bytes - ?`.
The table's `CHECK` constraints reject a negative result. -/
def dischargeProgram (bytes : ℕ) : Except DurableError Db :=
  match db.programStats with
  | none => .ok db
  | some s =>
    if 1 ≤ s.activeCount ∧ bytes ≤ s.activeBytes then
      .ok { db with programStats := some ⟨s.activeCount - 1, s.activeBytes - bytes⟩ }
    else .error .sqlite

def deleteProgram : Db := { db with programs := db.programs.erase task }

def setExecution (row : ExecutionRow) : Db :=
  { db with executions := db.executions.insert task row }

/-- `UPDATE durable_executions SET state=?, owner=NULL, lease_until_ms=NULL WHERE task_id=?` -/
def closeExecution (state : ExecutionState) : Db :=
  { db with
    executions := db.executions.modify task fun r =>
      { r with state := state, owner := none, leaseUntilMs := none } }

def insertCompletion (row : CompletionRow) : Db :=
  { db with completions := db.completions.insert task row }

/-- The seven `DELETE FROM {table} WHERE task_id = ?` of the retention pass. -/
def deleteTask : Db :=
  { db with
    programs := db.programs.erase task
    events := db.events.filter fun row => row.taskId ≠ task
    historyStats := db.historyStats.erase task
    signalInbox := db.signalInbox.filter fun row => row.taskId ≠ task
    completions := db.completions.erase task
    executions := db.executions.erase task
    signalReceipts := db.signalReceipts.filter fun row => row.taskId ≠ task }

end Db

end Tysel.Durable
