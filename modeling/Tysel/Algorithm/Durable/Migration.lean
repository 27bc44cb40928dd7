import Tysel.Algorithm.Durable.Schema

/-! A database file as some version of the log has left it: every table may be missing, the wakeup
table may lack its sequence and lease columns, and the program table its kind. A column is a
function of the row's key, so that a table without the column cannot hold a value in it. -/

namespace Tysel.Durable

/-- `durable_wakeups` with the columns that were added later. -/
structure LegacyWakeups where
  wakeAtMs : Table TaskId ℕ
  sequence : Option (TaskId → ℕ)
  leaseOwner : Option (TaskId → Option String)
  leaseUntilMs : Option (TaskId → Option ℕ)

structure LegacyProgramRow where
  source : String
  sourceSha256 : String
  registeredAtMs : ℕ

/-- `durable_programs` with the column that was added later. -/
structure LegacyPrograms where
  rows : Table TaskId LegacyProgramRow
  programKind : Option (TaskId → DurableProgramKind)

/-- The tables of a database file. `metadata` is the `schema_version` row of a metadata table;
`signalInbox` comes with its `AUTOINCREMENT` counter. -/
structure LegacyDb where
  metadata : Option (Option ℤ)
  events : Option (List EventRow)
  wakeups : Option LegacyWakeups
  historyStats : Option (Table TaskId HistoryStatsRow)
  signalInbox : Option (List InboxRow × ℕ)
  signalWaits : Option (Table TaskId WaitRow)
  programs : Option LegacyPrograms
  completions : Option (Table TaskId CompletionRow)
  programStats : Option (Option ProgramStatsRow)
  executions : Option (Table TaskId ExecutionRow)
  signalReceipts : Option (List ReceiptRow)

namespace LegacyDb

def readLogVersion (old : LegacyDb) : Except DurableError (Option ℕ) :=
  match old.metadata with
  | none => .ok none
  | some none => .error .invalidLogVersion
  | some (some raw) =>
    if 0 ≤ raw ∧ raw < 2 ^ 32 then .ok (some raw.toNat) else .error .invalidLogVersion

/-- The wakeups after `CREATE TABLE IF NOT EXISTS` and the `ALTER TABLE` statements of
`migrate_wakeup_columns`: a new sequence column holds 0, new lease columns are null. -/
def createdWakeups (old : LegacyDb) : Table TaskId WakeupRow :=
  match old.wakeups with
  | none => ∅
  | some table => table.wakeAtMs.mapRows fun task at_ =>
    ⟨table.sequence.elim 0 (· task), at_, table.leaseOwner.bind (· task),
      table.leaseUntilMs.bind (· task)⟩

/-- What `migrate_wakeup_columns` answers: an existing table had no sequence column. -/
def sequenceAdded (old : LegacyDb) : Bool := old.wakeups.any fun table => table.sequence.isNone

/-- The programs after `CREATE TABLE IF NOT EXISTS` and `migrate_program_columns`. -/
def createdPrograms (old : LegacyDb) : Table TaskId ProgramRow :=
  match old.programs with
  | none => ∅
  | some table => table.rows.mapRows fun task row =>
    ⟨table.programKind.elim .script (· task), row.source, row.sourceSha256, row.registeredAtMs⟩

/-- All tables with their current columns, before anything is computed for them. -/
def created (old : LegacyDb) (version : Option ℕ) : Db where
  events := old.events.getD []
  wakeups := old.createdWakeups
  historyStats := old.historyStats.getD ∅
  signalInbox := (old.signalInbox.getD ([], 0)).1
  inboxSequence := (old.signalInbox.getD ([], 0)).2
  signalWaits := old.signalWaits.getD ∅
  programs := old.createdPrograms
  completions := old.completions.getD ∅
  programStats := old.programStats.getD none
  executions := old.executions.getD ∅
  signalReceipts := old.signalReceipts.getD []
  schemaVersion := version

end LegacyDb

/-- `SELECT MAX(sequence) FROM durable_events WHERE task_id = .. AND kind = 'sleep'` -/
def Db.lastSleep? (db : Db) (task : TaskId) : Option ℕ :=
  (((db.eventsOf task).filter fun row => row.kind = .sleep).map EventRow.sequence).max?

/-- `UPDATE durable_wakeups SET sequence = COALESCE(.., sequence)` -/
def Db.sequenceWakeups (db : Db) : Db :=
  { db with
    wakeups := db.wakeups.mapRows fun task row =>
      { row with sequence := (db.lastSleep? task).getD row.sequence } }

def LegacyDb.initializeSchema (old : LegacyDb) : Except DurableError Db := do
  let previousVersion ← old.readLogVersion
  match previousVersion with
  | some found =>
    reject (durableLogVersion < found) (.unsupportedLogVersion found durableLogVersion)
  | none => pure ()
  let initialized := initializeLifecycle (old.created previousVersion)
  let sequenced := if old.sequenceAdded then initialized.sequenceWakeups else initialized
  let rebuilt :=
    if previousVersion.getD 0 < 2 then sequenced.rebuildHistoryStats else sequenced
  return { rebuilt with schemaVersion := some durableLogVersion }

/-- The file of a database whose tables have their current columns. -/
def Db.stored (db : Db) : LegacyDb where
  metadata := db.schemaVersion.map fun version => some (version : ℤ)
  events := some db.events
  wakeups := some
    ⟨db.wakeups.mapRows fun _ row => row.wakeAtMs,
      some fun task => ((db.wakeups.get? task).map WakeupRow.sequence).getD 0,
      some fun task => (db.wakeups.get? task).bind WakeupRow.leaseOwner,
      some fun task => (db.wakeups.get? task).bind WakeupRow.leaseUntilMs⟩
  historyStats := some db.historyStats
  signalInbox := some (db.signalInbox, db.inboxSequence)
  signalWaits := some db.signalWaits
  programs := some
    ⟨db.programs.mapRows fun _ row => ⟨row.source, row.sourceSha256, row.registeredAtMs⟩,
      some fun task => ((db.programs.get? task).map ProgramRow.programKind).getD .script⟩
  completions := some db.completions
  programStats := some db.programStats
  executions := some db.executions
  signalReceipts := some db.signalReceipts

end Tysel.Durable
