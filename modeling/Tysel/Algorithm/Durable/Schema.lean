import Tysel.Algorithm.Durable.Common

/-! `initialize_schema` on a database whose tables already have their current columns. -/

namespace Tysel.Durable

/-- The programs that count against the quota: those without a completion. -/
def Db.openPrograms (db : Db) : List (TaskId × ProgramRow) :=
  (db.programs.entries.filter fun e => (db.completions.get? e.1).isNone).map fun e => (e.1, e.2)

/-- `lifecycle::initialize`: a missing statistics row is computed from the catalog. -/
def initializeLifecycle (db : Db) : Db :=
  match db.programStats with
  | some _ => db
  | none =>
    { db with
      programStats := some
        ⟨db.openPrograms.length, (db.openPrograms.map fun p => p.2.source.utf8ByteSize).sum⟩ }

/-- `COUNT(*)` and the payload bytes of one group of `durable_events`. -/
def Db.groupStats (db : Db) (task : TaskId) : HistoryStatsRow where
  eventCount := (db.eventsOf task).length
  payloadBytes :=
    ((db.eventsOf task).map fun row => row.payload.utf8ByteSize + row.eventKey.utf8ByteSize).sum

/-- `INSERT OR REPLACE INTO durable_history_stats SELECT .. FROM durable_events GROUP BY task_id` -/
def Db.rebuildHistoryStats (db : Db) : Db :=
  { db with
    historyStats := db.events.foldl
      (fun stats row => stats.insert row.taskId (db.groupStats row.taskId)) db.historyStats }

def initializeSchema (db : Db) : Except DurableError (Unit × Db) := do
  match db.schemaVersion with
  | some found =>
    reject (durableLogVersion < found) (.unsupportedLogVersion found durableLogVersion)
  | none => pure ()
  let initialized := initializeLifecycle db
  let rebuilt :=
    if db.schemaVersion.getD 0 < 2 then initialized.rebuildHistoryStats else initialized
  return ((), { rebuilt with schemaVersion := some durableLogVersion })

/-- The version recorded in the metadata row, a 32-bit number. -/
def logVersion (db : Db) : Except DurableError ℕ :=
  match db.schemaVersion with
  | some version => do
      reject (2 ^ 32 ≤ version) .invalidLogVersion
      return version
  | none => .error .invalidLogVersion

def Db.fresh : Db :=
  { Db.empty with programStats := some ⟨0, 0⟩, schemaVersion := some durableLogVersion }

theorem initializeSchema_empty : initializeSchema Db.empty = .ok ((), Db.fresh) := rfl

end Tysel.Durable
