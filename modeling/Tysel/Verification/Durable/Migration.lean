import Tysel.Algorithm.Durable.Migration
import Tysel.Verification.Durable.History

/-! What `initialize_schema` keeps of a database file and which invariants it establishes. The
statistics are recomputed where the recorded version or the missing row asks for it; where a
version has already kept them, they are taken over. -/

namespace Tysel.Durable

open List Table Option Function Db LegacyDb EventRow

variable {db : Db} {t : TaskId}

namespace LegacyDb

def eventsOf (old : LegacyDb) (t : TaskId) : List EventRow :=
  (old.events.getD []).filter fun row => row.taskId = t

/-- The statistics row that belongs to the events of a task. -/
def statsOf (old : LegacyDb) (t : TaskId) : Option HistoryStatsRow :=
  if old.eventsOf t = [] then none
  else some ⟨(old.eventsOf t).length, ((old.eventsOf t).map bytes).sum⟩

/-- A file of a log version before the current one, or from before versions were recorded, whose
histories are gap-free and within the limits. -/
structure Left (old : LegacyDb) : Prop where
  version : old.metadata = none ∨
    ∃ v : ℕ, old.metadata = some (some (v : ℤ)) ∧ v < durableLogVersion
  sequences : ∀ t, (old.eventsOf t).map sequence = List.range (old.eventsOf t).length
  count : ∀ t, (old.eventsOf t).length ≤ maxHistoryEvents
  bytes : ∀ t, ((old.eventsOf t).map bytes).sum ≤ maxHistoryBytes

/-- The statistics that a file holds are those of its version: a row of the history statistics
belongs to a task with events, version 2 has all of these rows, and the row of the program
statistics counts the programs without a completion. -/
structure StatsKept (old : LegacyDb) : Prop where
  rows : ∀ stats, old.historyStats = some stats → ∀ t row, stats.get? t = some row →
    old.eventsOf t ≠ []
  history : old.metadata = some (some 2) → ∀ t, (old.historyStats.getD ∅).get? t = old.statsOf t
  programs : ∀ stats, old.programStats = some (some stats) →
    stats = ⟨(old.created none).openPrograms.length,
      ((old.created none).openPrograms.map fun p => p.2.source.utf8ByteSize).sum⟩

def wakeTime? (old : LegacyDb) (t : TaskId) : Option ℕ :=
  old.wakeups.bind fun table => table.wakeAtMs.get? t

def program? (old : LegacyDb) (t : TaskId) : Option LegacyProgramRow :=
  old.programs.bind fun table => table.rows.get? t

end LegacyDb

theorem rebuilt_get? (rows : List EventRow) (f : TaskId → HistoryStatsRow)
    (stats : Table TaskId HistoryStatsRow) (t : TaskId) :
    (rows.foldl (fun stats row => stats.insert row.taskId (f row.taskId)) stats).get? t =
      if (rows.filter fun row => row.taskId = t) = [] then stats.get? t
      else some (f t) := by
  induction rows generalizing stats with
  | nil => rfl
  | cons row _ ih =>
    rw [foldl_cons, ih, filter_cons]
    by_cases hr : row.taskId = t
    · subst hr
      simp
    · simp [hr, get?_insert_ne (Ne.symm hr)]

theorem rebuildHistoryStats_get? (db : Db) (t : TaskId) :
    db.rebuildHistoryStats.historyStats.get? t = if db.eventsOf t = [] then db.historyStats.get? t
      else some ⟨(db.eventsOf t).length, db.historyBytes t⟩ := by
  have hgroup : db.groupStats t = ⟨(db.eventsOf t).length, db.historyBytes t⟩ := by
    have hbytes : bytes = fun row => row.payload.utf8ByteSize + row.eventKey.utf8ByteSize :=
      funext fun _ => Nat.add_comm _ _
    rw [groupStats, historyBytes, hbytes]
  rw [← hgroup]
  exact rebuilt_get? db.events db.groupStats db.historyStats t

/-- What `initialize_schema` makes of a file whose recorded version it accepts. -/
def LegacyDb.opened (old : LegacyDb) (ver : Option ℕ) : Db :=
  { old.created ver with
    wakeups :=
      if old.sequenceAdded then (old.created ver).sequenceWakeups.wakeups
      else old.createdWakeups
    historyStats :=
      if ver.getD 0 < 2 then (old.created ver).rebuildHistoryStats.historyStats
      else old.historyStats.getD ∅
    programStats := (initializeLifecycle (old.created ver)).programStats
    schemaVersion := some durableLogVersion }

variable {old : LegacyDb} {ver : Option ℕ}

namespace LegacyDb

theorem initializeSchema_eq (hread : old.readLogVersion = .ok ver)
    (hversion : ∀ v, ver = some v → v ≤ durableLogVersion) :
    old.initializeSchema = .ok (old.opened ver) := by
  have hsteps : { (if ver.getD 0 < 2 then
        (if old.sequenceAdded then (initializeLifecycle (old.created ver)).sequenceWakeups
          else initializeLifecycle (old.created ver)).rebuildHistoryStats
      else if old.sequenceAdded then (initializeLifecycle (old.created ver)).sequenceWakeups
        else initializeLifecycle (old.created ver)) with
      schemaVersion := some durableLogVersion } = old.opened ver := by
    unfold opened initializeLifecycle
    split <;> split <;> split <;> rfl
  unfold initializeSchema
  rw [hread]
  cases ver with
  | none => exact congrArg Except.ok hsteps
  | some v =>
    have hsupported : ¬ durableLogVersion < v := not_lt.mpr (hversion v rfl)
    exact bind_ok.mpr ⟨some v, rfl, bind_ok.mpr
      ⟨(), reject_ok.mpr hsupported, congrArg Except.ok hsteps⟩⟩

theorem readLogVersion_recorded {v : ℕ} (hv : v < 2 ^ 32)
    (h : old.metadata = some (some (v : ℤ))) : old.readLogVersion = .ok (some v) := by
  have hrange : 0 ≤ (v : ℤ) ∧ (v : ℤ) < 2 ^ 32 := ⟨by omega, by omega⟩
  simp only [readLogVersion, h, if_pos hrange, Int.toNat_natCast]

/-- A file of an earlier version is opened as its recorded version says. -/
theorem Left.initializeSchema (h : old.Left) : ∃ ver, old.initializeSchema = .ok (old.opened ver) ∧
      (ver.getD 0 < 2 ∨ ver = some 2 ∧ old.metadata = some (some 2)) := by
  rcases h.version with hnone | ⟨v, hsome, hv⟩
  · refine ⟨none, initializeSchema_eq ?_ (by simp), .inl (by decide)⟩
    simp [readLogVersion, hnone]
  have hold : v < 3 := hv
  refine ⟨some v, initializeSchema_eq (readLogVersion_recorded (by omega) hsome) ?_, ?_⟩
  · rintro _ ⟨⟩
    exact hv.le
  · by_cases htwo : v = 2
    · subst htwo
      exact .inr ⟨rfl, hsome⟩
    · exact .inl (by simp; omega)

theorem createdPrograms_get? (old : LegacyDb) (t : TaskId) :
    old.createdPrograms.get? t = old.programs.bind fun table =>
      (table.rows.get? t).map fun row =>
        ⟨table.programKind.elim .script (· t), row.source, row.sourceSha256,
          row.registeredAtMs⟩ := by
  unfold createdPrograms
  cases old.programs with
  | none => rfl
  | some => exact get?_mapRows _ _ _

/-- A wakeup of an opened file: its time and leases are those of the file, and so is its sequence
if the file has one; otherwise it is the sequence of the task's last sleep. -/
theorem opened_wakeup (old : LegacyDb) (ver : Option ℕ) (t : TaskId) :
    (old.opened ver).wakeups.get? t = old.wakeups.bind fun table =>
      (table.wakeAtMs.get? t).map fun at_ =>
        ⟨table.sequence.elim (((old.opened ver).lastSleep? t).getD 0) (· t), at_,
          table.leaseOwner.bind (· t), table.leaseUntilMs.bind (· t)⟩ := by
  cases hold : old.wakeups with
  | none =>
    have hadded : old.sequenceAdded = false := by simp [sequenceAdded, hold]
    simp [opened, hadded, createdWakeups, hold]
  | some table =>
    have hcreated : old.createdWakeups.get? t = (table.wakeAtMs.get? t).map fun at_ =>
        ⟨table.sequence.elim 0 (· t), at_, table.leaseOwner.bind (· t),
          table.leaseUntilMs.bind (· t)⟩ := by
      rw [createdWakeups, hold]
      exact get?_mapRows ..
    rw [bind_some]
    cases hsequence : table.sequence with
    | none =>
      have hadded : old.sequenceAdded = true := by simp [sequenceAdded, hold, hsequence]
      have hopened : (old.opened ver).wakeups =
          (old.created ver).sequenceWakeups.wakeups := if_pos hadded
      have hr : (old.created ver).wakeups.get? t = _ := hcreated
      rw [hopened, sequenceWakeups, get?_mapRows, hr, Option.map_map, hsequence]
      rfl
    | some =>
      have hadded : old.sequenceAdded = false := by simp [sequenceAdded, hold, hsequence]
      have hopened : (old.opened ver).wakeups = old.createdWakeups := if_neg (by simp [hadded])
      rw [hopened, hcreated, hsequence]
      rfl

theorem opened_history (h : old.Left) (hstats : old.StatsKept)
    (hversion : ver.getD 0 < 2 ∨ ver = some 2 ∧ old.metadata = some (some 2))
    (t : TaskId) : (old.opened ver).HistoryOk t := by
  refine ⟨h.sequences t, ?_, h.count t, h.bytes t⟩
  change _ = old.statsOf t
  rcases hversion with hearly | ⟨rfl, htwo⟩
  · have hrebuilt : (old.opened ver).historyStats =
        (old.created ver).rebuildHistoryStats.historyStats := if_pos hearly
    rw [hrebuilt, rebuildHistoryStats_get?]
    change (if old.eventsOf t = [] then (old.historyStats.getD ∅).get? t else _) = _
    unfold statsOf
    split
    · -- No statistics row without an event.
      rename_i hnil
      cases hr : (old.historyStats.getD ∅).get? t with
      | none => rfl
      | some row =>
        cases hold : old.historyStats with
        | none => simp [hold] at hr
        | some stats =>
          rw [hold] at hr
          exact absurd hnil (hstats.rows stats hold t row hr)
    · rfl
  · exact hstats.history htwo t

theorem opened_programStats (ver : Option ℕ) (hstats : old.StatsKept) :
    (old.opened ver).programStats = some ⟨(old.opened ver).openPrograms.length,
      ((old.opened ver).openPrograms.map fun p => p.2.source.utf8ByteSize).sum⟩ := by
  change (initializeLifecycle (old.created ver)).programStats = _
  unfold initializeLifecycle
  split
  · rename_i stats hsome
    refine hsome.trans (congrArg some (hstats.programs stats ?_))
    change old.programStats.getD none = some stats at hsome
    cases hold : old.programStats with
    | none => simp [hold] at hsome
    | some => simpa [hold] using hsome
  · rfl

end LegacyDb

theorem Db.stored_wakeups (db : Db) : db.stored.createdWakeups = db.wakeups := by
  simp only [createdWakeups, stored, mapRows_mapRows]
  apply mapRows_eq_self
  intro t row hr
  simp [hr]

theorem Db.stored_programs (db : Db) : db.stored.createdPrograms = db.programs := by
  simp only [createdPrograms, stored, mapRows_mapRows]
  apply mapRows_eq_self
  intro t row hr
  simp [hr]

theorem Db.stored_created (db : Db) : db.stored.created db.schemaVersion = db := by
  simp only [created, stored_wakeups, stored_programs]
  rfl

theorem Db.stored_initializeSchema (db : Db)
    (hversion : ∀ v, db.schemaVersion = some v → v < 2 ^ 32) :
    db.stored.initializeSchema = (Durable.initializeSchema db).map Prod.snd := by
  have hread : db.stored.readLogVersion = .ok db.schemaVersion := by
    cases hv : db.schemaVersion with
    | none => simp [readLogVersion, stored, hv]
    | some v => exact readLogVersion_recorded (hversion v hv) (by simp [stored, hv])
  have hadded : db.stored.sequenceAdded = false := rfl
  unfold LegacyDb.initializeSchema Durable.initializeSchema
  simp only [hread, hadded, stored_created, bind, Except.bind]
  cases db.schemaVersion with
  | none => rfl
  | some v =>
    by_cases hnew : durableLogVersion < v
    · simp [reject, hnew, Except.map]
    · simp [reject, hnew, Except.map, pure, Except.pure]

theorem Db.stored_opened (h : db.Opened) : db.stored.initializeSchema = .ok db := by
  rw [db.stored_initializeSchema, initializeSchema_of_opened h]
  · rfl
  · intro v hv
    obtain rfl := mem_unique h.version hv
    decide

theorem LegacyDb.opened_opened (old : LegacyDb) (ver : Option ℕ) : (old.opened ver).Opened := by
  refine ⟨rfl, ?_⟩
  change (initializeLifecycle (old.created ver)).programStats.isSome
  unfold initializeLifecycle
  split <;> simp_all

/-- The database holds what the file held, with statistics that agree with it. -/
structure Migrated (old : LegacyDb) (db : Db) : Prop where
  events : db.events = old.events.getD []
  inbox : (db.signalInbox, db.inboxSequence) = old.signalInbox.getD ([], 0)
  waits : db.signalWaits = old.signalWaits.getD ∅
  receipts : db.signalReceipts = old.signalReceipts.getD []
  completions : db.completions = old.completions.getD ∅
  executions : db.executions = old.executions.getD ∅
  programs : ∀ t, (db.programs.get? t).map
    (fun row => (⟨row.source, row.sourceSha256, row.registeredAtMs⟩ : LegacyProgramRow)) =
      old.program? t
  kinds : ∀ table, old.programs = some table → ∀ t row, db.programs.get? t = some row →
    row.programKind = table.programKind.elim .script (· t)
  wakeTimes : ∀ t, (db.wakeups.get? t).map WakeupRow.wakeAtMs = old.wakeTime? t
  leases : ∀ table, old.wakeups = some table → ∀ t row, db.wakeups.get? t = some row →
    row.leaseOwner = table.leaseOwner.bind (· t) ∧ row.leaseUntilMs = table.leaseUntilMs.bind (· t)
  sequences : ∀ table, old.wakeups = some table → ∀ t row, db.wakeups.get? t = some row →
    ∀ column, table.sequence = some column → row.sequence = column t
  history : ∀ t, db.HistoryOk t
  quota : db.programStats = some ⟨db.openPrograms.length,
    (db.openPrograms.map fun p => p.2.source.utf8ByteSize).sum⟩

theorem LegacyDb.opened_migrated (h : old.Left) (hstats : old.StatsKept)
    (hversion : ver.getD 0 < 2 ∨ ver = some 2 ∧ old.metadata = some (some 2)) :
    Migrated old (old.opened ver) where
  events := rfl
  inbox := rfl
  waits := rfl
  receipts := rfl
  completions := rfl
  executions := rfl
  programs t := by
    change (old.createdPrograms.get? t).map _ = _
    rw [createdPrograms_get?, program?]
    cases old.programs with
    | none => rfl
    | some => simp [comp_def]
  kinds table htable t row hr := by
    change old.createdPrograms.get? t = some row at hr
    rw [createdPrograms_get?, htable, bind_some, map_eq_some_iff] at hr
    obtain ⟨_, -, rfl⟩ := hr
    rfl
  wakeTimes t := by
    rw [opened_wakeup, wakeTime?]
    cases old.wakeups with
    | none => rfl
    | some => simp [comp_def]
  leases table htable t row hr := by
    rw [opened_wakeup, htable, bind_some, map_eq_some_iff] at hr
    obtain ⟨_, -, rfl⟩ := hr
    exact ⟨rfl, rfl⟩
  sequences table htable t row hr column hcolumn := by
    rw [opened_wakeup, htable, bind_some, map_eq_some_iff] at hr
    obtain ⟨_, -, rfl⟩ := hr
    simp [hcolumn]
  history := opened_history h hstats hversion
  quota := opened_programStats ver hstats

theorem Db.lastSleep?_eq_some {e : EventRow} (he : e ∈ db.eventsOf t) (hsleep : e.kind = .sleep)
    (hlast : ∀ e' ∈ db.eventsOf t, e'.kind = .sleep → e'.sequence ≤ e.sequence) :
    db.lastSleep? t = some e.sequence := by
  rw [lastSleep?, max?_eq_some_iff]
  constructor
  · exact mem_map.mpr ⟨e, mem_filter.mpr ⟨he, by simp [hsleep]⟩, rfl⟩
  · intro sequence hmem
    obtain ⟨e', he', rfl⟩ := mem_map.mp hmem
    obtain ⟨hmem', hkind⟩ := mem_filter.mp he'
    exact hlast e' hmem' (by simpa using hkind)

/-- `initialize_schema` on the database file of an earlier version with the statistics of that
version succeeds and keeps its rows; both statistics agree with the stored events and programs;
a wakeup from before sequences were stored has that of its task's last sleep; and opening the
result once more changes nothing. -/
theorem migration_establishes_invariants (old : LegacyDb) (h : old.Left) (hstats : old.StatsKept) :
    ∃ db, old.initializeSchema = .ok db ∧ Migrated old db ∧
      (∀ table, old.wakeups = some table → table.sequence = none →
        ∀ t row, db.wakeups.get? t = some row → ∀ e ∈ db.eventsOf t, e.kind = .sleep →
            (∀ e' ∈ db.eventsOf t, e'.kind = .sleep → e'.sequence ≤ e.sequence) →
            row.sequence = e.sequence) ∧ db.stored.initializeSchema = .ok db := by
  obtain ⟨ver, hopened, hversion⟩ := h.initializeSchema
  refine ⟨_, hopened, opened_migrated h hstats hversion, ?_, stored_opened (old.opened_opened ver)⟩
  intro table htable hsequence t row hr e he hsleep hlast
  rw [opened_wakeup, htable, bind_some, map_eq_some_iff] at hr
  obtain ⟨_, -, rfl⟩ := hr
  rw [lastSleep?_eq_some he hsleep hlast, hsequence]
  rfl

/-- A file from before versions were recorded: a program, its history of a step and a sleep, and
the timer. -/
def legacyTimer : LegacyDb where
  metadata := none
  events := some [⟨12, 0, .step, "k", "1", 9⟩, ⟨12, 1, .sleep, "sleep:5", "0", 10⟩]
  wakeups := some ⟨(∅ : Table TaskId ℕ).insert 12 15, none, none, none⟩
  historyStats := none
  signalInbox := none
  signalWaits := none
  programs := some ⟨(∅ : Table TaskId LegacyProgramRow).insert 12 ⟨"42", "hash", 9⟩, none⟩
  completions := none
  programStats := none
  executions := none
  signalReceipts := none

theorem legacyTimer_left : legacyTimer.Left := by
  have hevents : ∀ t : TaskId, legacyTimer.eventsOf t = if t = 12
      then [⟨12, 0, .step, "k", "1", 9⟩, ⟨12, 1, .sleep, "sleep:5", "0", 10⟩] else [] := by
    intro t
    by_cases htask : t = 12
    · subst htask
      decide
    · simp [LegacyDb.eventsOf, legacyTimer, htask, Ne.symm htask]
  refine ⟨.inl rfl, fun t => ?_, fun t => ?_, fun t => ?_⟩
  all_goals
    rw [hevents]
    split <;> decide

theorem migration_establishes_invariants_timer : ∃ db, legacyTimer.Left ∧ legacyTimer.StatsKept ∧
    legacyTimer.initializeSchema = .ok db ∧ Migrated legacyTimer db ∧
      db.wakeups.get? 12 = some ⟨1, 15, none, none⟩ ∧ db.stored.initializeSchema = .ok db := by
  have hstats : legacyTimer.StatsKept := ⟨by simp [legacyTimer], by simp [legacyTimer],
    by simp [legacyTimer]⟩
  obtain ⟨db, hopened, hmigrated, -, hagain⟩ :=
    migration_establishes_invariants legacyTimer legacyTimer_left hstats
  refine ⟨db, legacyTimer_left, hstats, hopened, hmigrated, ?_, hagain⟩
  obtain rfl := Except.ok.inj hopened
  decide

/-- Version 2 recorded without the table of the history statistics: the table is created, but
its rows are not computed. -/
theorem recorded_stats_not_rebuilt :
    ∃ db, LegacyDb.initializeSchema { legacyTimer with metadata := some (some 2) } = .ok db ∧
      db.eventsOf 12 ≠ [] ∧ db.historyStats.get? 12 = none :=
  ⟨_, rfl, by decide, rfl⟩

end Tysel.Durable
