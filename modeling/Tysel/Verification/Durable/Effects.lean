import Tysel.Shared.Guarded
import Tysel.Algorithm.Durable.Operations

/-! The abstract side of the store: what a committed transaction can do to the tables, and
what its checks have established before it does so. -/

namespace Tysel.Durable

variable {J : Type}

inductive Effect where
  | register (t : TaskId) (row : ProgramRow)
  | unregister (t : TaskId) (row : ProgramRow)
  | append (row : EventRow) (wakeAtMs : Option ℕ)
  | schedule (t : TaskId) (sequence wakeAtMs : ℕ)
  | lease (t : TaskId) (owner : Option String) (leaseUntilMs : Option ℕ)
  | wake (t : TaskId)
  | signal (row : InboxRow) (rc : Option ReceiptRow)
  | wait (t : TaskId) (row : WaitRow)
  | consume (row : EventRow) (queued : InboxRow) (claimed : Bool)
  | admitModule (t : TaskId) (p : ProgramRow) (ev : EventRow) (key hash : String)
  | claim (claim : ExecutionClaim)
  | release (claim : ExecutionClaim) (failed : Bool)
  | complete (t : TaskId) (row : CompletionRow) (p : ProgramRow)
  | prune (t : TaskId)

def Effect.task : Effect → TaskId
  | register t _ | unregister t _ | schedule t _ _ | lease t _ _ | wake t
  | wait t _ | admitModule t _ _ _ _ | complete t _ _ | prune t => t
  | append row _ | consume row _ _ => row.taskId
  | signal row _ => row.taskId
  | claim c | release c _ => c.taskId

def EventRow.bytes (row : EventRow) : ℕ := row.eventKey.utf8ByteSize + row.payload.utf8ByteSize

/-- The row an event returned by the store was written as. -/
def TaskEvent.row (ev : TaskEvent J) : EventRow :=
  ⟨ev.taskId, ev.sequence, ev.kind, ev.key, ev.payloadJson, ev.recordedAtMs⟩

/-- The history limits leave room for one more event of this size. -/
def Db.HistoryRoom (db : Db) (t : TaskId) (bs : ℕ) : Prop :=
  ((db.historyStats.get? t).getD ⟨0, 0⟩).eventCount < maxHistoryEvents ∧
    ((db.historyStats.get? t).getD ⟨0, 0⟩).payloadBytes + bs ≤ maxHistoryBytes

/-- The program quota leaves room for one more source of this size. -/
def Db.ProgramRoom (db : Db) (bs : ℕ) : Prop :=
  ∃ s, db.programStats = some s ∧ s.activeCount < maxDurablePrograms ∧
    s.activeBytes + bs ≤ maxDurableProgramTotalBytes

def Db.ProgramCharged (db : Db) (bs : ℕ) : Prop :=
  ∀ s, db.programStats = some s → 1 ≤ s.activeCount ∧ bs ≤ s.activeBytes

def Db.IsOpen (db : Db) (t : TaskId) : Prop := db.completions.get? t = none

structure ProgramRow.Valid (S : Crates J) (row : ProgramRow) : Prop where
  nonempty : row.source ≠ ""
  bytes : row.source.utf8ByteSize ≤ maxDurableProgramBytes
  digest : row.sourceSha256 = S.sha256 row.source

/-- An event that may be inserted next into its task's history. -/
structure Db.Appendable (db : Db) (row : EventRow) : Prop where
  isOpen : db.IsOpen row.taskId
  room : db.HistoryRoom row.taskId row.bytes
  sequence : row.sequence = db.nextSequence row.taskId

structure Db.Receiptable (db : Db) (row : InboxRow) (rc : ReceiptRow) : Prop where
  task : rc.taskId = row.taskId
  name : rc.signalName = row.signalName
  id : rc.signalId = row.id
  unused : db.receipt? rc.taskId rc.requestKey = none
  program : (db.programs.get? rc.taskId).isSome

/-- The claim a poll holds on the wakeup of its wait, or the absence of both. -/
def Db.Entitled (db : Db) (t : TaskId) (wait : WaitRow) (claimed : Bool) : Prop :=
  if claimed then db.signalWaits.get? t = some wait ∧ (db.wakeups.get? t).isSome
  else db.signalWaits.get? t = none ∧ db.wakeups.get? t = none

namespace Effect

/-- What the checks of the operation that commits the effect have established. -/
def Enabled (S : Crates J) (db : Db) : Effect → Prop
  | register t row =>
    db.IsOpen t ∧ db.programs.get? t = none ∧ db.ProgramRoom row.source.utf8ByteSize ∧ row.Valid S
  | unregister t row =>
    db.IsOpen t ∧ db.programs.get? t = some row ∧ ¬ db.inUse t ∧
      db.ProgramCharged row.source.utf8ByteSize
  | append row _ => db.Appendable row
  | schedule t _ _ => db.IsOpen t
  | lease t _ _ => (db.wakeups.get? t).isSome
  | wake t => (db.wakeups.get? t).isSome
  | signal row rc =>
    db.IsOpen row.taskId ∧ row.id = db.inboxSequence + 1 ∧ ∀ r, rc = some r → db.Receiptable row r
  | wait t row =>
    db.IsOpen t ∧ db.signalWaits.get? t = none ∧ row.sequence = db.nextSequence t ∧
      db.oldestSignal t row.signalName = none
  | consume row queued claimed =>
    db.Appendable row ∧ db.oldestSignal row.taskId row.eventKey = some queued ∧
      row.kind = .signal ∧ row.payload = queued.payload ∧
      db.Entitled row.taskId ⟨row.sequence, row.eventKey⟩ claimed
  | admitModule t p ev _ _ =>
    db.Appendable ev ∧ ev.taskId = t ∧ ev.sequence = 0 ∧ ev.kind = .step ∧
      db.executions.get? t = none ∧ db.programs.get? t = none ∧
      db.ProgramRoom p.source.utf8ByteSize ∧ p.Valid S
  | claim c =>
    db.IsOpen c.taskId ∧ (db.programs.get? c.taskId).isSome ∧
      nextGeneration (db.executions.get? c.taskId) = .ok c.generation ∧
      (∃ time, time < c.leaseUntilMs ∧ db.claimBlocked c.taskId time = false) ∧
      c.wakeup = (db.wakeups.get? c.taskId).map fun w =>
        ⟨c.taskId, w.sequence, w.wakeAtMs, c.owner, c.leaseUntilMs⟩
  | release c _ => ∃ time r, db.executions.get? c.taskId = some r ∧ c.holds time r
  | complete t row p =>
    db.IsOpen t ∧ db.programs.get? t = some p ∧
      row.nextSequence = db.nextSequence t ∧ db.pending t = false ∧
      db.ProgramCharged p.source.utf8ByteSize
  | prune t => (db.completions.get? t).isSome ∧ db.pending t = false

end Effect

def Db.discharge (db : Db) (bs : ℕ) : Db :=
  { db with
    programStats := db.programStats.map fun s => ⟨s.activeCount - 1, s.activeBytes - bs⟩ }

def Db.upsertWakeup? (db : Db) (t : TaskId) (sequence : ℕ) (wakeAtMs : Option ℕ) : Db :=
  { db with
    wakeups := match wakeAtMs with
      | some at_ => db.wakeups.insert t ⟨sequence, at_, none, none⟩
      | none => db.wakeups }

def Db.insertReceipt? (db : Db) (rc : Option ReceiptRow) : Db :=
  { db with signalReceipts := db.signalReceipts ++ rc.toList }

def Db.leaseWakeup (db : Db) (t : TaskId) (owner : Option String) (leaseUntilMs : Option ℕ) : Db :=
  { db with
    wakeups := db.wakeups.modify t fun w =>
      { w with leaseOwner := owner, leaseUntilMs := leaseUntilMs } }

def Db.takeWakeup (db : Db) (t : TaskId) (claimed : Bool) : Db :=
  { db with wakeups := if claimed then db.wakeups.erase t else db.wakeups }

namespace Effect

def apply (db : Db) : Effect → Db
  | register t row => db.insertProgram t row
  | unregister t row => (db.discharge row.source.utf8ByteSize).deleteProgram t
  | append row wakeAtMs => (db.insertEventRow row).upsertWakeup? row.taskId row.sequence wakeAtMs
  | schedule t sequence wakeAtMs => db.upsertWakeup t sequence wakeAtMs
  | lease t owner leaseUntilMs => db.leaseWakeup t owner leaseUntilMs
  | wake t => db.deleteWakeup t
  | signal row rc =>
    ((db.insertSignal row.taskId row.signalName row.payload row.sentAtMs).wakeWaiting
      row.taskId row.signalName row.sentAtMs).insertReceipt? rc
  | wait t row => db.insertWait t row
  | consume row queued claimed =>
    (((db.takeWakeup row.taskId claimed).insertEventRow row).deleteSignal
      queued.id).deleteWait row.taskId row.sequence row.eventKey
  | admitModule t p ev key hash =>
    ((db.insertProgram t p).insertEventRow ev).setExecution t
      ⟨.ready, 0, none, none, some key, some hash⟩
  | claim c => db.grantRun c.taskId c.generation c.owner c.leaseUntilMs
  | release c failed =>
    (db.clearWakeupLease c.taskId).closeExecution c.taskId (if failed then .failed else .suspended)
  | complete t row p =>
    ((db.insertCompletion t row).discharge p.source.utf8ByteSize).closeExecution t
      .completed
  | prune t => db.deleteTask t

end Effect

def effects (S : Crates J) : Guarded Db Effect where
  enabled := Effect.Enabled S
  apply := Effect.apply

/-! ## The tables after an effect

For every table, the effects that change it and how. Every effect not named in one of
these equations leaves that table alone. -/

/-- A query for the rows of a task does not see that another task has been pruned. -/
theorem filter_filter_ne {ρ : Type} {f : ρ → TaskId} {q : ρ → Bool} {t u : TaskId}
    (hq : ∀ row, q row → f row = t) (h : t ≠ u) (rows : List ρ) :
    (rows.filter fun row => f row ≠ u).filter q = rows.filter q := by
  rw [List.filter_filter]
  refine List.filter_congr fun row _ => ?_
  cases hrow : q row with
  | false => rfl
  | true => simp [hq row hrow, h]

namespace Db

def countEvent (db : Db) (row : EventRow) : Table TaskId HistoryStatsRow :=
  (db.insertEventRow row).historyStats

def charge (stats : Option ProgramStatsRow) (bs : ℕ) : Option ProgramStatsRow :=
  stats.map fun s => ⟨s.activeCount + 1, s.activeBytes + bs⟩

def uncharge (stats : Option ProgramStatsRow) (bs : ℕ) : Option ProgramStatsRow :=
  stats.map fun s => ⟨s.activeCount - 1, s.activeBytes - bs⟩

end Db

namespace Effect

variable (db : Db) (e : Effect)

theorem apply_events : (e.apply db).events = match e with
    | append row _ | consume row _ _ | admitModule _ _ row _ _ => db.events ++ [row]
    | prune t => db.events.filter fun row => row.taskId ≠ t
    | _ => db.events := by
  cases e <;> rfl

theorem apply_historyStats : (e.apply db).historyStats = match e with
    | append row _ | consume row _ _ | admitModule _ _ row _ _ => db.countEvent row
    | prune t => db.historyStats.erase t
    | _ => db.historyStats := by
  cases e <;> rfl

theorem apply_wakeups : (e.apply db).wakeups = match e with
    | append row (some at_) => db.wakeups.insert row.taskId ⟨row.sequence, at_, none, none⟩
    | schedule t sequence at_ => db.wakeups.insert t ⟨sequence, at_, none, none⟩
    | lease t owner until_ => db.wakeups.modify t fun w =>
      { w with leaseOwner := owner, leaseUntilMs := until_ }
    | wake t => db.wakeups.erase t
    | signal row _ => (db.wakeWaiting row.taskId row.signalName row.sentAtMs).wakeups
    | consume row _ true => db.wakeups.erase row.taskId
    | claim c => db.wakeups.modify c.taskId fun w =>
      { w with leaseOwner := some c.owner, leaseUntilMs := some c.leaseUntilMs }
    | release c _ => db.wakeups.modify c.taskId fun w =>
      { w with leaseOwner := none, leaseUntilMs := none }
    | _ => db.wakeups := by
  cases e with
  | append _ wakeAtMs => cases wakeAtMs <;> rfl
  | consume _ _ claimed => cases claimed <;> rfl
  | _ => rfl

theorem apply_signalInbox : (e.apply db).signalInbox = match e with
    | signal row _ => db.signalInbox ++
        [⟨db.inboxSequence + 1, row.taskId, row.signalName, row.payload, row.sentAtMs⟩]
    | consume _ queued _ => db.signalInbox.filter fun row => row.id ≠ queued.id
    | prune t => db.signalInbox.filter fun row => row.taskId ≠ t
    | _ => db.signalInbox := by
  cases e <;> rfl

theorem apply_inboxSequence : (e.apply db).inboxSequence = match e with
    | signal _ _ => db.inboxSequence + 1
    | _ => db.inboxSequence := by
  cases e <;> rfl

theorem apply_signalWaits : (e.apply db).signalWaits = match e with
    | wait t row => db.signalWaits.insert t row
    | consume row _ _ =>
      if db.signalWaits.get? row.taskId = some ⟨row.sequence, row.eventKey⟩ then
        db.signalWaits.erase row.taskId
      else db.signalWaits
    | _ => db.signalWaits := by
  cases e <;> rfl

theorem apply_programs : (e.apply db).programs = match e with
    | register t row | admitModule t row _ _ _ => db.programs.insert t row
    | unregister t _ | prune t => db.programs.erase t
    | _ => db.programs := by
  cases e <;> rfl

theorem apply_completions : (e.apply db).completions = match e with
    | complete t row _ => db.completions.insert t row
    | prune t => db.completions.erase t
    | _ => db.completions := by
  cases e <;> rfl

theorem apply_programStats : (e.apply db).programStats = match e with
    | register _ row | admitModule _ row _ _ _ => Db.charge db.programStats row.source.utf8ByteSize
    | unregister _ row | complete _ _ row => Db.uncharge db.programStats row.source.utf8ByteSize
    | _ => db.programStats := by
  cases e <;> rfl

theorem apply_executions : (e.apply db).executions = match e with
    | admitModule t _ _ key hash =>
      db.executions.insert t ⟨.ready, 0, none, none, some key, some hash⟩
    | claim c => db.executions.insert c.taskId
        (claimedRow (db.executions.get? c.taskId) c.generation c.owner c.leaseUntilMs)
    | release c failed => db.executions.modify c.taskId fun r =>
      { r with
        state := if failed then .failed else .suspended, owner := none, leaseUntilMs := none }
    | complete t _ _ => db.executions.modify t fun r =>
      { r with state := .completed, owner := none, leaseUntilMs := none }
    | prune t => db.executions.erase t
    | _ => db.executions := by
  cases e <;> rfl

theorem apply_signalReceipts : (e.apply db).signalReceipts = match e with
    | signal _ rc => db.signalReceipts ++ rc.toList
    | prune t => db.signalReceipts.filter fun row => row.taskId ≠ t
    | _ => db.signalReceipts := by
  cases e <;> rfl

theorem apply_schemaVersion : (e.apply db).schemaVersion = db.schemaVersion := by
  cases e <;> rfl

end Effect

end Tysel.Durable
