import Tysel.Algorithm.Durable.Common

/-! # Program catalog operations -/

namespace Tysel.Durable

variable {J : Type} (S : Crates J) (db : Db) (task : TaskId)

def putProgramInner (kind : DurableProgramKind) (source : String) (registeredAtMs : ℕ) :
    Except DurableError (Option DurableProgram × Db) := do
  validateProgramSource source
  let registeredAtMs ← toSqlInteger registeredAtMs "registered_at_ms"
  let digest := S.sha256 source
  ensureOpen db task
  let existing ← selectProgram S db task
  match existing with
  | some program => do
      reject (program.kind ≠ kind ∨ program.sourceSha256 ≠ digest ∨ program.source ≠ source)
        (.programConflict task)
      return (some program, db)
  | none => do
      let stats ← selectProgramStats db
      reject (maxDurablePrograms ≤ stats.activeCount) .programLimit
      reject (maxDurableProgramTotalBytes < stats.activeBytes + source.utf8ByteSize)
        .programByteLimit
      return (none, db.insertProgram task ⟨kind, source, digest, registeredAtMs⟩)

/-- Persisted task state that keeps a program registered. -/
def Db.inUse : Prop :=
  db.eventsOf task ≠ [] ∨ (db.wakeups.get? task).isSome ∨
    db.inboxOf task ≠ [] ∨ (db.signalWaits.get? task).isSome

instance (db : Db) (task : TaskId) : Decidable (db.inUse task) :=
  inferInstanceAs (Decidable (_ ∨ _ ∨ _ ∨ _))

def removeProgram : Except DurableError (Option DurableProgram × Db) := do
  ensureOpen db task
  let existing ← selectProgram S db task
  match existing with
  | none => return (none, db)
  | some program => do
      reject (db.inUse task) (.programInUse task)
      let discharged ← db.dischargeProgram program.source.utf8ByteSize
      return (some program, discharged.deleteProgram task)

def programCount : Except DurableError ℕ := do
  let stats ← selectProgramStats db
  return stats.activeCount

def decodeProgramRows (S : Crates J) :
    List (TaskId × ProgramRow) → List DurableProgram → ℕ → Except DurableError (List DurableProgram)
  | [], programs, _ => .ok programs
  | (task, row) :: rows, programs, totalBytes => do
      reject (maxDurablePrograms ≤ programs.length) .programLimit
      validateProgramSource row.source
      let totalBytes := totalBytes + row.source.utf8ByteSize
      reject (maxDurableProgramTotalBytes < totalBytes) .programByteLimit
      let program ← decodeProgram S task row
      decodeProgramRows S rows (programs ++ [program]) totalBytes

def dueOrder {ρ : Type} (a b : ℕ × TaskId × ρ) : Prop := a.1 < b.1 ∨ a.1 = b.1 ∧ a.2.1 ≤ b.2.1

instance {ρ : Type} : DecidableRel (dueOrder (ρ := ρ)) := fun _ _ =>
  inferInstanceAs (Decidable (_ ∨ _ ∧ _))

def loadPrograms : Except DurableError (List DurableProgram) :=
  let rows := (db.programs.entries.filter fun e => (db.completions.get? e.1).isNone).map
    fun e => (e.1, e.2)
  decodeProgramRows S ((rows.insertionSort fun a b => a.1 ≤ b.1).take (maxDurablePrograms + 1)) [] 0

/-- A wakeup row of the first branch of the `due` query. -/
def Db.wakeupDue (now : ℕ) (task : TaskId) (w : WakeupRow) : Prop :=
  w.wakeAtMs ≤ now ∧ Db.leaseFree w.leaseUntilMs now ∧ ∀ r ∈ db.executions.get? task,
      (r.state = .ready ∨ r.state = .running ∨ r.state = .suspended) ∧
        Db.leaseFree r.leaseUntilMs now

instance (db : Db) (now : ℕ) (task : TaskId) (w : WakeupRow) :
    Decidable (db.wakeupDue now task w) :=
  inferInstanceAs (Decidable (_ ∧ _ ∧ _))

/-- An execution row of the second branch of the `due` query. -/
def Db.executionDue (now : ℕ) (task : TaskId) (r : ExecutionRow) : Prop :=
  (r.state = .ready ∨ r.state = .running) ∧ Db.leaseFree r.leaseUntilMs now ∧
    db.wakeups.get? task = none ∧ db.signalWaits.get? task = none

instance (db : Db) (now : ℕ) (task : TaskId) (r : ExecutionRow) :
    Decidable (db.executionDue now task r) :=
  inferInstanceAs (Decidable (_ ∧ _ ∧ _ ∧ _))

/-- The common table expression `due`: `(due_at, task_id)` pairs. -/
def Db.due (now : ℕ) : List (ℕ × TaskId) :=
  (db.wakeups.entries.filter fun e => db.wakeupDue now e.1 e.2).map
      (fun e => (e.2.wakeAtMs, e.1)) ++
    (db.executions.entries.filter fun e => db.executionDue now e.1 e.2).map
      fun e => (e.2.leaseUntilMs.getD 0, e.1)

/-- The join of `due` with the open programs of one kind. -/
def Db.duePrograms (now : ℕ) (kind : DurableProgramKind) : List (ℕ × TaskId × ProgramRow) :=
  (db.due now).filterMap fun d =>
    match db.programs.get? d.2 with
    | some row =>
      if row.programKind = kind ∧ (db.completions.get? d.2).isNone then some (d.1, d.2, row)
      else none
    | none => none

def loadDueProgramsBatch (nowMs : ℕ) (kind : DurableProgramKind) (limit : ℕ) :
    Except DurableError (List DurableProgram) := do
  let nowMs ← toSqlInteger nowMs "now_ms"
  let rows := ((db.duePrograms nowMs kind).insertionSort dueOrder).take
    (min limit maxDurablePrograms)
  decodeProgramRows S (rows.map Prod.snd) [] 0

def loadDueProgramsByKind (nowMs : ℕ) (kind : DurableProgramKind) :
    Except DurableError (List DurableProgram) :=
  loadDueProgramsBatch S db nowMs kind maxDurablePrograms

end Tysel.Durable
