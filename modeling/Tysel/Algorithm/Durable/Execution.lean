import Tysel.Algorithm.Durable.Common

/-! # Admission, execution claims and their release -/

namespace Tysel.Durable

variable {J : Type} (S : Crates J) (db : Db) (task : TaskId)

/-- `owner_token`: the digest of the owner name and fresh entropy. The digest drawn is an
argument, `none` when the entropy source fails. -/
def ownerToken (owner : String) (drawn : Option String) : Except DurableError String := do
  validateLeaseOwner owner
  match drawn with
  | some token => return token
  | none => .error .io

/-- The request hash and the canonical input text of an admission. -/
def fingerprint (source input : String) : Except DurableError (String × String) := do
  validateProgramSource source
  reject (maxEventPayloadBytes < input.utf8ByteSize) .eventPayloadTooLarge
  let value ← parseJson S input
  let canonical := S.toStr value
  return (S.sha256 (source ++ "\x00" ++ canonical), canonical)

def taskInputKey : String := "$tysel:task-input"

/-- The inserts of a first admission: program, input event and execution row. -/
def admitNew (key source hash input : String) (time : ℕ) : Except DurableError (Unit × Db) := do
  let existing ← selectProgram S db task
  reject existing.isSome .admissionConflict
  let stats ← selectProgramStats db
  reject (maxDurablePrograms ≤ stats.activeCount) .programLimit
  reject (maxDurableProgramTotalBytes < stats.activeBytes + source.utf8ByteSize) .programByteLimit
  let registeredAtMs ← toSqlInteger time "time"
  let registered := db.insertProgram task ⟨.module, source, S.sha256 source, registeredAtMs⟩
  let event ← rawEvent S .step taskInputKey input time
  let (_, recorded) ← insertEvent registered task (some 0) event input registeredAtMs
  return ((), recorded.setExecution task ⟨.ready, 0, none, none, some key, some hash⟩)

def admitModule (key source input : String) (time : ℕ) : Except DurableError (Unit × Db) := do
  validateKey key
  let (hash, input) ← fingerprint S source input
  match db.executions.get? task with
  | some row => do
      reject (row.admissionKey ≠ some key ∨ row.requestHash ≠ some hash) .admissionConflict
      return ((), db)
  | none => admitNew S db task key source hash input time

def ExecutionRow.blocks (r : ExecutionRow) (time : ℕ) : Bool :=
  r.state = .completed || r.state = .failed || r.leaseUntilMs.any fun u => asI64 time < (u : ℤ)

/-- A wakeup that is not due or still leased at `time`. -/
def WakeupRow.blocks (w : WakeupRow) (time : ℕ) : Bool :=
  asI64 time < (w.wakeAtMs : ℤ) || w.leaseUntilMs.any fun u => asI64 time < (u : ℤ)

/-- The early `Ok(None)` exits of `claim_run` after the clock is read. -/
def Db.claimBlocked (time : ℕ) : Bool :=
  (db.executions.get? task).any (·.blocks time) ||
    match db.wakeups.get? task with
    | some w => w.blocks time
    | none => (db.signalWaits.get? task).isSome

/-- `time.checked_add(duration).filter(|u| *u > time)`. -/
def executionDeadline (time duration : ℕ) : Except DurableError ℕ :=
  match checkedAdd time duration with
  | some until_ => do
      reject (until_ ≤ time) .executionLeaseLost
      return until_
  | none => .error .executionLeaseLost

/-- One more than the stored generation, or one for a task without an execution row. -/
def nextGeneration (row : Option ExecutionRow) : Except DurableError ℕ :=
  match row with
  | some r => do
      reject (2 ^ 63 ≤ r.generation + 1) .executionLeaseLost
      return r.generation + 1
  | none => .ok 1

/-- The row `claim_run` writes; an existing row keeps its admission columns. -/
def claimedRow (row : Option ExecutionRow) (generation : ℕ) (token : String) (until_ : ℕ) :
    ExecutionRow where
  state := .running
  generation := generation
  owner := some token
  leaseUntilMs := some until_
  admissionKey := row.bind (·.admissionKey)
  requestHash := row.bind (·.requestHash)

/-- The two updates of a granted claim: the execution row and the lease of its wakeup. -/
def Db.grantRun (generation : ℕ) (token : String) (until_ : ℕ) : Db :=
  { db with
    executions := db.executions.insert task
      (claimedRow (db.executions.get? task) generation token until_)
    wakeups := db.wakeups.modify task fun w =>
      { w with leaseOwner := some token, leaseUntilMs := some until_ } }

def claimRun (owner : String) (duration : ℕ) (drawn : Option String) (clock₁ clock₂ : ℤ) :
    Except DurableError (Option ExecutionClaim × Db) := do
  let token ← ownerToken owner drawn
  if (db.completions.get? task).isSome then
    return (none, db)
  else if (db.programs.get? task).isNone then
    return (none, db)
  else do
    let time ← now clock₁
    let until_ ← executionDeadline time duration
    if db.claimBlocked task time then
      return (none, db)
    else do
      let generation ← nextGeneration (db.executions.get? task)
      let until_ ← toSqlInteger until_ "lease"
      let again ← now clock₂
      if until_ ≤ again then
        return (none, db)
      else
        return (some
          { taskId := task
            owner := token
            generation := generation
            leaseUntilMs := until_
            wakeup := (db.wakeups.get? task).map fun w =>
              ⟨task, w.sequence, w.wakeAtMs, token, until_⟩ },
          db.grantRun task generation token until_)

def releaseRun (claim : ExecutionClaim) (failed : Bool) (clock₁ clock₂ : ℤ) :
    Except DurableError (Unit × Db) := do
  guardExecution (some claim) db claim.taskId clock₁
  let unleased := db.clearWakeupLease claim.taskId
  guardExecution (some claim) unleased claim.taskId clock₂
  return ((), unleased.closeExecution claim.taskId (if failed then .failed else .suspended))

def executionFailed : Bool := (db.executions.get? task).any fun r => r.state = .failed

end Tysel.Durable
