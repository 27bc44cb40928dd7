import Tysel.Algorithm.Durable.Common

/-! # Wakeup operations -/

namespace Tysel.Durable

variable (db : Db) (task : TaskId) (claim : WakeupClaim)

def scheduleWakeup (wakeup : Wakeup) : Except DurableError (Unit × Db) := do
  ensureOpen db wakeup.taskId
  let sequence ← toSqlInteger wakeup.sequence "sequence"
  let wakeAtMs ← toSqlInteger wakeup.wakeAtMs "wake_at_ms"
  return ((), db.upsertWakeup wakeup.taskId sequence wakeAtMs)

def leaseDeadline (nowMs leaseDurationMs : ℕ) : Except DurableError ℕ :=
  match checkedAdd nowMs (max leaseDurationMs 1) with
  | some until_ => .ok until_
  | none => .error (.integerRange "lease_until_ms")

def WakeupRow.claimable (w : WakeupRow) (now : ℕ) : Prop :=
  w.wakeAtMs ≤ now ∧ Db.leaseFree w.leaseUntilMs now

instance (w : WakeupRow) (now : ℕ) : Decidable (w.claimable now) :=
  inferInstanceAs (Decidable (_ ∧ _))

def wakeupOrder (a b : TaskId × WakeupRow) : Prop :=
  a.2.wakeAtMs < b.2.wakeAtMs ∨ a.2.wakeAtMs = b.2.wakeAtMs ∧ a.1 ≤ b.1

instance : DecidableRel wakeupOrder := fun _ _ =>
  inferInstanceAs (Decidable (_ ∨ _ ∧ _))

/-- The update loop of `claim_due_wakeups` over the selected candidates. -/
def claimCandidates (owner : String) (until_ now : ℕ) :
    List (TaskId × WakeupRow) → Db → List WakeupClaim × Db
  | [], db => ([], db)
  | (task, candidate) :: rest, db =>
    match db.wakeups.get? task with
    | some w =>
      if w.sequence = candidate.sequence ∧ w.claimable now then
        let leased := db.setWakeup task
          { w with leaseOwner := some owner, leaseUntilMs := some until_ }
        let claimed := claimCandidates owner until_ now rest leased
        (⟨task, candidate.sequence, candidate.wakeAtMs, owner, until_⟩ :: claimed.1, claimed.2)
      else claimCandidates owner until_ now rest db
    | none => claimCandidates owner until_ now rest db

def claimDueWakeups (nowMs limit : ℕ) (leaseOwner : String) (leaseDurationMs : ℕ) :
    Except DurableError (List WakeupClaim × Db) := do
  validateLeaseOwner leaseOwner
  if limit = 0 then
    return ([], db)
  else do
    let now ← toSqlInteger nowMs "now_ms"
    let leaseUntilMs ← leaseDeadline nowMs leaseDurationMs
    let leaseUntilMs ← toSqlInteger leaseUntilMs "lease_until_ms"
    let rows := (db.wakeups.entries.filter fun e => e.2.claimable now).map fun e => (e.1, e.2)
    let candidates := (rows.insertionSort wakeupOrder).take (min limit maxWakeupBatch)
    return claimCandidates leaseOwner leaseUntilMs now candidates db

def claimWakeup (nowMs : ℕ) (leaseOwner : String) (leaseDurationMs : ℕ) :
    Except DurableError (Option WakeupClaim × Db) := do
  validateLeaseOwner leaseOwner
  let now ← toSqlInteger nowMs "now_ms"
  let leaseUntilMs ← leaseDeadline nowMs leaseDurationMs
  let leaseUntilMs ← toSqlInteger leaseUntilMs "lease_until_ms"
  match db.wakeups.get? task with
  | none => return (none, db)
  | some w =>
    if w.claimable now then
      return (some ⟨task, w.sequence, w.wakeAtMs, leaseOwner, leaseUntilMs⟩, db.setWakeup task
          { w with leaseOwner := some leaseOwner, leaseUntilMs := some leaseUntilMs })
    else return (none, db)

/-- The row condition of the two deletes of `complete_wakeup`. -/
def WakeupRow.completable (w : WakeupRow) (sequence : ℕ) (leaseOwner : Option String) (now : ℕ) :
    Bool :=
  w.sequence = sequence &&
    match leaseOwner with
    | some owner => w.leaseOwner = some owner && w.leaseUntilMs.any (now < ·)
    | none => w.leaseOwner.isNone

def validateWakeupOwner (leaseOwner : Option String) : Except DurableError Unit :=
  match leaseOwner with
  | some owner => validateLeaseOwner owner
  | none => .ok ()

/-- Complete only the exact wakeup generation owned by this execution. -/
def completeWakeup (execution : Option ExecutionClaim) (db : Db) (task : TaskId) (sequence : ℕ)
    (leaseOwner : Option String) (nowMs : ℕ) (clock₁ clock₂ : ℤ) :
    Except DurableError (Bool × Db) := do
  guardExecution execution db task clock₁
  let sequence ← toSqlInteger sequence "sequence"
  let now ← toSqlInteger nowMs "now_ms"
  validateWakeupOwner leaseOwner
  let changed := (db.wakeups.get? task).any fun w => w.completable sequence leaseOwner now
  let written := if changed then db.deleteWakeup task else db
  guardExecution execution written task clock₂
  return (changed, written)

def WakeupClaim.matches (w : WakeupRow) : Bool :=
  w.sequence = claim.sequence && w.wakeAtMs = claim.wakeAtMs &&
    w.leaseOwner = some claim.leaseOwner && w.leaseUntilMs = some claim.leaseUntilMs

/-- The integer conversions of the claim's fields, in the order of the parameters. -/
def WakeupClaim.toSql : Except DurableError Unit := do
  let _ ← toSqlInteger claim.sequence "sequence"
  let _ ← toSqlInteger claim.wakeAtMs "wake_at_ms"
  let _ ← toSqlInteger claim.leaseUntilMs "lease_until_ms"
  return ()

def claimIsActive (nowMs : ℕ) : Except DurableError Bool := do
  claim.toSql
  let now ← toSqlInteger nowMs "now_ms"
  return (db.wakeups.get? claim.taskId).any fun w =>
    claim.matches w && decide (now < claim.leaseUntilMs)

def renewWakeupClaim (nowMs leaseDurationMs : ℕ) :
    Except DurableError (Option WakeupClaim × Db) := do
  validateLeaseOwner claim.leaseOwner
  let leaseUntilMs ← leaseDeadline nowMs leaseDurationMs
  let leaseUntilMs ← toSqlInteger leaseUntilMs "lease_until_ms"
  claim.toSql
  let now ← toSqlInteger nowMs "now_ms"
  match db.wakeups.get? claim.taskId with
  | none => return (none, db)
  | some w =>
    if claim.matches w ∧ now < claim.leaseUntilMs then
      return (some { claim with leaseUntilMs },
        db.setWakeup claim.taskId { w with leaseUntilMs := some leaseUntilMs })
    else return (none, db)

def releaseWakeupClaim : Except DurableError (Bool × Db) := do
  validateLeaseOwner claim.leaseOwner
  claim.toSql
  match db.wakeups.get? claim.taskId with
  | none => return (false, db)
  | some w =>
    if claim.matches w then
      return (true, db.setWakeup claim.taskId { w with leaseOwner := none, leaseUntilMs := none })
    else return (false, db)

def wakeup : Option Wakeup := (db.wakeups.get? task).map fun w => ⟨task, w.sequence, w.wakeAtMs⟩

end Tysel.Durable
