import Tysel.Algorithm.Engine.Dispatch

/-! `DurableDispatcher` of the runtime: a claimed task is evaluated in a session, its result is
persisted through a completion handle, and a completion that fails for lack of storage is
retained with its slot and retried by later polls. -/

namespace Tysel.Durable

/-- `DurableError::is_retryable`. The driver errors that the store operations raise here are
a missing row and a violated constraint; neither is retried. -/
def DurableError.isRetryable : DurableError → Bool
  | .io => true
  | _ => false

end Tysel.Durable

namespace Tysel.Engine

open Tysel.Durable

variable {J : Type}

inductive EngineError where
  | isolate
  | module
  | interrupted
  | bodyTooLarge
  | suspended
  deriving DecidableEq, Repr

namespace DurableSession

/-- The session holds no storage error, has replayed its history and waits for nothing. -/
def settled (session : DurableSession J) : Bool :=
  session.storageError.isNone && session.replay.ensureConsumed.toOption.isSome && session.resolved

/-- The last check of an isolate on the value that a script has returned. -/
def evaluated (session : DurableSession J) (outcome : Except EngineError J) :
    Except EngineError J := do
  let value ← outcome
  reject (session.settled = false) .isolate
  return value

end DurableSession

structure DurableCompletion where
  store : Option ExecutionClaim
  taskId : TaskId
  nextSequence : ℕ
  leaseUntilMs : Option ℕ
  deriving DecidableEq

def DurableSession.completionHandle (session : DurableSession J) :
    Except DurableError DurableCompletion := do
  reject (session.settled = false) (.taskSuspended session.taskId)
  return ⟨session.store, session.taskId, session.nextSequence, session.leaseUntilMs⟩

/-- What a completion meets: the clock readings of its transaction, its own reading of the
clock, and an error of the driver, with which the transaction is dropped. -/
structure CompletionEnv where
  finish : FinishClocks
  clock : ℤ
  fault : Option DurableError

/-- `complete_task_before` or `complete_task`: the value is measured before the transaction
begins, and the driver can fail in the transaction. -/
def DurableCompletion.write (S : Crates J) (completion : DurableCompletion) (db : Db) (value : J)
    (completedAtMs : ℕ) (env : CompletionEnv) : Except DurableError (Bool × Db) := do
  reject (maxEventPayloadBytes < (S.toStr value).utf8ByteSize) .eventPayloadTooLarge
  match env.fault with
  | some error => .error error
  | none =>
    finishTask S completion.store db completion.taskId completion.nextSequence value
      completedAtMs completion.leaseUntilMs env.finish

/-- `DurableCompletion::complete`. A lease that expires inside the transaction is reported as
lost authority too. -/
def DurableCompletion.complete (S : Crates J) (completion : DurableCompletion) (db : Db)
    (value : J) (env : CompletionEnv) : Except DurableError (Bool × Db) :=
  match completion.leaseUntilMs with
  | some until_ =>
    match completion.write S db value 0 env with
    | .error (.taskSuspended task) =>
      if 0 ≤ env.clock ∧ until_ ≤ env.clock.toNat then .error .executionLeaseLost
      else .error (.taskSuspended task)
    | result => result
  | none =>
    if env.clock < 0 then .error .io
    else completion.write S db value (env.clock.toNat % 2 ^ 64) env

end Tysel.Engine

namespace Tysel.Runtime

open Tysel.Durable Tysel.Engine

variable {J : Type}

inductive DurableRunError where
  | taskFailed
  | boundary (error : DurableError)
  | finalizationCapacity
  | finalizationPending
  | session (error : SessionError)
  | engine (error : EngineError)
  | store (error : DurableError)
  | programNotFound
  | leaseLost
  deriving DecidableEq, Repr

def DurableRunError.ofBoundary : DurableError → DurableRunError
  | .executionLeaseLost => .leaseLost
  | .eventKeyTooLarge => .boundary .eventKeyTooLarge
  | .eventPayloadTooLarge => .boundary .eventPayloadTooLarge
  | .historyEventLimit => .boundary .historyEventLimit
  | .historyByteLimit => .boundary .historyByteLimit
  | .invalidSignalName => .boundary .invalidSignalName
  | .signalWaitConflict => .boundary .signalWaitConflict
  | .signalInboxLimit => .boundary .signalInboxLimit
  | .integerRange field => .boundary (.integerRange field)
  | .json => .boundary .json
  | error => .store error

/-- A completed run carries the JSON value of its result. -/
inductive DurableRunStatus (J : Type) where
  | completed (value : J)
  | suspended
  deriving DecidableEq

abbrev RunResult (J : Type) := Except DurableRunError (DurableRunStatus J)

structure DurableRun (J : Type) where
  taskId : TaskId
  result : RunResult J

inductive DispatchError where
  | invalidOwner
  | leaseTooShort (leaseDurationMs requestTimeoutMs : ℕ)
  | store (error : DurableError)
  | systemClock
  | timeRange
  deriving DecidableEq, Repr

/-- A completion to be retried; it owns one slot of the dispatcher. -/
structure PendingCompletion where
  completion : DurableCompletion
  json : String

structure DurableDispatcher where
  pending : Table TaskId PendingCompletion
  slots : ℕ

def maxFinalizations : ℕ := 32

namespace DurableDispatcher

variable (d : DurableDispatcher)

def reserve : Except DurableRunError DurableDispatcher := do
  reject (maxFinalizations ≤ d.slots) .finalizationCapacity
  return { d with slots := d.slots + 1 }

def dropSlot : DurableDispatcher := { d with slots := d.slots - 1 }

/-- Retaining a completion keeps its slot; an entry that it replaces drops its own. -/
def retain (task : TaskId) (entry : PendingCompletion) : DurableDispatcher where
  pending := d.pending.insert task entry
  slots := if (d.pending.get? task).isSome then d.slots - 1 else d.slots

/-- A retained completion is removed, and its slot with it. -/
def release (task : TaskId) : DurableDispatcher where
  pending := d.pending.erase task
  slots := if (d.pending.get? task).isSome then d.slots - 1 else d.slots

end DurableDispatcher

section

variable (S : Crates J)

/-- `finish`: persist the value, or retain it when the store is not available. -/
def finish (d : DurableDispatcher) (db : Db) (session : DurableSession J) (value : J)
    (env : CompletionEnv) : RunResult J × DurableDispatcher × Db :=
  match session.completionHandle with
  | .error error => (.error (.store error), d.dropSlot, db)
  | .ok completion =>
    match completion.complete S db value env with
    | .ok (_, db') => (.ok (.completed value), d.dropSlot, db')
    | .error error =>
      if error.isRetryable then
        (.error (.store error), d.retain completion.taskId ⟨completion, S.toStr value⟩, db)
      else (.error (.ofBoundary error), d.dropSlot, db)

/-- A visit of the retry pass: the store calls that others have committed since the previous
one, and what the completion meets. -/
structure Visit (J : Type) where
  task : TaskId
  others : List (Op J)
  env : CompletionEnv

/-- The runs completed by a retry pass and the error that stopped it. -/
abbrev Retried (J : Type) := List (DurableRun J) × Option DispatchError

/-- The loop of `retry_completions` over the ids still to visit. `none` is a panic: an id
without an entry, or a retained text that does not parse. -/
def retryLoop : List (Visit J) → List (DurableRun J) → DurableDispatcher → Db →
    Option (Retried J × DurableDispatcher × Db)
  | [], runs, d, db => some ((runs, none), d, db)
  | visit :: rest, runs, d, db => do
      let entry ← d.pending.get? visit.task
      let json ← S.fromStr entry.json
      match entry.completion.complete S (run (call S) db visit.others) json visit.env with
      | .ok (_, db') =>
        retryLoop rest (runs ++ [⟨visit.task, .ok (.completed json)⟩]) (d.release visit.task) db'
      | .error .executionLeaseLost =>
        retryLoop rest runs (d.release visit.task) (run (call S) db visit.others)
      | .error error => some ((runs, some (.store error)), d, run (call S) db visit.others)

/-- `retry_completions`. The visits are the keys of the table in an unspecified order. -/
def retryCompletions (visits : List (Visit J)) (d : DurableDispatcher) (db : Db) :
    Option (Retried J × DurableDispatcher × Db) :=
  retryLoop S visits [] d db

/-- The result of an evaluation: an error kept by the session comes before its outcome. -/
def evaluate (d : DurableDispatcher) (db : Db) (session : DurableSession J)
    (outcome : Except EngineError J) (env : CompletionEnv) :
    RunResult J × DurableDispatcher × Db :=
  match session.storageError with
  | some error => (.error (.ofBoundary error), d.dropSlot, db)
  | none =>
    match session.evaluated outcome with
    | .ok value => finish S d db session value env
    | .error .suspended => (.ok .suspended, d.dropSlot, db)
    | .error error => (.error (.engine error), d.dropSlot, db)

end

/-- The state that `execute_managed` gives the execution row: `some true` for failed and
`some false` for suspended. A store error leaves the lease to the retained completion. -/
def transition : RunResult J → Option Bool
  | .ok .suspended => some false
  | .ok (.completed _) => none
  | .error (.store _) | .error (.session _) | .error .leaseLost => none
  | .error _ => some true

/-- The end of `execute_managed`: release the claim as the result demands. -/
def closeRun (db : Db) (claim : ExecutionClaim) (result : RunResult J) (clock₁ clock₂ : ℤ) :
    RunResult J × Db :=
  match transition result with
  | none => (result, db)
  | some failed =>
    match releaseRun db claim failed clock₁ clock₂ with
    | .ok (_, db') => (result, db')
    | .error error => (.error (.ofBoundary error), db)

/-- What happens while a script runs: a host call of its session, or a call of someone else
on the store. -/
inductive Moment (J : Type) where
  | host (hostCall : HostCall)
  | other (op : Op J)

def Moment.apply (S : Crates J) (x : DurableSession J × Db) : Moment J → DurableSession J × Db
  | .host hostCall => x.1.host S x.2 hostCall
  | .other op => (x.1, (call S x.2 op).2)

/-- The end of a script and what the dispatcher meets when it persists the result. -/
structure Ending (J : Type) where
  outcome : Except EngineError J
  env : CompletionEnv
  others : List (Op J)
  clock₁ : ℤ
  clock₂ : ℤ

/-- `execute_managed` from a session that has been opened. -/
def proceed (S : Crates J) (d : DurableDispatcher) (db : Db) (claim : ExecutionClaim)
    (session : DurableSession J) (moments : List (Moment J)) (ending : Ending J) :
    DurableRun J × DurableDispatcher × Db :=
  let (session, db) := moments.foldl (Moment.apply S) (session, db)
  let (result, d, db) := evaluate S d db session ending.outcome ending.env
  let (result, db) :=
    closeRun (run (call S) db ending.others) claim result ending.clock₁ ending.clock₂
  (⟨claim.taskId, result⟩, d, db)

def executeManaged (S : Crates J) (d : DurableDispatcher) (db : Db) (claim : ExecutionClaim)
    (clock : ℤ) (moments : List (Moment J)) (ending : Ending J) :
    DurableRun J × DurableDispatcher × Db :=
  match DurableSession.fromExecution S db claim clock with
  | .error error => (⟨claim.taskId, .error (.session error)⟩, d.dropSlot, db)
  | .ok session => proceed S d db claim session moments ending

end Tysel.Runtime
