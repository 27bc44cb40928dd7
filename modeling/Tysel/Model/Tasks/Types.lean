import Tysel.Model.Durable.Types

/-! The unified task model of the `tysel-task` crate: triggers, the life cycle of a task and its
transitions. Absolute times are milliseconds of the scheduler's clock. -/

namespace Tysel.Tasks

open Tysel.Durable (TaskId)

inductive TaskTrigger where
  | http (method path : String)
  | cron (name expression : String)
  | queue (name handler : String) (messageId : Option String)
  | mcp (tool : String)
  | agent (name : String)
  deriving DecidableEq, Repr

inductive TaskState where
  | created | queued | running | waitingIo | suspended | retrying
  | completed | failed | canceled | timedOut
  deriving DecidableEq, Repr

namespace TaskState

def isTerminal : TaskState → Bool
  | .completed | .failed | .canceled | .timedOut => true
  | _ => false

def canTransitionTo : TaskState → TaskState → Bool
  | .created, .queued | .created, .canceled => true
  | .queued, .running | .queued, .canceled | .queued, .timedOut => true
  | .running, .waitingIo | .running, .suspended | .running, .retrying | .running, .completed
  | .running, .failed | .running, .canceled | .running, .timedOut => true
  | .waitingIo, .running | .waitingIo, .suspended | .waitingIo, .retrying | .waitingIo, .failed
  | .waitingIo, .canceled | .waitingIo, .timedOut => true
  | .suspended, .queued | .suspended, .canceled | .suspended, .timedOut => true
  | .retrying, .queued | .retrying, .canceled | .retrying, .timedOut => true
  | _, _ => false

end TaskState

structure TaskMeta where
  id : TaskId
  applicationId : String
  tenantId : Option String
  idempotencyKey : Option String
  traceId : Option String
  deriving DecidableEq

/-- `J` is the type of JSON values. -/
structure Task (J : Type) where
  info : TaskMeta
  trigger : TaskTrigger
  input : J
  state : TaskState
  attempt : UInt32
  deadlineMs : Option UInt64

structure TaskTransitionError where
  id : TaskId
  source : TaskState
  target : TaskState
  deriving DecidableEq, Repr

namespace Task

variable {J : Type}

def new (info : TaskMeta) (trigger : TaskTrigger) (deadlineMs : Option UInt64) (input : J) :
    Task J :=
  ⟨info, trigger, input, .created, 0, deadlineMs⟩

def transition (task : Task J) (next : TaskState) : Except TaskTransitionError (Task J) :=
  if task.state.canTransitionTo next then .ok { task with state := next }
  else .error ⟨task.info.id, task.state, next⟩

def nextAttempt (attempt : UInt32) : UInt32 := UInt32.ofNat (min (attempt.toNat + 1) (2 ^ 32 - 1))

def beginAttempt (task : Task J) : Except TaskTransitionError (Task J) := do
  let task ← task.transition .running
  return { task with attempt := nextAttempt task.attempt }

def deadlineReached (task : Task J) (nowMs : ℕ) : Bool :=
  task.deadlineMs.any fun deadline => deadline.toNat ≤ nowMs

end Task

end Tysel.Tasks
