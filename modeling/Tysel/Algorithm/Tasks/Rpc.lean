import Tysel.Shared.Text
import Tysel.Algorithm.Tasks.Scheduler

/-! The versioned, bounded messages of the `tysel-task-rpc` crate, with their checks, the texts of
the errors and the encoding. A generation, a lease time or a clock value is a natural number
here; the values that a response repeats from a request keep their machine width. -/

namespace Tysel.Tasks

open Tysel.Durable (TaskId checkedAdd)
open Tysel.Text

def taskRpcVersion : UInt16 := 1
def maxTaskRpcFrame : ℕ := 64 * 1024
def maxClaimBatch : ℕ := 64
def maxWorkerIdBytes : ℕ := 128
def maxTaskTriggerBytes : ℕ := 256
def maxTaskInputBytes : ℕ := 32 * 1024
def maxErrorBytes : ℕ := 4 * 1024
def maxResultBytes : ℕ := 32 * 1024

/-- Texts that the standard library and `serde_json` print: a JSON value and the `Debug` form
of a string. -/
structure Texts (J : Type) where
  toVec : J → String
  debug : String → String

variable {J : Type} (T : Texts J)

inductive TaskRpcError where
  | io (error : String)
  | frameTooLarge (length : ℕ)
  | json (error : String)
  | unsupportedVersion (found supported : UInt16)
  | invalidWorkerId
  | invalidClaimLimit (limit : UInt16)
  | tooManyLeases (count : ℕ)
  | invalidLeaseDuration
  | invalidLeaseDeadline
  | invalidLeaseGeneration
  | invalidTaskAttempt
  | invalidTaskTrigger
  | taskTriggerTooLarge
  | taskInputTooLarge (bytes : ℕ)
  | invalidTaskId (id : String)
  | errorTooLarge
  | resultTooLarge (bytes : ℕ)
  deriving DecidableEq

def TaskRpcError.text : TaskRpcError → String
  | .io error => s!"io: {error}"
  | .frameTooLarge length => s!"TaskRPC frame length {length} exceeds 65536 byte limit"
  | .json error => s!"TaskRPC JSON: {error}"
  | .unsupportedVersion found supported =>
    s!"TaskRPC version {found} is unsupported; this runtime supports {supported}"
  | .invalidWorkerId =>
    "worker id must be 1..=128 ASCII letters, digits, '.', '_', ':', '@', or '-'"
  | .invalidClaimLimit limit => s!"claim limit {limit} must be 1..=64"
  | .tooManyLeases count => s!"claim response contains {count} leases; maximum is 64"
  | .invalidLeaseDuration => "lease duration must be 1..=86400000 milliseconds"
  | .invalidLeaseDeadline => "lease deadline must be non-zero"
  | .invalidLeaseGeneration => "lease generation must be non-zero"
  | .invalidTaskAttempt => "claimed task attempt must be non-zero"
  | .invalidTaskTrigger => "task trigger fields must not be empty"
  | .taskTriggerTooLarge => "task trigger fields exceed 256 bytes in total"
  | .taskInputTooLarge bytes => s!"task input is {bytes} bytes; maximum is 32768"
  | .invalidTaskId id => s!"task id {T.debug id} is not canonical 32-character lowercase hex"
  | .errorTooLarge => "task error must not exceed 4096 bytes"
  | .resultTooLarge bytes => s!"task result is {bytes} bytes; maximum is 32768"

/-- `Display` of a task id: 32 hexadecimal digits. -/
def displayTaskId (id : TaskId) : String := String.ofList (hexChars 32 id.val)

def TaskState.debug : TaskState → String
  | .created => "Created"
  | .queued => "Queued"
  | .running => "Running"
  | .waitingIo => "WaitingIo"
  | .suspended => "Suspended"
  | .retrying => "Retrying"
  | .completed => "Completed"
  | .failed => "Failed"
  | .canceled => "Canceled"
  | .timedOut => "TimedOut"

def TaskTransitionError.text (e : TaskTransitionError) : String :=
  "task " ++ displayTaskId e.id ++ " cannot transition from " ++ e.source.debug ++ " to " ++
    e.target.debug

def SchedulerError.text : SchedulerError → String
  | .invalidCapacity => "scheduler capacity must be greater than zero"
  | .full capacity => s!"scheduler queue is full (capacity {capacity})"
  | .duplicate id => "task " ++ displayTaskId id ++ " is already registered"
  | .unknown id => "task " ++ displayTaskId id ++ " is not registered"
  | .invalidLeaseOwner =>
    "lease owner must be 1..=128 ASCII letters, digits, '.', '_', ':', '@', or '-'"
  | .invalidLeaseDuration => "lease duration must be 1..=86400000 milliseconds"
  | .timeRange => "scheduler clock is outside the supported range"
  | .generationExhausted => "task claim generation is exhausted"
  | .leaseLost => "task claim is missing, expired, or fenced by a newer generation"
  | .invalidClaimOutcome state => "worker claims cannot finish in state " ++ state.debug
  | .invalidTransition error => error.text

structure WireTaskId where
  text : String
  deriving DecidableEq

structure LeaseToken where
  taskId : WireTaskId
  generation : ℕ
  leaseOwner : String
  deriving DecidableEq

inductive WireTaskTrigger where
  | http (method path : String)
  | cron (name expression : String)
  | queue (name handler : String) (messageId : Option String)
  | mcp (tool : String)
  | agent (name : String)
  deriving DecidableEq

structure TaskDescriptor (J : Type) where
  trigger : WireTaskTrigger
  input : J
  attempt : UInt32
  deadlineMs : Option UInt64
  deriving DecidableEq

structure TaskLease (J : Type) where
  token : LeaseToken
  task : TaskDescriptor J
  leaseUntilMs : ℕ
  deriving DecidableEq

inductive TaskOutcome (J : Type) where
  | completed (result : J)
  | suspended
  | failed (error : String) (retryable : Bool)
  | canceled
  | timedOut
  deriving DecidableEq

inductive ErrorCode where
  | invalidRequest | versionMismatch | leaseLost | taskNotFound | internal
  deriving DecidableEq

inductive Message (J : Type) where
  | hello (workerId : String)
  | ready
  | claim (requestId : UInt64) (workerId : String) (leaseMs : ℕ) (limit : UInt16)
  | claimed (requestId : UInt64) (leases : List (TaskLease J))
  | renew (requestId : UInt64) (lease : LeaseToken) (leaseMs : ℕ)
  | renewed (requestId : UInt64) (lease : Option (TaskLease J))
  | release (requestId : UInt64) (lease : LeaseToken)
  | released (requestId : UInt64) (released : Bool)
  | cancel (requestId : UInt64) (taskId : WireTaskId)
  | canceled (requestId : UInt64) (canceled : Bool)
  | commit (requestId : UInt64) (lease : LeaseToken) (outcome : TaskOutcome J)
  | committed (requestId : UInt64) (accepted : Bool)
  | error (requestId : Option UInt64) (code : ErrorCode) (message : String)
  deriving DecidableEq

structure Envelope (J : Type) where
  version : UInt16
  message : Message J
  deriving DecidableEq

def Envelope.new (message : Message J) : Envelope J := ⟨taskRpcVersion, message⟩

def validateWorkerId (workerId : String) : Except TaskRpcError Unit :=
  reject (workerId = "" ∨ maxWorkerIdBytes < workerId.utf8ByteSize ∨
    workerId.toList.all isWorkerChar = false) .invalidWorkerId

def validateLeaseMs (leaseMs : ℕ) : Except TaskRpcError Unit :=
  reject (leaseMs = 0 ∨ maxLeaseMs < leaseMs) .invalidLeaseDuration

def validateError (error : String) : Except TaskRpcError Unit :=
  reject (maxErrorBytes < error.utf8ByteSize) .errorTooLarge

namespace WireTaskId

def new (id : TaskId) : WireTaskId := ⟨displayTaskId id⟩

def validate (id : WireTaskId) : Except TaskRpcError Unit :=
  reject (id.text.utf8ByteSize ≠ 32 ∨ id.text.toList.all isLowerHex = false)
    (.invalidTaskId id.text)

/-- `u128::from_str_radix` accepts every text that passes the check. -/
def parse (id : WireTaskId) : Except TaskRpcError TaskId := do
  id.validate
  return Fin.ofNat (2 ^ 128) (ofHexChars id.text.toList)

end WireTaskId

def LeaseToken.validate (lease : LeaseToken) : Except TaskRpcError Unit := do
  lease.taskId.validate
  reject (lease.generation = 0) .invalidLeaseGeneration
  validateWorkerId lease.leaseOwner

namespace WireTaskTrigger

def fromTaskTrigger : TaskTrigger → WireTaskTrigger
  | .http method path => .http method path
  | .cron name expression => .cron name expression
  | .queue name handler messageId => .queue name handler messageId
  | .mcp tool => .mcp tool
  | .agent name => .agent name

def fields : WireTaskTrigger → List String
  | .http method path => [method, path]
  | .cron name expression => [name, expression]
  | .queue name handler messageId => name :: handler :: messageId.toList
  | .mcp tool => [tool]
  | .agent name => [name]

def totalBytes : ℕ → List String → Except TaskRpcError ℕ
  | total, [] => .ok total
  | total, field :: fields =>
    if field = "" then .error .invalidTaskTrigger
    else
      match checkedAdd total field.utf8ByteSize with
      | some total => totalBytes total fields
      | none => .error .taskTriggerTooLarge

def validate (trigger : WireTaskTrigger) : Except TaskRpcError Unit := do
  let total ← totalBytes 0 trigger.fields
  reject (maxTaskTriggerBytes < total) .taskTriggerTooLarge

/-- The registered module handler selected by the trigger. -/
def handlerName : WireTaskTrigger → Option String
  | .http _ _ => none
  | .cron name _ => some name
  | .queue _ handler _ => some handler
  | .mcp tool => some tool
  | .agent name => some name

end WireTaskTrigger

namespace TaskDescriptor

def validate (T : Texts J) (descriptor : TaskDescriptor J) : Except TaskRpcError Unit := do
  descriptor.trigger.validate
  reject (maxTaskInputBytes < (T.toVec descriptor.input).utf8ByteSize)
    (.taskInputTooLarge (T.toVec descriptor.input).utf8ByteSize)
  reject (descriptor.attempt = 0) .invalidTaskAttempt

def ofTask (task : Task J) : TaskDescriptor J :=
  ⟨.fromTaskTrigger task.trigger, task.input, task.attempt, task.deadlineMs⟩

def fromTask (T : Texts J) (task : Task J) : Except TaskRpcError (TaskDescriptor J) := do
  (ofTask task).validate T
  return ofTask task

end TaskDescriptor

def TaskLease.validate (T : Texts J) (lease : TaskLease J) : Except TaskRpcError Unit := do
  lease.token.validate
  lease.task.validate T
  reject (lease.leaseUntilMs = 0) .invalidLeaseDeadline

def TaskOutcome.validate : TaskOutcome J → Except TaskRpcError Unit
  | .completed result => reject (maxResultBytes < (T.toVec result).utf8ByteSize)
      (.resultTooLarge (T.toVec result).utf8ByteSize)
  | .failed error _ => validateError error
  | .suspended | .canceled | .timedOut => .ok ()

def Message.validate (T : Texts J) : Message J → Except TaskRpcError Unit
  | .hello workerId => validateWorkerId workerId
  | .ready | .released _ _ | .canceled _ _ | .committed _ _ => .ok ()
  | .claim _ workerId leaseMs limit => do
      validateWorkerId workerId
      validateLeaseMs leaseMs
      reject (limit = 0 ∨ maxClaimBatch < limit.toNat) (.invalidClaimLimit limit)
  | .claimed _ leases => do
      reject (maxClaimBatch < leases.length) (.tooManyLeases leases.length)
      leases.forM fun lease => lease.validate T
  | .renew _ lease leaseMs => do
      lease.validate
      validateLeaseMs leaseMs
  | .renewed _ (some lease) => lease.validate T
  | .renewed _ none => .ok ()
  | .release _ lease => lease.validate
  | .commit _ lease outcome => do
      lease.validate
      outcome.validate T
  | .cancel _ taskId => taskId.validate
  | .error _ _ message => validateError message

def Envelope.validate (T : Texts J) (envelope : Envelope J) : Except TaskRpcError Unit := do
  reject (envelope.version ≠ taskRpcVersion) (.unsupportedVersion envelope.version taskRpcVersion)
  envelope.message.validate T

def LeaseToken.json (lease : LeaseToken) : String :=
  jsonObject [("task_id", jsonString lease.taskId.text),
    ("generation", toString lease.generation), ("lease_owner", jsonString lease.leaseOwner)]

def WireTaskTrigger.json : WireTaskTrigger → String
  | .http method path => jsonObject [("type", jsonString "http"), ("method", jsonString method),
      ("path", jsonString path)]
  | .cron name expression => jsonObject [("type", jsonString "cron"), ("name", jsonString name),
      ("expression", jsonString expression)]
  | .queue name handler messageId => jsonObject [("type", jsonString "queue"),
      ("name", jsonString name), ("handler", jsonString handler),
      ("message_id", jsonOption jsonString messageId)]
  | .mcp tool => jsonObject [("type", jsonString "mcp"), ("tool", jsonString tool)]
  | .agent name => jsonObject [("type", jsonString "agent"), ("name", jsonString name)]

def TaskDescriptor.json (T : Texts J) (descriptor : TaskDescriptor J) : String :=
  jsonObject [("trigger", descriptor.trigger.json), ("input", T.toVec descriptor.input),
    ("attempt", toString descriptor.attempt.toNat),
    ("deadline_ms", jsonOption (fun ms => toString ms.toNat) descriptor.deadlineMs)]

def TaskLease.json (T : Texts J) (lease : TaskLease J) : String :=
  jsonObject [("token", lease.token.json), ("task", lease.task.json T),
    ("lease_until_ms", toString lease.leaseUntilMs)]

def TaskOutcome.json : TaskOutcome J → String
  | .completed result => jsonObject [("status", jsonString "completed"), ("result", T.toVec result)]
  | .suspended => jsonObject [("status", jsonString "suspended")]
  | .failed error retryable => jsonObject [("status", jsonString "failed"),
      ("error", jsonString error), ("retryable", jsonBool retryable)]
  | .canceled => jsonObject [("status", jsonString "canceled")]
  | .timedOut => jsonObject [("status", jsonString "timed_out")]

def ErrorCode.json : ErrorCode → String
  | .invalidRequest => jsonString "invalid_request"
  | .versionMismatch => jsonString "version_mismatch"
  | .leaseLost => jsonString "lease_lost"
  | .taskNotFound => jsonString "task_not_found"
  | .internal => jsonString "internal"

/-- A message object with its tag and, but for the handshake, its request id. -/
def taggedJson (tag : String) (requestId : UInt64) (fields : List (String × String)) : String :=
  jsonObject (("type", jsonString tag) :: ("request_id", toString requestId.toNat) :: fields)

def Message.json (T : Texts J) : Message J → String
  | .hello workerId => jsonObject [("type", jsonString "hello"), ("worker_id", jsonString workerId)]
  | .ready => jsonObject [("type", jsonString "ready")]
  | .claim requestId workerId leaseMs limit => taggedJson "claim" requestId
      [("worker_id", jsonString workerId), ("lease_ms", toString leaseMs),
        ("limit", toString limit.toNat)]
  | .claimed requestId leases => taggedJson "claimed" requestId
      [("leases", jsonArray (leases.map fun lease => lease.json T))]
  | .renew requestId lease leaseMs => taggedJson "renew" requestId
      [("lease", lease.json), ("lease_ms", toString leaseMs)]
  | .renewed requestId lease => taggedJson "renewed" requestId
      [("lease", jsonOption (fun lease => lease.json T) lease)]
  | .release requestId lease => taggedJson "release" requestId [("lease", lease.json)]
  | .released requestId done => taggedJson "released" requestId [("released", jsonBool done)]
  | .cancel requestId taskId => taggedJson "cancel" requestId
      [("task_id", jsonString taskId.text)]
  | .canceled requestId done => taggedJson "canceled" requestId [("canceled", jsonBool done)]
  | .commit requestId lease outcome => taggedJson "commit" requestId
      [("lease", lease.json), ("outcome", outcome.json T)]
  | .committed requestId accepted => taggedJson "committed" requestId
      [("accepted", jsonBool accepted)]
  | .error requestId code message => jsonObject [("type", jsonString "error"),
      ("request_id", jsonOption (fun id => toString id.toNat) requestId), ("code", code.json),
      ("message", jsonString message)]

def Envelope.json (T : Texts J) (envelope : Envelope J) : String :=
  jsonObject [("version", toString envelope.version.toNat), ("message", envelope.message.json T)]

/-- Validate and encode one message payload without its frame header. -/
def encodeMessage (envelope : Envelope J) : Except TaskRpcError String := do
  envelope.validate T
  reject (maxTaskRpcFrame < (envelope.json T).utf8ByteSize)
    (.frameTooLarge (envelope.json T).utf8ByteSize)
  return envelope.json T

end Tysel.Tasks
