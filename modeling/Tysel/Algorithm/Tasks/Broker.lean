import Tysel.Algorithm.Tasks.Rpc

/-! `TaskRpcBroker` of the runtime: the scheduler behind the messages, and the outcomes of the
finished tasks. -/

namespace Tysel.Tasks

open TaskDescriptor

open Tysel.Durable (TaskId)

variable {J : Type}

structure TaskRpcBroker (J : Type) where
  scheduler : Scheduler J
  outcomes : Table TaskId (TaskOutcome J)

inductive TaskRpcBrokerError where
  | scheduler (error : SchedulerError)
  | protocol (error : TaskRpcError)
  deriving DecidableEq

def requestId : Message J → Option UInt64
  | .hello _ | .ready => none
  | .claim id _ _ _ | .claimed id _ | .renew id _ _ | .renewed id _ | .release id _
  | .released id _ | .cancel id _ | .canceled id _ | .commit id _ _ | .committed id _ => some id
  | .error id _ _ => id

def errorMessage (requestId : Option UInt64) (code : ErrorCode) (message : String) : Message J :=
  .error requestId code message

def errorResponse (requestId : Option UInt64) (code : ErrorCode) (message : String) : Envelope J :=
  .new (errorMessage requestId code message)

def SchedulerError.code : SchedulerError → ErrorCode
  | .unknown _ => .taskNotFound
  | .leaseLost => .leaseLost
  | .invalidLeaseOwner | .invalidLeaseDuration | .invalidClaimOutcome _ => .invalidRequest
  | _ => .internal

def schedulerError (requestId : Option UInt64) (error : SchedulerError) : Message J :=
  errorMessage requestId error.code error.text

def wireLease (T : Texts J) (claim : TaskClaim J) : Except TaskRpcError (TaskLease J) := do
  let task ← fromTask T claim.task
  return ⟨⟨.new claim.task.info.id, claim.generation, claim.leaseOwner⟩, task, claim.leaseUntilMs⟩

/-- The lease with the largest generation and deadline. -/
def previewWireLease (T : Texts J) (task : Task J) (leaseOwner : String) :
    Except TaskRpcError (TaskLease J) := do
  let descriptor ← fromTask T task
  return ⟨⟨.new task.info.id, 2 ^ 64 - 1, leaseOwner⟩, descriptor, 2 ^ 64 - 1⟩

namespace TaskRpcBroker

variable (T : Texts J) (b : TaskRpcBroker J)

def new (capacity : ℕ) : Except SchedulerError (TaskRpcBroker J) := do
  let scheduler ← Scheduler.new capacity
  return ⟨scheduler, ∅⟩

/-- `"w".repeat(MAX_WORKER_ID_BYTES)`. -/
def longestWorkerId : String := String.ofList (List.replicate maxWorkerIdBytes 'w')

/-- The checks of `enqueue`: the task can be claimed and delivered on the wire. -/
def deliverable (task : Task J) : Except TaskRpcBrokerError Unit := do
  let shape ← (task.transition .queued).mapError fun e => .scheduler (.invalidTransition e)
  let shape ← shape.beginAttempt.mapError fun e => .scheduler (.invalidTransition e)
  let _ ← (fromTask T shape).mapError TaskRpcBrokerError.protocol
  let worst ← (previewWireLease T shape longestWorkerId).mapError TaskRpcBrokerError.protocol
  let _ ← (encodeMessage T (.new (.claimed (UInt64.ofNat (2 ^ 64 - 1)) [worst]))).mapError
    TaskRpcBrokerError.protocol
  return ()

def enqueue (b : TaskRpcBroker J) (task : Task J) :
    Except TaskRpcBrokerError Unit × TaskRpcBroker J :=
  match deliverable T task with
  | .error e => (.error e, b)
  | .ok _ =>
    ((b.scheduler.enqueue task).1.mapError .scheduler,
      { b with scheduler := (b.scheduler.enqueue task).2 })

def requeueExpired (b : TaskRpcBroker J) (nowMs limit : ℕ) :
    Except SchedulerError (List TaskId) × TaskRpcBroker J :=
  ((b.scheduler.requeueExpired nowMs limit).1,
    { b with scheduler := (b.scheduler.requeueExpired nowMs limit).2 })

def disconnectWorker (workerId : String) (nowMs : ℕ) :
    Except SchedulerError (List TaskId) × TaskRpcBroker J :=
  ((b.scheduler.requeueOwnerClaims workerId nowMs (2 ^ 64 - 1)).1,
    { b with scheduler := (b.scheduler.requeueOwnerClaims workerId nowMs (2 ^ 64 - 1)).2 })

/-- The response that ends the loop of `claim` before the next task is claimed: the task
cannot be delivered, or the frame is full. -/
def refusal (requestId : UInt64) (workerId : String) (leases : List (TaskLease J))
    (task : Task J) : Option (Message J) :=
  match task.beginAttempt with
  | .error _ =>
    some (errorMessage (some requestId) .internal "queued task cannot begin an attempt")
  | .ok task =>
    match previewWireLease T task workerId with
    | .error e => some (errorMessage (some requestId) .internal (e.text T))
    | .ok preview =>
      match encodeMessage T (.new (.claimed requestId (leases ++ [preview]))) with
      | .ok _ => none
      | .error (.frameTooLarge length) =>
        if leases = [] then
          some (errorMessage (some requestId) .internal
            ((TaskRpcError.frameTooLarge length).text T))
        else some (.claimed requestId leases)
      | .error e => some (errorMessage (some requestId) .internal (e.text T))

/-- The loop of `claim`, with the turns still to take. -/
def claimLoop (requestId : UInt64) (workerId : String) (leaseMs nowMs : ℕ) :
    ℕ → List (TaskLease J) → Scheduler J → Message J × Scheduler J
  | 0, leases, s => (.claimed requestId leases, s)
  | turns + 1, leases, s =>
    match s.peekRunnable nowMs with
    | (.error e, s) => (schedulerError (some requestId) e, s)
    | (.ok none, s) => (.claimed requestId leases, s)
    | (.ok (some task), s) =>
      match refusal T requestId workerId leases task with
      | some response => (response, s)
      | none =>
        match s.claimWithLease nowMs workerId leaseMs with
        | (.ok (some claim), s) =>
          match wireLease T claim with
          | .ok lease =>
            claimLoop requestId workerId leaseMs nowMs turns (leases ++ [lease]) s
          | .error e =>
            (errorMessage (some requestId) .internal (e.text T), (s.releaseClaim claim nowMs).2)
        | (.ok none, s) => (.claimed requestId leases, s)
        | (.error e, s) =>
          if leases = [] then (schedulerError (some requestId) e, s)
          else (.claimed requestId leases, s)

def claim (requestId : UInt64) (workerId : String) (leaseMs : ℕ) (limit : UInt16) (nowMs : ℕ) :
    Message J × TaskRpcBroker J :=
  match b.scheduler.requeueExpired nowMs limit.toNat with
  | (.error e, s) => (schedulerError (some requestId) e, { b with scheduler := s })
  | (.ok _, s) =>
    ((claimLoop T requestId workerId leaseMs nowMs limit.toNat [] s).1,
      { b with scheduler := (claimLoop T requestId workerId leaseMs nowMs limit.toNat [] s).2 })

/-- The claim that a token names; its own lease time is not looked at. -/
def claimFromToken (lease : LeaseToken) : Option (TaskClaim J) :=
  match lease.taskId.parse with
  | .error _ => none
  | .ok id =>
    (b.scheduler.tasks.get? id).map fun task => ⟨task, lease.generation, lease.leaseOwner, 0⟩

def renew (requestId : UInt64) (lease : LeaseToken) (leaseMs nowMs : ℕ) :
    Message J × TaskRpcBroker J :=
  match b.claimFromToken lease with
  | none => (.renewed requestId none, b)
  | some claim =>
    match b.scheduler.renewClaim claim nowMs leaseMs with
    | (.ok claim, s) =>
      match wireLease T claim with
      | .ok lease => (.renewed requestId (some lease), { b with scheduler := s })
      | .error e =>
        (errorMessage (some requestId) .internal (e.text T), { b with scheduler := s })
    | (.error .leaseLost, s) | (.error (.unknown _), s) =>
      (.renewed requestId none, { b with scheduler := s })
    | (.error e, s) => (schedulerError (some requestId) e, { b with scheduler := s })

def release (requestId : UInt64) (lease : LeaseToken) (nowMs : ℕ) : Message J × TaskRpcBroker J :=
  match b.claimFromToken lease with
  | none => (.released requestId false, b)
  | some claim =>
    match b.scheduler.releaseClaim claim nowMs with
    | (.ok _, s) => (.released requestId true, { b with scheduler := s })
    | (.error .leaseLost, s) | (.error (.unknown _), s) | (.error (.full _), s) =>
      (.released requestId false, { b with scheduler := s })
    | (.error e, s) => (schedulerError (some requestId) e, { b with scheduler := s })

def cancel (b : TaskRpcBroker J) (requestId : UInt64) (taskId : WireTaskId) :
    Message J × TaskRpcBroker J :=
  match taskId.parse with
  | .error _ => (.canceled requestId false, b)
  | .ok id =>
    match b.scheduler.cancel id with
    | (.ok task, s) =>
      if task.state = .canceled then
        (.canceled requestId true, ⟨s, b.outcomes.insert id .canceled⟩)
      else (.canceled requestId false, { b with scheduler := s })
    | (.error (.unknown _), s) => (.canceled requestId false, { b with scheduler := s })
    | (.error e, s) => (schedulerError (some requestId) e, { b with scheduler := s })

def settle (s : Scheduler J) (claim : TaskClaim J) (outcome : TaskOutcome J) (nowMs : ℕ) :
    Except SchedulerError (Task J) × Scheduler J :=
  match outcome with
  | .completed _ => s.finishClaim claim nowMs .completed
  | .suspended => s.finishClaim claim nowMs .suspended
  | .failed _ true => s.releaseClaim claim nowMs
  | .failed _ false => s.finishClaim claim nowMs .failed
  | .canceled => s.finishClaim claim nowMs .canceled
  | .timedOut => s.finishClaim claim nowMs .timedOut

def storedOutcome (state : TaskState) (outcome : TaskOutcome J) : TaskOutcome J :=
  match state with
  | .timedOut => .timedOut
  | .canceled => .canceled
  | _ => outcome

def commit (requestId : UInt64) (lease : LeaseToken) (outcome : TaskOutcome J) (nowMs : ℕ) :
    Message J × TaskRpcBroker J :=
  match b.claimFromToken lease with
  | none => (.committed requestId false, b)
  | some claim =>
    match settle b.scheduler claim outcome nowMs with
    | (.ok task, s) =>
      (.committed requestId true, ⟨s, if task.state.isTerminal then
            b.outcomes.insert claim.task.info.id (storedOutcome task.state outcome)
          else b.outcomes⟩)
    | (.error .leaseLost, s) | (.error (.unknown _), s) | (.error (.full _), s) =>
      (.committed requestId false, { b with scheduler := s })
    | (.error e, s) => (schedulerError (some requestId) e, { b with scheduler := s })

def respond (nowMs : ℕ) : Message J → Message J × TaskRpcBroker J
  | .hello _ => (.ready, b)
  | .claim requestId workerId leaseMs limit =>
    b.claim T requestId workerId leaseMs limit nowMs
  | .renew requestId lease leaseMs => b.renew T requestId lease leaseMs nowMs
  | .release requestId lease => b.release requestId lease nowMs
  | .cancel requestId taskId => b.cancel requestId taskId
  | .commit requestId lease outcome => b.commit requestId lease outcome nowMs
  | message =>
    (errorMessage (requestId message) .invalidRequest "TaskRPC response sent to scheduler", b)

def handle (nowMs : ℕ) (envelope : Envelope J) : Envelope J × TaskRpcBroker J :=
  match envelope.validate T with
  | .error e =>
    (errorResponse (requestId envelope.message)
      (if e matches .unsupportedVersion _ _ then .versionMismatch else .invalidRequest)
      (e.text T), b)
  | .ok _ =>
    (.new (b.respond T nowMs envelope.message).1, (b.respond T nowMs envelope.message).2)

end TaskRpcBroker

inductive BrokerOp (J : Type) where
  | enqueue (task : Task J)
  | handle (nowMs : ℕ) (envelope : Envelope J)
  | requeueExpired (nowMs limit : ℕ)
  | disconnectWorker (workerId : String) (nowMs : ℕ)

inductive BrokerReply (J : Type) where
  | enqueued (result : Except TaskRpcBrokerError Unit)
  | response (envelope : Envelope J)
  | requeued (result : Except SchedulerError (List TaskId))

def TaskRpcBroker.perform (T : Texts J) (b : TaskRpcBroker J) :
    BrokerOp J → BrokerReply J × TaskRpcBroker J
  | .enqueue task => (.enqueued (b.enqueue T task).1, (b.enqueue T task).2)
  | .handle nowMs envelope =>
    (.response (b.handle T nowMs envelope).1, (b.handle T nowMs envelope).2)
  | .requeueExpired nowMs limit =>
    (.requeued (b.requeueExpired nowMs limit).1, (b.requeueExpired nowMs limit).2)
  | .disconnectWorker workerId nowMs =>
    (.requeued (b.disconnectWorker workerId nowMs).1, (b.disconnectWorker workerId nowMs).2)

end Tysel.Tasks
