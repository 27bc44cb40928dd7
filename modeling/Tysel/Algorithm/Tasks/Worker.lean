import Tysel.Algorithm.Tasks.Connections

/-! `TaskModuleWorker` and the worker loop of `ModuleTaskService`. A pass of the loop claims one
task, runs its handler and commits the outcome; other calls on the broker happen in between. -/

namespace Tysel.Tasks

open Tysel.Durable (checkedAdd)
open Tysel.Text

variable {J : Type}

/-- What the call of a handler on the blocking pool returns: a value, an interrupt, a
suspension, another error of the engine, or a failed join. -/
inductive Invocation (J : Type) where
  | value (result : J)
  | timeout
  | cancelled
  | suspended
  | error (text : String)
  | panic (text : String)

def failedOutcome (error : String) (retryable : Bool) : TaskOutcome J :=
  .failed
    (if maxErrorBytes < error.utf8ByteSize then
      String.ofList (takeBytes maxErrorBytes error.toList)
    else error)
    retryable

def executeModuleLease (T : Texts J) (lease : TaskLease J) (invocation : Invocation J) :
    TaskOutcome J :=
  match lease.task.trigger.handlerName with
  | none => failedOutcome "HTTP tasks cannot run in a module task worker" false
  | some _ =>
    match invocation with
    | .value result =>
      if (T.toVec result).utf8ByteSize ≤ maxResultBytes then .completed result
      else
        failedOutcome
          ("task result is " ++ toString (T.toVec result).utf8ByteSize ++
            " bytes; maximum is 32768") false
    | .timeout => .timedOut
    | .cancelled => .canceled
    | .suspended => .suspended
    | .error text => failedOutcome text false
    | .panic text => failedOutcome text true

inductive TaskRpcWorkerError where
  | protocol (error : TaskRpcError)
  | rejected (code : ErrorCode) (message : String)
  | unexpectedResponse (requestId : UInt64) (message : String)
  | requestIdExhausted
  deriving DecidableEq

inductive TaskModuleWorkerError where
  | rpc (error : TaskRpcWorkerError)
  | leaseLost
  deriving DecidableEq

def ErrorCode.debug : ErrorCode → String
  | .invalidRequest => "InvalidRequest"
  | .versionMismatch => "VersionMismatch"
  | .leaseLost => "LeaseLost"
  | .taskNotFound => "TaskNotFound"
  | .internal => "Internal"

def TaskRpcWorkerError.text (T : Texts J) : TaskRpcWorkerError → String
  | .protocol error => error.text T
  | .rejected code message =>
    "TaskRPC server rejected the request (" ++ code.debug ++ "): " ++ message
  | .unexpectedResponse requestId message =>
    "TaskRPC response did not match request " ++ toString requestId.toNat ++ ": " ++ message
  | .requestIdExhausted => "TaskRPC request id space is exhausted"

def TaskModuleWorkerError.text (T : Texts J) : TaskModuleWorkerError → String
  | .rpc error => error.text T
  | .leaseLost => "task lease was lost before its outcome could be committed"

structure TaskRpcWorker where
  workerId : String
  nextRequestId : UInt64
  deriving DecidableEq

namespace TaskRpcWorker

variable (T : Texts J)

def requestId (worker : TaskRpcWorker) : Except TaskRpcWorkerError (UInt64 × TaskRpcWorker) :=
  match checkedAdd worker.nextRequestId.toNat 1 with
  | none => .error .requestIdExhausted
  | some next =>
    .ok (worker.nextRequestId, { worker with nextRequestId := UInt64.ofNat next })

/-- Send a request over a working socket. A response that cannot be encoded closes the
connection. -/
def request (worker : TaskRpcWorker) (b : TaskRpcBroker J) (nowMs : ℕ) (message : Message J) :
    Except TaskRpcWorkerError (Message J) × TaskRpcBroker J :=
  match encodeMessage T (.new message) with
  | .error e => (.error (.protocol e), b)
  | .ok _ =>
    match (TaskRpcSession.mk (some worker.workerId)).handle T b nowMs (.new message) with
    | (response, _, b) =>
      match encodeMessage T response with
      | .error _ =>
        (.error (.protocol (.io "TaskRPC server closed before responding")), b)
      | .ok _ =>
        match response.message with
        | .error _ code text => (.error (.rejected code text), b)
        | message => (.ok message, b)

def claim (worker : TaskRpcWorker) (b : TaskRpcBroker J) (nowMs leaseMs : ℕ) (limit : UInt16) :
    Except TaskRpcWorkerError (List (TaskLease J)) × TaskRpcWorker × TaskRpcBroker J :=
  match worker.requestId with
  | .error e => (.error e, worker, b)
  | .ok (requestId, worker) =>
    match worker.request T b nowMs (.claim requestId worker.workerId leaseMs limit) with
    | (.error e, b) => (.error e, worker, b)
    | (.ok (.claimed responseId leases), b) =>
      if responseId = requestId then (.ok leases, worker, b)
      else
        (.error (.unexpectedResponse requestId "expected matching claimed response"), worker, b)
    | (.ok _, b) =>
      (.error (.unexpectedResponse requestId "expected matching claimed response"), worker, b)

def commit (worker : TaskRpcWorker) (b : TaskRpcBroker J) (nowMs : ℕ) (lease : LeaseToken)
    (outcome : TaskOutcome J) :
    Except TaskRpcWorkerError Bool × TaskRpcWorker × TaskRpcBroker J :=
  match worker.requestId with
  | .error e => (.error e, worker, b)
  | .ok (requestId, worker) =>
    match worker.request T b nowMs (.commit requestId lease outcome) with
    | (.error e, b) => (.error e, worker, b)
    | (.ok (.committed responseId accepted), b) =>
      if responseId = requestId then (.ok accepted, worker, b)
      else
        (.error (.unexpectedResponse requestId "expected matching committed response"), worker, b)
    | (.ok _, b) =>
      (.error (.unexpectedResponse requestId "expected matching committed response"), worker, b)

end TaskRpcWorker

/-- Where `run_worker` stands: between two passes, in a handler, or returned. -/
inductive WorkerState (J : Type) where
  | idle
  | executing (lease : TaskLease J)
  | stopped
  deriving DecidableEq

/-- The broker, the worker and the failure channel of a task service. -/
structure ModuleTaskService (J : Type) where
  broker : TaskRpcBroker J
  rpc : TaskRpcWorker
  leaseMs : ℕ
  state : WorkerState J
  failure : Option String

inductive ServiceOp (J : Type) where
  | claim (nowMs : ℕ)
  | finish (nowMs : ℕ) (invocation : Invocation J)
  | broker (op : BrokerOp J)

namespace ModuleTaskService

variable (T : Texts J)

def new (b : TaskRpcBroker J) (workerId : String) (leaseMs : ℕ) : ModuleTaskService J :=
  ⟨b, ⟨workerId, 1⟩, leaseMs, .idle, none⟩

/-- `run_worker` returns the error of `run_once`: the failure is announced and the service
shuts down. -/
def fail (service : ModuleTaskService J) (error : TaskModuleWorkerError) : ModuleTaskService J :=
  { service with state := .stopped, failure := some (error.text T) }

def claim (service : ModuleTaskService J) (nowMs : ℕ) :
    Option (Except TaskModuleWorkerError Bool) × ModuleTaskService J :=
  match service.rpc.claim T service.broker nowMs service.leaseMs 1 with
  | (.error e, rpc, b) =>
    (some (.error (.rpc e)), fail T { service with broker := b, rpc := rpc } (.rpc e))
  | (.ok leases, rpc, b) =>
    match leases.getLast? with
    | none => (some (.ok false), { service with broker := b, rpc := rpc })
    | some lease =>
      (none, { service with broker := b, rpc := rpc, state := .executing lease })

def finish (service : ModuleTaskService J) (lease : TaskLease J) (nowMs : ℕ)
    (invocation : Invocation J) :
    Option (Except TaskModuleWorkerError Bool) × ModuleTaskService J :=
  match service.rpc.commit T service.broker nowMs lease.token
      (executeModuleLease T lease invocation) with
  | (.error e, rpc, b) =>
    (some (.error (.rpc e)), fail T { service with broker := b, rpc := rpc } (.rpc e))
  | (.ok false, rpc, b) =>
    (some (.error .leaseLost), fail T { service with broker := b, rpc := rpc } .leaseLost)
  | (.ok true, rpc, b) =>
    (some (.ok true), { service with broker := b, rpc := rpc, state := .idle })

/-- A step of the worker, or a call of anyone else on the broker. -/
def perform (service : ModuleTaskService J) :
    ServiceOp J → Option (Except TaskModuleWorkerError Bool) × ModuleTaskService J
  | .claim nowMs =>
    match service.state with
    | .idle => service.claim T nowMs
    | _ => (none, service)
  | .finish nowMs invocation =>
    match service.state with
    | .executing lease => service.finish T lease nowMs invocation
    | _ => (none, service)
  | .broker op => (none, { service with broker := (service.broker.perform T op).2 })

end ModuleTaskService

end Tysel.Tasks
