import Tysel.Algorithm.Tasks.Broker

/-! `TaskRpcSession` and the Unix server of the runtime. Every connection has its own identity; the
connections share one broker and the set of the connected worker ids, each behind its own lock.
A step of the server is one region under a lock. -/

namespace Tysel.Tasks

open Tysel.Durable (TaskId)

variable {J : Type}

structure TaskRpcSession where
  workerId : Option String
  deriving DecidableEq

def workerRequestMatches (workerId : String) : Message J → Bool
  | .claim _ requested _ _ => requested = workerId
  | .renew _ lease _ | .release _ lease | .commit _ lease _ => lease.leaseOwner = workerId
  | _ => false

namespace TaskRpcSession

variable (T : Texts J)

def new : TaskRpcSession := ⟨none⟩

def handle (session : TaskRpcSession) (b : TaskRpcBroker J) (nowMs : ℕ) (envelope : Envelope J) :
    Envelope J × TaskRpcSession × TaskRpcBroker J :=
  match session.workerId with
  | some owner =>
    if workerRequestMatches owner envelope.message then
      ((b.handle T nowMs envelope).1, session, (b.handle T nowMs envelope).2)
    else
      (errorResponse (requestId envelope.message) .invalidRequest
        "TaskRPC message does not belong to this worker connection", session, b)
  | none =>
    match envelope.message with
    | .hello workerId =>
      ((b.handle T nowMs envelope).1,
        if envelope.validate T = .ok () then ⟨some workerId⟩ else session,
        (b.handle T nowMs envelope).2)
    | message =>
      (errorResponse (requestId message) .invalidRequest
        "TaskRPC hello must be the first message", session, b)

/-- Requeue the claims of the connection; its identity is given up. -/
def disconnect (session : TaskRpcSession) (b : TaskRpcBroker J) (nowMs : ℕ) :
    Except SchedulerError (List TaskId) × TaskRpcSession × TaskRpcBroker J :=
  match session.workerId with
  | none => (.ok [], session, b)
  | some workerId =>
    ((b.disconnectWorker workerId nowMs).1, ⟨none⟩, (b.disconnectWorker workerId nowMs).2)

def registering (session : TaskRpcSession) (message : Message J) : Option String :=
  match message, session.workerId with
  | .hello workerId, none => some workerId
  | _, _ => none

end TaskRpcSession

/-- Where the loop of a connection stands: before the next frame, between the two locks of a
request, after its end, or after the disconnect with the worker id still to remove. -/
inductive Phase (J : Type) where
  | reading
  | dispatching (request : Envelope J)
  | closing
  | leaving (workerId : Option String)
  deriving DecidableEq

structure Connection (J : Type) where
  session : TaskRpcSession
  phase : Phase J
  deriving DecidableEq

structure TaskRpcServer (J : Type) where
  broker : TaskRpcBroker J
  activeWorkers : Finset String
  connections : Table ℕ (Connection J)

/-- The steps of the server. `close` is the end of the loop for any reason: end of file, an
invalid frame, a failed write or the shutdown. `broker` is a call of the process itself on the
shared broker. -/
inductive ServerOp (J : Type) where
  | accept (id : ℕ)
  | receive (id : ℕ) (envelope : Envelope J)
  | dispatch (id nowMs : ℕ)
  | close (id : ℕ)
  | disconnect (id nowMs : ℕ)
  | remove (id : ℕ)
  | broker (op : BrokerOp J)

namespace TaskRpcServer

variable (T : Texts J) (server : TaskRpcServer J)

def new (b : TaskRpcBroker J) : TaskRpcServer J := ⟨b, ∅, ∅⟩

def put (id : ℕ) (session : TaskRpcSession) (phase : Phase J) : TaskRpcServer J :=
  { server with connections := server.connections.insert id ⟨session, phase⟩ }

/-- A frame has been read. A message that does not decode ends the connection; a first hello
takes its worker id. -/
def receive (id : ℕ) (session : TaskRpcSession) (envelope : Envelope J) :
    Option (Envelope J) × TaskRpcServer J :=
  match envelope.validate T with
  | .error _ => (none, server.put id session .closing)
  | .ok _ =>
    match session.registering envelope.message with
    | none => (none, server.put id session (.dispatching envelope))
    | some workerId =>
      if workerId ∈ server.activeWorkers then
        (some (errorResponse none .invalidRequest "TaskRPC worker id is already connected"), server)
      else
        (none, { server.put id session (.dispatching envelope) with
          activeWorkers := insert workerId server.activeWorkers })

def dispatch (id : ℕ) (session : TaskRpcSession) (envelope : Envelope J) (nowMs : ℕ) :
    Option (Envelope J) × TaskRpcServer J :=
  (some (session.handle T server.broker nowMs envelope).1,
    { server.put id (session.handle T server.broker nowMs envelope).2.1 .reading with
      broker := (session.handle T server.broker nowMs envelope).2.2 })

def disconnect (server : TaskRpcServer J) (id : ℕ) (session : TaskRpcSession) (nowMs : ℕ) :
    TaskRpcServer J :=
  { server.put id (session.disconnect server.broker nowMs).2.1 (.leaving session.workerId) with
    broker := (session.disconnect server.broker nowMs).2.2 }

def remove (id : ℕ) (workerId : Option String) : TaskRpcServer J :=
  { server with
    activeWorkers := match workerId with
      | some workerId => server.activeWorkers.erase workerId
      | none => server.activeWorkers
    connections := server.connections.erase id }

/-- A step of the server and the response it writes. A step that the connection is not ready
for does nothing. -/
def perform (server : TaskRpcServer J) : ServerOp J → Option (Envelope J) × TaskRpcServer J
  | .accept id =>
    match server.connections.get? id with
    | none => (none, server.put id .new .reading)
    | some _ => (none, server)
  | .receive id envelope =>
    match server.connections.get? id with
    | some ⟨session, .reading⟩ => server.receive T id session envelope
    | _ => (none, server)
  | .dispatch id nowMs =>
    match server.connections.get? id with
    | some ⟨session, .dispatching envelope⟩ => server.dispatch T id session envelope nowMs
    | _ => (none, server)
  | .close id =>
    match server.connections.get? id with
    | some ⟨session, .reading⟩ => (none, server.put id session .closing)
    | _ => (none, server)
  | .disconnect id nowMs =>
    match server.connections.get? id with
    | some ⟨session, .closing⟩ => (none, server.disconnect id session nowMs)
    | _ => (none, server)
  | .remove id =>
    match server.connections.get? id with
    | some ⟨_, .leaving workerId⟩ => (none, server.remove id workerId)
    | _ => (none, server)
  | .broker op => (none, { server with broker := (server.broker.perform T op).2 })

end TaskRpcServer

end Tysel.Tasks
