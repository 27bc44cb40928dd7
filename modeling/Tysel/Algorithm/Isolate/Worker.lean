import Tysel.Algorithm.Isolate.Slots
import Tysel.Shared.Run

/-! A worker thread serves one request after the other on one isolate, and the reactor's tasks run
the operations that the requests submit. A step is one region under a lock, or one access to an
atomic, of one of the two sides. The steps of a run are interleaved arbitrarily: the two
channels between the sides hand over their messages in any order, every operation may fail at
any point, and it may notice its cancellation late. Counters do not wrap. -/

namespace Tysel.Isolate

/-- The operations that use a slot. `other` stands for the rest, which complete with no effect
on a slot: timers, databases, files, writes of the response and commands to the client socket,
which go through a clone of its channel. -/
inductive IoRequest where
  | readBody
  | wsRead
  | httpGet
  | httpRead (bodyId : ℕ)
  | wsClose
  | wsConnect
  | other
  deriving DecidableEq

/-- The two slots that `StreamSlot::read` is used on. -/
inductive Source where
  | inbound
  | wsIn
  deriving DecidableEq

/-- Where the task of an operation stands between two of its steps. -/
inductive Point where
  | started
  | holding (source : Source) (rx : Channel) (generation : ℕ)
  | reading (bodyId : ℕ) (rx : Channel) (generation : ℕ)
  | installing
  | installed (bodyId : ℕ)
  | clearing (bodyId : ℕ)
  | opening (generation : ℕ)
  | connecting (generation : ℕ)
  | awaiting (generation : ℕ)
  | refused (generation : ℕ)
  | connected (generation : ℕ)
  | finished
  deriving DecidableEq

/-- An operation is in the reactor's channel, runs as a task, or has its completion in the
worker's channel. A task whose operation was registered when it started shares its flag. -/
inductive Stage where
  | queued
  | running (shared : Bool) (point : Point)
  | completed
  deriving DecidableEq

/-- A submitted operation with the number of the request that was bound. -/
structure Operation where
  request : IoRequest
  owner : ℕ
  stage : Stage

structure OperationControl where
  requestId : ℕ
  cancel : Bool := false

structure IoHandle where
  nextId : OpId := 1
  requestId : ℕ := 0
  operationCancels : Table OpId OperationControl := ∅
  inbound : StreamSlot := {}
  outbound : StreamRegistry := {}
  wsIn : StreamSlot := {}
  wsOut : Option Channel := none
  clientWs : ClientWebSocketSlot := {}

namespace IoHandle

def cancel (io : IoHandle) (id : OpId) : IoHandle :=
  { io with
    operationCancels := io.operationCancels.modify id fun control =>
      { control with cancel := true } }

variable (io : IoHandle)

def ofRequest (requestId : ℕ) : List OpId :=
  (io.operationCancels.select fun _ control => control.requestId = requestId).map Prod.fst

def cancelRequest (requestId : ℕ) : IoHandle := (io.ofRequest requestId).foldl cancel io

def finish (id : OpId) : IoHandle := { io with operationCancels := io.operationCancels.erase id }

def source : Source → StreamSlot
  | .inbound => io.inbound
  | .wsIn => io.wsIn

def setSource (slot : StreamSlot) : Source → IoHandle
  | .inbound => { io with inbound := slot }
  | .wsIn => { io with wsIn := slot }

def flagged (id : OpId) (shared : Bool) : Bool :=
  shared && (io.operationCancels.get? id).any OperationControl.cancel

/-- Take the receiver of a slot, if there is one. -/
def beginRead (source : Source) : IoHandle × Point :=
  match (io.source source).inner with
  | none => (io, .finished)
  | some rx =>
    (io.setSource (io.source source).take source, .holding source rx (io.source source).generation)

def start (flag : Bool) : IoRequest → IoHandle × Point
  | .readBody => io.beginRead .inbound
  | .wsRead => io.beginRead .wsIn
  | .httpGet => (io, if flag then .finished else .installing)
  | .httpRead bodyId =>
    match io.outbound.streams.get? bodyId with
    | none => (io, .finished)
    | some rx =>
      ({ io with outbound := io.outbound.beginRead bodyId },
        .reading bodyId rx io.outbound.generation)
  | .wsClose => ({ io with wsOut := none }, .finished)
  | .wsConnect => (io, .opening io.clientWs.generation)
  | .other => (io, .finished)

/-- The next step of a task. With `go` false it fails, is interrupted or finds the end of its
input where it may. -/
def advance (owner : Channel) (flag go : Bool) (request : IoRequest) : Point → IoHandle × Point
  | .started => if go then io.start flag request else (io, .finished)
  | .holding source rx generation =>
    (if go then io.setSource ((io.source source).putBack rx generation) source else io, .finished)
  | .reading bodyId rx generation =>
    ({ io with outbound := io.outbound.endRead bodyId rx generation go }, .finished)
  | .installing =>
    ({ io with outbound := io.outbound.install owner }, .installed io.outbound.nextId)
  | .installed bodyId => (io, if flag then .clearing bodyId else .finished)
  | .clearing bodyId => ({ io with outbound := io.outbound.clear bodyId }, .finished)
  | .opening generation =>
    if !go || io.clientWs.busy then (io, .finished)
    else ({ io with clientWs := { io.clientWs with connecting := true } }, .connecting generation)
  -- the first poll of the select reads the flag; later ones may miss it
  | .connecting generation =>
    (io, if flag || !go then .refused generation else .awaiting generation)
  | .awaiting generation => (io, if go then .connected generation else .refused generation)
  | .refused generation => ({ io with clientWs := io.clientWs.refuse generation }, .finished)
  | .connected generation =>
    ({ io with clientWs := io.clientWs.connect owner generation }, .finished)
  | .finished => (io, .finished)

end IoHandle

/-- The steps of `teardown_scope`, in their order. -/
inductive TeardownStep where
  | bind
  | cancel
  | discard
  | inbound
  | outbound
  | wsIn
  | wsOut
  | clientGeneration
  | clientState
  | resetTimers
  | drain
  deriving DecidableEq

def TeardownStep.rank : TeardownStep → ℕ
  | .bind => 0
  | .cancel => 1
  | .discard => 2
  | .inbound => 3
  | .outbound => 4
  | .wsIn => 5
  | .wsOut => 6
  | .clientGeneration => 7
  | .clientState => 8
  | .resetTimers => 9
  | .drain => 10

/-- What the worker does: run a request, tear it down with the operations that are still to
quiesce, wait for the next request, or nothing after a teardown that failed. -/
inductive Phase where
  | running (requestId : ℕ)
  | teardown (requestId : ℕ) (step : TeardownStep) (remaining : List OpId)
  | idle
  | stopped
  deriving DecidableEq

/-- A settled promise: the operation, the request that submitted it and the request that was
running. -/
structure Settlement where
  id : OpId
  owner : ℕ
  during : ℕ
  deriving DecidableEq

/-- `pending` holds the promises of the isolate. `number` counts the requests and `settled`
records the settled promises; the program has neither. -/
structure Worker where
  io : IoHandle := {}
  operations : Table OpId Operation := ∅
  pending : Table OpId ℕ := ∅
  phase : Phase
  number : ℕ := 0
  settled : List Settlement := []

/-- A worker that evaluates its module, before its first request. -/
def Worker.boot : Worker := { phase := .running 0 }

inductive Action where
  | begin (requestId : ℕ) (wsIn wsOut : Bool)
  | submit (request : IoRequest)
  | cancelOp (id : OpId)
  | cancelRequestBody
  | cancelBody (bodyId : ℕ)
  | receive (id : OpId)
  | rejectAll
  | finishJob
  | teardown
  | drain (id : OpId)
  | quiesced
  | timeout
  | pickUp (id : OpId)
  | advance (id : OpId) (go : Bool)
  | socketEnded

namespace Worker

variable (w : Worker)

/-- The start of `handle_job`. -/
def begin (requestId : ℕ) (wsIn wsOut : Bool) : Worker :=
  let number := w.number + 1
  { w with
    io := { w.io with
      requestId := requestId
      inbound := w.io.inbound.install number
      wsIn := if wsIn then w.io.wsIn.install number else w.io.wsIn
      wsOut := if wsOut then some number else w.io.wsOut }
    phase := .running requestId
    number := number }

/-- `submit_operation`: register the operation, hand it to the reactor and keep its promise. -/
def submit (request : IoRequest) : Worker :=
  let id := w.io.nextId
  { w with
    io := { w.io with
      nextId := id + 1
      operationCancels := w.io.operationCancels.insert id ⟨w.io.requestId, false⟩ }
    operations := w.operations.insert id ⟨request, w.number, .queued⟩
    pending := w.pending.insert id w.number }

def settle (id : OpId) : Worker :=
  match w.pending.get? id with
  | none => w
  | some owner =>
    { w with
      pending := w.pending.erase id
      settled := w.settled ++ [⟨id, owner, w.number⟩] }

/-- Take a completion out of the worker's channel. -/
def consume (id : OpId) : Worker :=
  { w with
    io := w.io.finish id
    operations := w.operations.erase id }

def rejectAll : Worker := (w.pending.entries.map Sigma.fst).foldl settle w

def discard (ids : List OpId) : Worker :=
  { w with pending := ids.foldl (fun pending id => pending.erase id) w.pending }

/-- One step of `teardown_scope` before its loop. -/
def teardownStep (requestId : ℕ) (remaining : List OpId) : TeardownStep → Worker
  | .bind =>
    { w with
      io := { w.io with requestId := 0 }
      phase := .teardown requestId .cancel remaining }
  | .cancel =>
    { w with
      io := w.io.cancelRequest requestId
      phase := .teardown requestId .discard (w.io.ofRequest requestId) }
  | .discard => { w.discard remaining with phase := .teardown requestId .inbound remaining }
  | .inbound =>
    { w with
      io := { w.io with inbound := w.io.inbound.clear }
      phase := .teardown requestId .outbound remaining }
  | .outbound =>
    { w with
      io := { w.io with outbound := w.io.outbound.clearAll }
      phase := .teardown requestId .wsIn remaining }
  | .wsIn =>
    { w with
      io := { w.io with wsIn := w.io.wsIn.clear }
      phase := .teardown requestId .wsOut remaining }
  | .wsOut =>
    { w with
      io := { w.io with wsOut := none }
      phase := .teardown requestId .clientGeneration remaining }
  | .clientGeneration =>
    { w with
      io := { w.io with clientWs := w.io.clientWs.nextGeneration }
      phase := .teardown requestId .clientState remaining }
  | .clientState =>
    { w with
      io := { w.io with clientWs := w.io.clientWs.reset }
      phase := .teardown requestId .resetTimers remaining }
  | .resetTimers => { w with phase := .teardown requestId .drain remaining }
  | .drain => w

def stage (w : Worker) (id : OpId) : Option Stage := (w.operations.get? id).map Operation.stage

def setStage (id : OpId) (stage : Stage) : Worker :=
  { w with
    operations := w.operations.modify id fun operation => { operation with stage := stage } }

/-- The reactor takes an operation out of its channel and spawns its task. -/
def pickUp (id : OpId) : Worker :=
  w.setStage id (.running (w.io.operationCancels.get? id).isSome .started)

/-- A task takes its next step; a finished one sends its completion. -/
def advance (w : Worker) (id : OpId) (go : Bool) : Worker :=
  match w.operations.get? id with
  | none => w
  | some operation =>
    match operation.stage with
    | .running _ .finished => w.setStage id .completed
    | .running shared point =>
      let next := w.io.advance operation.owner (w.io.flagged id shared) go operation.request point
      { w with io := next.1 }.setStage id (.running shared next.2)
    | _ => w

/-- A step of either side. A step that is not possible leaves the worker as it is. -/
def perform : Action → Worker
  | .begin requestId wsIn wsOut =>
    match w.phase with
    | .idle => w.begin requestId wsIn wsOut
    | _ => w
  | .submit request =>
    match w.phase with
    | .running _ => w.submit request
    | _ => w
  | .cancelOp id =>
    match w.phase with
    | .running _ => { w with io := w.io.cancel id }
    | _ => w
  | .cancelRequestBody =>
    match w.phase with
    | .running _ => { w with io := { w.io with inbound := w.io.inbound.clear } }
    | _ => w
  | .cancelBody bodyId =>
    match w.phase with
    | .running _ => { w with io := { w.io with outbound := w.io.outbound.clear bodyId } }
    | _ => w
  | .receive id =>
    match w.phase, w.stage id with
    | .running _, some .completed => (w.consume id).settle id
    | _, _ => w
  | .rejectAll =>
    match w.phase with
    | .running _ => w.rejectAll
    | _ => w
  | .finishJob =>
    match w.phase with
    | .running requestId => { w with phase := .teardown requestId .bind [] }
    | _ => w
  | .teardown =>
    match w.phase with
    | .teardown requestId step remaining => w.teardownStep requestId remaining step
    | _ => w
  | .drain id =>
    match w.phase, w.stage id with
    | .teardown requestId .drain remaining, some .completed =>
      { w.consume id with
        phase := .teardown requestId .drain (remaining.filter (· ≠ id)) }
    | _, _ => w
  | .quiesced =>
    match w.phase with
    | .teardown _ .drain [] => { w with phase := .idle }
    | _ => w
  | .timeout =>
    match w.phase with
    | .teardown _ .drain (_ :: _) => { w with phase := .stopped }
    | _ => w
  | .pickUp id =>
    match w.stage id with
    | some .queued => w.pickUp id
    | _ => w
  | .advance id go => w.advance id go
  -- the task of a client socket forgets the commands when it ends
  | .socketEnded =>
    { w with io := { w.io with clientWs := { w.io.clientWs with commands := none } } }

def step (action : Action) : Unit × Worker := ((), w.perform action)

end Worker

end Tysel.Isolate
