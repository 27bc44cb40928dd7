import Tysel.Algorithm.Tasks.Cron

/-! `TaskRegistry` and `TaskIngress` of the runtime: the routing table of a task module, and the
cron, queue and MCP submissions that share one broker and one counter of task ids. -/

namespace Tysel.Tasks

open Tysel.Durable (TaskId checkedAdd)

variable {J : Type}

def maxCronCatchUpMinutes : ℕ := 24 * 60

inductive McpValueType where
  | string | number | integer | boolean | object | array
  deriving DecidableEq

def McpValueType.parse (source : String) : Except TaskIngressError McpValueType :=
  if source = "string" then .ok .string
  else if source = "number" then .ok .number
  else if source = "integer" then .ok .integer
  else if source = "boolean" then .ok .boolean
  else if source = "object" then .ok .object
  else if source = "array" then .ok .array
  else .error (.mcp ("invalid MCP tool: unsupported MCP input type '" ++ source ++ "'"))

/-- The inputs of a tool are the entries of a map, in the order of their names. -/
structure McpTool where
  name : String
  description : String
  input : List (String × McpValueType)
  deriving DecidableEq

inductive ModuleTaskKind where
  | cron (expression : String)
  | queue (queue : String)
  | mcp (description : String) (input : List (String × String))
  deriving DecidableEq

structure ModuleTaskDefinition where
  name : String
  kind : ModuleTaskKind
  deriving DecidableEq

structure CronRegistration where
  name : String
  schedule : CronExpression
  deriving DecidableEq

structure TaskRegistry where
  cron : List CronRegistration
  queues : Table String String
  mcpTools : Table String McpTool

namespace TaskRegistry

def add (registry : TaskRegistry) (definition : ModuleTaskDefinition) :
    Except TaskIngressError TaskRegistry :=
  match definition.kind with
  | .cron expression => do
      let schedule ← CronExpression.parse expression
      return { registry with cron := registry.cron ++ [⟨definition.name, schedule⟩] }
  | .queue queue =>
    match registry.queues.get? queue with
    | some existing => .error (.duplicateQueueConsumer queue existing definition.name)
    | none => .ok { registry with queues := registry.queues.insert queue definition.name }
  | .mcp description input => do
      let input ← input.mapM fun field => do
        let kind ← McpValueType.parse field.2
        return (field.1, kind)
      return { registry with
        mcpTools := registry.mcpTools.insert definition.name ⟨definition.name, description, input⟩ }

def inOrder (left right : CronRegistration) : Prop := ¬ right.name < left.name

instance : DecidableRel inOrder := fun left right =>
  inferInstanceAs (Decidable (¬ right.name < left.name))

def fromDefinitions (definitions : List ModuleTaskDefinition) :
    Except TaskIngressError TaskRegistry := do
  let registry ← definitions.foldlM add ⟨[], ∅, ∅⟩
  return { registry with cron := registry.cron.insertionSort inOrder }

end TaskRegistry

structure TriggeredTask where
  id : TaskId
  handler : String
  scheduledAtMs : ℕ
  deriving DecidableEq

structure CronPosition where
  minute : ℕ
  registration : ℕ
  deriving DecidableEq

structure TaskIngress (J : Type) where
  broker : TaskRpcBroker J
  registry : TaskRegistry
  applicationId : String
  nextId : ℕ
  nextCronPosition : Option CronPosition
  requestTimeoutMs : ℕ

namespace TaskIngress

def new (b : TaskRpcBroker J) (registry : TaskRegistry) (applicationId : String)
    (firstTaskId requestTimeoutMs : ℕ) : Except TaskIngressError (TaskIngress J) := do
  reject (applicationId = "") .invalidApplicationId
  reject (firstTaskId = 0) .invalidTaskIdSeed
  reject (requestTimeoutMs = 0) .invalidTimeout
  return ⟨b, registry, applicationId, firstTaskId, none, requestTimeoutMs⟩

/-- `reserve_task_ids(1)`: the reserved id and the next one. -/
def reserveTaskId (nextId : ℕ) : Except TaskIngressError (TaskId × ℕ) :=
  match checkedAdd nextId 1 with
  | none => .error .taskIdExhausted
  | some next => .ok (Fin.ofNat (2 ^ 128) nextId, next)

def deadline (nowMs requestTimeoutMs : ℕ) : Except TaskIngressError UInt64 :=
  match checkedAdd nowMs requestTimeoutMs with
  | none => .error .clock
  | some deadline => .ok (UInt64.ofNat deadline)

def remainingCapacity (b : TaskRpcBroker J) : ℕ := b.scheduler.capacity - b.scheduler.queue.length

variable (T : Texts J)

variable (ingress : TaskIngress J)

/-- Reserve an id, compute the deadline and enqueue the task. A reserved id is not given
back. -/
def submit (nowMs : ℕ) (idempotencyKey : Option String) (trigger : TaskTrigger) (input : J) :
    Except TaskIngressError TaskId × TaskIngress J :=
  match reserveTaskId ingress.nextId with
  | .error e => (.error e, ingress)
  | .ok (id, nextId) =>
    let ingress := { ingress with nextId := nextId }
    match deadline nowMs ingress.requestTimeoutMs with
    | .error e => (.error e, ingress)
    | .ok deadline =>
      match ingress.broker.enqueue T (Task.new
        ⟨id, ingress.applicationId, none, idempotencyKey, none⟩ trigger (some deadline)
        input) with
      | (.error e, b) => (.error (.broker e), { ingress with broker := b })
      | (.ok _, b) => (.ok id, { ingress with broker := b })

def enqueueQueue (queue : String) (messageId : Option String) (input : J) (nowMs : ℕ) :
    Except TaskIngressError TaskId × TaskIngress J :=
  match ingress.registry.queues.get? queue with
  | none => (.error (.unknownQueue queue), ingress)
  | some handler =>
    ingress.submit T nowMs messageId (.queue queue handler messageId) input

def enqueueMcp (tool : String) (input : J) (nowMs : ℕ) :
    Except TaskIngressError TaskId × TaskIngress J :=
  match ingress.registry.mcpTools.get? tool with
  | none => (.error (.unknownMcpTool tool), ingress)
  | some _ => ingress.submit T nowMs none (.mcp tool) input

structure Firing where
  position : CronPosition
  task : TriggeredTask
  deriving DecidableEq

inductive CronExit where
  | passed
  | full (position : CronPosition)
  | failed (error : TaskIngressError)
  deriving DecidableEq

/-- The inner loop: the registrations of one minute from an index on. -/
def minuteLoop (null : J) (nowMs minute : ℕ) : List CronRegistration → ℕ → List Firing →
    TaskIngress J → CronExit × List Firing × TaskIngress J
  | [], _, fired, ingress => (.passed, fired, ingress)
  | registration :: rest, index, fired, ingress =>
    if registration.schedule.matchesUnixMs (minute * minuteMs) = false then
      minuteLoop null nowMs minute rest (index + 1) fired ingress
    else if remainingCapacity ingress.broker = 0 then (.full ⟨minute, index⟩, fired, ingress)
    else
      match ingress.submit T nowMs
        (some ("cron:" ++ registration.name ++ ":" ++ toString minute))
        (.cron registration.name registration.schedule.source) null with
      | (.error e, ingress) => (.failed e, fired, ingress)
      | (.ok id, ingress) =>
        minuteLoop null nowMs minute rest (index + 1)
          (fired ++ [⟨⟨minute, index⟩, ⟨id, registration.name, minute * minuteMs⟩⟩]) ingress

/-- The outer loop, with the minutes up to the current one. -/
def cronLoop (null : J) (nowMs : ℕ) : ℕ → CronPosition → List Firing → TaskIngress J →
    CronExit × CronPosition × List Firing × TaskIngress J
  | 0, position, fired, ingress => (.passed, position, fired, ingress)
  | minutes + 1, position, fired, ingress =>
    if position.minute * minuteMs < 2 ^ 64 then
      match minuteLoop T null nowMs position.minute
        (ingress.registry.cron.drop position.registration) position.registration fired
        ingress with
      | (.passed, fired, ingress) =>
        cronLoop null nowMs minutes ⟨min (position.minute + 1) (2 ^ 64 - 1), 0⟩ fired ingress
      | (exit, fired, ingress) => (exit, position, fired, ingress)
    else (.failed .clock, position, fired, ingress)

/-- Where a call starts, unless the cursor is ahead of the clock. -/
def startPosition (cursor : Option CronPosition) (currentMinute : ℕ) : Option CronPosition :=
  match cursor with
  | some position =>
    if currentMinute < position.minute then none
    else if currentMinute - (maxCronCatchUpMinutes - 1) ≤ position.minute then some position
    else some ⟨currentMinute - (maxCronCatchUpMinutes - 1), 0⟩
  | none => some ⟨currentMinute, 0⟩

/-- Enqueue the registrations that are due since the previous call. The log of the firings is
also there when the call fails; an error leaves the cursor as it was. -/
def enqueueDueCron (null : J) (ingress : TaskIngress J) (nowMs : ℕ) :
    Except TaskIngressError (List TriggeredTask) × List Firing × TaskIngress J :=
  match startPosition ingress.nextCronPosition (nowMs / minuteMs) with
  | none => (.ok [], [], ingress)
  | some position =>
    match cronLoop T null nowMs (nowMs / minuteMs + 1 - position.minute) position [] ingress with
    | (.passed, position, fired, ingress) =>
      (.ok (fired.map Firing.task), fired, { ingress with nextCronPosition := some position })
    | (.full position, _, fired, ingress) =>
      (.ok (fired.map Firing.task), fired, { ingress with nextCronPosition := some position })
    | (.failed e, _, fired, ingress) => (.error e, fired, ingress)

end TaskIngress

/-- A cron poll, a submission, or a call of a worker connection or of the process on the shared
broker. -/
inductive IngressOp (J : Type) where
  | cron (nowMs : UInt64)
  | queue (queue : String) (messageId : Option String) (input : J) (nowMs : UInt64)
  | mcp (tool : String) (input : J) (nowMs : UInt64)
  | broker (op : BrokerOp J)

def TaskIngress.perform (T : Texts J) (null : J) (ingress : TaskIngress J) :
    IngressOp J → List TaskIngress.Firing × TaskIngress J
  | .cron nowMs => (ingress.enqueueDueCron T null nowMs.toNat).2
  | .queue queue messageId input nowMs =>
    ([], (ingress.enqueueQueue T queue messageId input nowMs.toNat).2)
  | .mcp tool input nowMs => ([], (ingress.enqueueMcp T tool input nowMs.toNat).2)
  | .broker op => ([], { ingress with broker := (ingress.broker.perform T op).2 })

end Tysel.Tasks
