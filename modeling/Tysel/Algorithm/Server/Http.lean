import Mathlib.Data.List.Basic

/-! Admission of requests under a limit that a reload replaces, and the wait for connections and
upgraded sockets in a shutdown. An atomic operation is one step; no counter overflows. -/

namespace Tysel.Server

inductive Poll (α : Type) where
  | pending
  | ready (value : α)

inductive HttpBodyKind where
  | once (bytes : Option (List UInt8))
  | stream (remaining : ℕ)

/-- The channel and the completion of a stream are seen through what their polls return. -/
structure HttpBody where
  completion : Bool := false
  kind : HttpBodyKind
  permit : Bool := false

namespace HttpBody

variable (body : HttpBody) (active : ℕ)

def once (bytes : List UInt8) : HttpBody := { kind := .once (some bytes) }

def empty : HttpBody := { kind := .once none }

def holdPermit : HttpBody := { body with permit := true }

/-- The drop of a permit counts it off. -/
def takePermit : HttpBody × ℕ :=
  if body.permit then ({ body with permit := false }, active - 1) else (body, active)

/-- `completed` is what the completion says, with no text if its sender was dropped. -/
def pollFrame (recv : Poll (Option (List UInt8))) (completed : Poll (Except (Option String) Unit)) :
    Poll (Option (Except String (List UInt8))) × HttpBody × ℕ :=
  match body.kind with
  | .once (some bytes) => (.ready (some (.ok bytes)), { body with kind := .once none }, active)
  | .once none => (.ready none, body.takePermit active)
  | .stream remaining =>
    match recv with
    | .ready (some chunk) =>
      if chunk.length ≤ remaining then
        (.ready (some (.ok chunk)),
          { body with kind := .stream (remaining - chunk.length) }, active)
      else (.ready (some (.error "response body limit exceeded")), body.takePermit active)
    | .ready none =>
      if body.completion then
        match completed with
        | .pending => (.pending, body, active)
        | .ready (.error text) =>
          (.ready (some (.error (text.getD "response stream interrupted"))),
            { body with completion := false }.takePermit active)
        | .ready (.ok ()) => (.ready none, { body with completion := false }.takePermit active)
      else (.ready none, body.takePermit active)
    | .pending => (.pending, body, active)

end HttpBody

/-- A request. In `try_acquire` it keeps the counter that it has read. Its permit is first with
the dispatcher and then with the body of the response, or with the task of an upgraded socket. -/
inductive Request where
  | arrived
  | loaded (read : ℕ)
  | checked (read : ℕ)
  | overloaded
  | dispatching
  | answered (body : Option HttpBody) (socket : Bool)

inductive RequestAction where
  /-- The next operation of `try_acquire`. A weak exchange may fail for no reason. -/
  | tryAcquire (spurious : Bool)
  /-- The response of `dispatch_inner`, or that to its error. -/
  | respond (body : HttpBody)
  /-- The socket's task has the permit; its response may be turned into that to an error. -/
  | upgrade (error : Option (List UInt8))
  | pollFrame (recv : Poll (Option (List UInt8))) (completed : Poll (Except (Option String) Unit))
  /-- The connection drops the future of `dispatch`, or the body. -/
  | drop
  | socketEnded

inductive RequestOutput where
  | nothing
  | admitted
  | frame (result : Poll (Option (Except String (List UInt8))))

namespace Request

def permits : Request → ℕ
  | .dispatching => 1
  | .answered body socket => (body.any (·.permit)).toNat + socket.toNat
  | _ => 0

/-- The request and the counter after an operation. -/
def act (active limit : ℕ) : Request → RequestAction → RequestOutput × Request × ℕ
  | .arrived, .tryAcquire _ => (.nothing, .loaded active, active)
  | .loaded read, .tryAcquire _ =>
    (.nothing, if limit ≤ read then .overloaded else .checked read, active)
  | .checked read, .tryAcquire spurious =>
    if active = read ∧ spurious = false then (.admitted, .dispatching, read + 1)
    else (.nothing, .loaded active, active)
  | .dispatching, .respond body => (.nothing, .answered (some body.holdPermit) false, active)
  | .dispatching, .upgrade error =>
    (.nothing, .answered (some (error.elim .empty .once)) true, active)
  | .dispatching, .drop => (.nothing, .answered none false, active - 1)
  | .answered (some body) socket, .pollFrame recv completed =>
    let (result, body, active) := body.pollFrame active recv completed
    (.frame result, .answered (some body) socket, active)
  | .answered (some body) socket, .drop =>
    (.nothing, .answered none socket, (body.takePermit active).2)
  | .answered body true, .socketEnded => (.nothing, .answered body false, active - 1)
  | request, _ => (.nothing, request, active)

end Request

structure Admission where
  active : ℕ := 0
  limit : ℕ
  requests : List Request := []

inductive AdmissionEvent where
  | arrive
  | request (i : ℕ) (action : RequestAction)
  | setLimit (limit : ℕ)

def Admission.step (s : Admission) : AdmissionEvent → RequestOutput × Admission
  | .arrive => (.nothing, { s with requests := s.requests ++ [.arrived] })
  | .request i action =>
    match s.requests[i]? with
    | some request =>
      let next := request.act s.active s.limit action
      (next.1, { s with active := next.2.2, requests := s.requests.set i next.2.1 })
    | none => (.nothing, s)
  | .setLimit limit => (.nothing, { s with limit := limit })

/-- The guard of a connection, or of the socket that the connection `of` is upgraded to. -/
inductive ConnectionGuard where
  | connection
  | socket (of : ℕ)
  /-- Its drop took the counter to zero, and `notify_waiters` is due. -/
  | notifying
  | dropped
  deriving DecidableEq

def ConnectionGuard.alive : ConnectionGuard → Bool
  | .connection | .socket _ => true
  | _ => false

/-- The task that accepts connections and then drains. `idle` enables its waiter, loads the
counter and awaits the waiter. -/
inductive Drain where
  | accepting
  | looping
  | enabled
  | parked
  | returned

structure HttpShutdown where
  phase : ℕ := 0
  active : ℕ := 0
  guards : List ConnectionGuard := []
  drain : Drain := .accepting
  /-- The grace period has passed, and `drain` is in its second `idle`. -/
  forced : Bool := false
  notified : Bool := false

inductive ShutdownEvent where
  | accept
  /-- A request is dispatched to a socket, within the future of its connection. -/
  | upgrade (i : ℕ)
  | drop (i : ℕ)
  | notifyWaiters (i : ℕ)
  | cancel
  /-- The next operation of `drain`. -/
  | drain
  | timeout

namespace HttpShutdown

variable (s : HttpShutdown)

def track (guard : ConnectionGuard) : HttpShutdown :=
  { s with active := s.active + 1, guards := s.guards ++ [guard] }

def cancel : HttpShutdown := { s with phase := if s.phase = 0 then 1 else s.phase }

def next (event : ShutdownEvent) : HttpShutdown :=
  match event, s.drain with
  | .accept, .accepting => s.track .connection
  | .upgrade i, _ => if s.guards[i]? = some .connection then s.track (.socket i) else s
  | .drop i, _ =>
    if s.guards[i]?.map (·.alive) = some true then
      let guard := if s.active = 1 then .notifying else .dropped
      { s with active := s.active - 1, guards := s.guards.set i guard }
    else s
  | .notifyWaiters i, _ =>
    if s.guards[i]? = some .notifying then
      { s with guards := s.guards.set i .dropped, notified := true }
    else s
  | .cancel, _ => s.cancel
  | .drain, .accepting => { s.cancel with drain := .looping }
  | .drain, .looping => { s with drain := .enabled, notified := false }
  | .drain, .enabled => { s with drain := if s.active = 0 then .returned else .parked }
  | .drain, .parked => if s.notified then { s with drain := .looping } else s
  | .timeout, .parked =>
    if s.notified || s.forced then s else { s with phase := 2, drain := .looping, forced := true }
  | _, _ => s

def step (event : ShutdownEvent) : Unit × HttpShutdown := ((), s.next event)

end HttpShutdown

end Tysel.Server
