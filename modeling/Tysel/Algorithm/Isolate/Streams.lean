import Tysel.Algorithm.Isolate.Slots
import Tysel.Algorithm.Isolate.Supervisor

/-! A channel carries the chunks of a body, perhaps an error that cuts it off, and its end once the
sender is dropped. A read takes the receiver in one region under the lock and settles in a
second. In between the receiver is its own, so what it receives there it may as well receive in
the second: a read is two steps, and a body has at most one read between them. Generations are
taken as unbounded. -/

namespace Tysel.Isolate

abbrev ReadResult := Except String (Option Bytes)

/-- A body, with all that its receiver has delivered and all that its reads have returned. -/
structure Body where
  queue : List (Except String Bytes) := []
  finished : Bool := false
  installed : Bool := false
  /-- Cleared after the installation. -/
  cleared : Bool := false
  /-- The generation of the read that has the receiver. -/
  reading : Option ℕ := none
  received : List (Except String Bytes) := []
  results : List ReadResult := []

namespace Body

def send (item : Except String Bytes) (body : Body) : Body :=
  if body.finished then body else { body with queue := body.queue ++ [item] }

def recv (body : Body) : Option ReadResult :=
  match body.queue with
  | item :: _ => some (item.map some)
  | [] => if body.finished then some (.ok none) else none

def receive (body : Body) : Body :=
  { body with queue := body.queue.tail, received := body.received ++ body.queue.take 1 }

def reply (result : ReadResult) (body : Body) : Body :=
  { body with results := body.results ++ [result] }

end Body

/-- A slot or a registry `σ` with the bodies that it is for. -/
structure Streams (σ : Type) where
  owner : σ
  bodies : Channel → Body := fun _ => {}

namespace Streams

variable {σ : Type}

def update (w : Streams σ) (owner : σ) (rx : Channel) (f : Body → Body) : Streams σ :=
  ⟨owner, Function.update w.bodies rx (f (w.bodies rx))⟩

/-- The read with the receiver returns. -/
def ends (w : Streams σ) (owner : σ) (rx : Channel) (body : Body) (result : ReadResult) :
    Option (Channel × ReadResult) × Streams σ :=
  (some (rx, result), w.update owner rx fun _ => { body.reply result with reading := none })

end Streams

/-- The slot, and the body that a read is for. -/
structure Inbound extends StreamSlot where
  current : Option Channel := none

/-- What is sent before an installation is sent right after it. -/
inductive SlotOp where
  | install (rx : Channel)
  | clear
  | send (rx : Channel) (item : Except String Bytes)
  | finish (rx : Channel)
  | startRead
  | endRead (rx : Channel) (interrupted : Option InterruptReason)

def Inbound.step (w : Streams Inbound) : SlotOp → Option (Channel × ReadResult) × Streams Inbound
  | .install rx =>
    if (w.bodies rx).installed then (none, w)
    else (none, w.update ⟨w.owner.install rx, some rx⟩ rx fun _ => { installed := true })
  | .clear => (none, { w with owner := ⟨w.owner.clear, none⟩ })
  | .send rx item => (none, w.update w.owner rx (·.send item))
  | .finish rx => (none, w.update w.owner rx ({ · with finished := true }))
  | .startRead =>
    match w.owner.inner, w.owner.current with
    | some rx, current =>
      (none, w.update ⟨w.owner.take, current⟩ rx ({ · with reading := some w.owner.generation }))
    | none, some rx => (some (rx, .ok none), w.update w.owner rx (·.reply (.ok none)))
    | none, none => (none, w)
  | .endRead rx interrupted =>
    let body := w.bodies rx
    match body.reading, interrupted, body.recv with
    | some _, some reason, _ => w.ends w.owner rx body (.error reason.debug)
    | some generation, none, some (.ok (some chunk)) =>
      if w.owner.generation = generation then
        w.ends ⟨w.owner.putBack rx generation, w.owner.current⟩ rx body.receive (.ok (some chunk))
      else w.ends w.owner rx body.receive (.error InterruptReason.cancelled.debug)
    | some _, none, some result => w.ends w.owner rx body.receive result
    | _, _, _ => (none, w)

/-- The end of a body is `null`. -/
def readChunk (fromUtf8Lossy : Bytes → String) : ReadResult → Except String (Option String)
  | .ok chunk => .ok (chunk.map fromUtf8Lossy)
  | .error e => .error e

inductive RegistryOp where
  | install (id : ℕ)
  | clear (id : ℕ)
  | clearAll
  | send (id : ℕ) (item : Except String Bytes)
  | finish (id : ℕ)
  | startRead (id : ℕ)
  | endRead (id : ℕ) (interrupted : Option InterruptReason)

/-- A step, and the read that it ends. `next_id` gives every installation its own id. -/
def StreamRegistry.step (w : Streams StreamRegistry) :
    RegistryOp → Option (Channel × ReadResult) × Streams StreamRegistry
  | .install id =>
    if (w.bodies id).installed then (none, w)
    else (none, w.update { w.owner with streams := w.owner.streams.insert id id } id
      fun _ => { installed := true })
  | .clear id =>
    (none, w.update (w.owner.clear id) id fun body => { body with cleared := body.installed })
  | .clearAll =>
    (none, ⟨w.owner.clearAll, fun id => { w.bodies id with cleared := (w.bodies id).installed }⟩)
  | .send id item => (none, w.update w.owner id (·.send item))
  | .finish id => (none, w.update w.owner id ({ · with finished := true }))
  | .startRead id =>
    match w.owner.streams.get? id with
    | some _ =>
      (none, w.update (w.owner.beginRead id) id ({ · with reading := some w.owner.generation }))
    | none => (some (id, .error "unknown or consumed response body"), w)
  | .endRead id interrupted =>
    let body := w.bodies id
    match body.reading, interrupted, body.recv with
    | some generation, some reason, _ =>
      w.ends (w.owner.endRead id id generation false) id body (.error reason.debug)
    | some generation, none, some result =>
      if w.owner.generation ≠ generation ∨ id ∈ w.owner.cancelled then
        w.ends (w.owner.endRead id id generation false) id body.receive
          (.error InterruptReason.cancelled.debug)
      else
        w.ends (w.owner.endRead id id generation (result matches .ok (some _))) id body.receive
          result
    | _, _, _ => (none, w)

end Tysel.Isolate
