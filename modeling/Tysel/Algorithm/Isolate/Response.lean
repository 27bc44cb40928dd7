import Mathlib.Data.String.Basic
import Tysel.Shared.Except
import Tysel.Shared.Run

/-! A worker sends the head of a response, then its body in one of three forms: buffered, as chunks
of an unchecked channel, or as chunks of a channel with a completion signal. The two ends of the
channel are on different threads; a step is one action of one end. The window of the channel
only delays its writer and is left out. -/

namespace Tysel.Isolate

abbrev Bytes := List UInt8

/-- The characters of a JavaScript string; a lone surrogate is none. -/
def utf16Chars : List UInt16 → Option (List Char)
  | [] => some []
  | [u] => if u < 0xd800 ∨ 0xdfff < u then some [Char.ofNat u.toNat] else none
  | u :: v :: rest =>
    if u < 0xd800 ∨ 0xdfff < u then
      (utf16Chars (v :: rest)).map (Char.ofNat u.toNat :: ·)
    else if u < 0xdc00 ∧ 0xdc00 ≤ v ∧ v ≤ 0xdfff then
      let c := Char.ofNat (0x10000 + (u.toNat - 0xd800) * 0x400 + (v.toNat - 0xdc00))
      (utf16Chars rest).map (c :: ·)
    else none

/-- What `copyResponseBody` lets into a body: a string, or the bytes of a buffer or a view. -/
inductive Chunk where
  | text (units : List UInt16)
  | bytes (content : Bytes)
  deriving DecidableEq

/-- The bytes of a chunk. Conversion of a string fails at a lone surrogate. -/
def Chunk.encode : Chunk → Option Bytes
  | .text units => (utf16Chars units).map (·.flatMap String.utf8EncodeChar)
  | .bytes content => some content

inductive StreamChunk where
  | bytes (content : Bytes)
  | other
  deriving DecidableEq

/-- The body a handler gives its response. A custom stream delivers its chunks and then closes
or fails. -/
inductive ResponseBody where
  | null
  | single (chunk : Chunk)
  | chunks (list : List Chunk)
  | stream (list : List StreamChunk) (closes : Bool)

/-- The producing side: sending the chunks of a list, pumping a stream, waiting for the worker
to notice that the pump has settled, or done. -/
inductive Producer where
  | sending (rest : List Chunk)
  | pumping (rest : List StreamChunk) (closes : Bool)
  | settled (result : Except String Unit)
  | done

/-- The completion signal of a body, as its receiver finds it. -/
inductive Completion where
  | unchecked
  | pending
  | sent (result : Except String Unit)
  | dropped

/-- The consuming side: an HTTP body with what it may still send, or `dispatch_sync_until`. -/
inductive Consumer where
  | http (remaining : ℕ)
  | sync

/-- A body between its two sides. `sink`, `watcher` and `writing` hold a sender of the channel;
`received` and `ended` are what the client has seen. -/
structure Exchange where
  producer : Producer
  sink : Bool
  watcher : Bool
  writing : Option Bytes
  queue : List Bytes
  completion : Completion
  consumer : Consumer
  received : Bytes
  ended : Option (Except String Unit)

namespace Exchange

variable (e : Exchange)

def closed : Bool := !e.sink && !e.watcher && e.writing.isNone

/-! ### The producing side -/

/-- `send_body` takes its next chunk; an error drops the only sender. -/
def send : Exchange :=
  match e.producer with
  | .sending [] => { e with producer := .done, sink := false }
  | .sending (chunk :: rest) =>
    match chunk.encode with
    | some bytes => { e with producer := .sending rest, queue := e.queue ++ [bytes] }
    | none => { e with producer := .done, sink := false }
  | _ => e

/-- The pump reads its next chunk and starts to write it, one write at a time. -/
def read : Exchange :=
  match e.producer, e.writing with
  | .pumping (.bytes content :: rest) closes, none =>
    { e with producer := .pumping rest closes, writing := some content }
  | .pumping (.other :: _) _, none =>
    { e with producer := .settled (.error "HTTP stream chunks must be Uint8Array") }
  | .pumping [] true, none => { e with producer := .settled (.ok ()) }
  | .pumping [] false, none => { e with producer := .settled (.error "stream error") }
  | _, _ => e

def write : Exchange :=
  match e.writing with
  | some bytes => { e with writing := none, queue := e.queue ++ [bytes] }
  | none => e

/-- A pump whose write or watcher ends with `error` rejects. -/
def rejectPump (error : String) : Producer :=
  match e.producer with
  | .pumping _ _ => .settled (.error error)
  | producer => producer

def drop (error : String) : Exchange :=
  match e.writing with
  | some _ => { e with writing := none, producer := e.rejectPump error }
  | none => e

/-- The operation that watches for the consumer ends. -/
def unwatch : Exchange :=
  { e with watcher := false, producer := e.rejectPump "response consumer closed" }

def complete (result : Except String Unit) : Exchange :=
  { e with producer := .done, sink := false, completion := .sent result }

def finish : Exchange :=
  match e.producer with
  | .settled result => e.complete result
  | _ => e

/-- The worker stops waiting for the pump: deadline, cancellation or budget. -/
def interrupt (error : String) : Exchange :=
  match e.producer with
  | .pumping _ _ | .settled _ => e.complete (.error error)
  | _ => e

/-- The worker thread ends; what it owns is dropped. -/
def die : Exchange :=
  match e.producer with
  | .done => e
  | _ =>
    { e with
      producer := .done
      sink := false
      completion :=
        match e.completion with
        | .pending => .dropped
        | completion => completion }

/-! ### The consuming side -/

/-- The end of the channel: the completion decides, if there is one. -/
def finalResult : Option (Except String Unit) :=
  match e.completion with
  | .unchecked => some (.ok ())
  | .pending => none
  | .sent result => some result
  | .dropped => some (.error "response stream interrupted")

def push (chunk : Bytes) (rest : List Bytes) (consumer : Consumer) : Exchange :=
  { e with queue := rest, consumer := consumer, received := e.received ++ chunk }

/-- `HttpBody::poll_frame`, or one `recv` of `dispatch_sync_until`. -/
def poll : Exchange :=
  if e.ended.isSome then e
  else
    match e.queue with
    | chunk :: rest =>
      match e.consumer with
      | .http remaining =>
        if chunk.length ≤ remaining then
          e.push chunk rest (.http (remaining - chunk.length))
        else
          { e with queue := rest, ended := some (.error "response body limit exceeded") }
      | .sync => e.push chunk rest .sync
    | [] => if e.closed then { e with ended := e.finalResult } else e

end Exchange

inductive ResponseAction where
  | send
  | read
  | write
  | drop (error : String)
  | unwatch
  | finish
  | interrupt (error : String)
  | die
  | poll

def Exchange.perform (e : Exchange) : ResponseAction → Exchange
  | .send => e.send
  | .read => e.read
  | .write => e.write
  | .drop error => e.drop error
  | .unwatch => e.unwatch
  | .finish => e.finish
  | .interrupt error => e.interrupt error
  | .die => e.die
  | .poll => e.poll

def Exchange.step (e : Exchange) (action : ResponseAction) : Unit × Exchange :=
  ((), e.perform action)

/-- A buffered body: the client gets its bytes and then the end. -/
def buffered (consumer : Consumer) (bytes : Bytes) : Except String Exchange :=
  let whole : Exchange :=
    { producer := .done, sink := false, watcher := false, writing := none, queue := []
      completion := .unchecked, consumer := consumer, received := bytes, ended := some (.ok ()) }
  match consumer with
  | .http limit =>
    if limit < bytes.length then .error s!"response body exceeds {limit} bytes" else .ok whole
  | .sync => .ok whole

/-- `emit_response` up to the head. An error here means that no head was sent. -/
def emitResponse (body : ResponseBody) (consumer : Consumer) : Except String Exchange :=
  match body with
  | .null => buffered consumer []
  | .single chunk =>
    match chunk.encode with
    | some bytes => buffered consumer bytes
    | none => .error "invalid utf-8"
  | .chunks list =>
    .ok { producer := .sending list, sink := true, watcher := false, writing := none, queue := []
          completion := .unchecked, consumer := consumer, received := [], ended := none }
  | .stream list closes =>
    .ok { producer := .pumping list closes, sink := true, watcher := true, writing := none
          queue := [], completion := .pending, consumer := consumer, received := []
          ended := none }

end Tysel.Isolate
