import Tysel.Algorithm.Isolate.Response
import Tysel.Shared.Text
import Tysel.Shared.Utf8

/-! The supervisor sends a request to a worker process as one JSON frame and gets the response back
as another. Both bodies are texts inside the JSON. A handler is a function here, so that the two
profiles run the same one; the capability calls it makes on the way are part of it. The texts of
the frames are those of `serde_json`, which reads back what it wrote. -/

namespace Tysel.Isolate

open Tysel.Text

def maxFrame : ℕ := 64 * 1024
def maxIsolatedHttpBody : ℕ := 32 * 1024

structure HttpRequest where
  method : String
  url : String
  headers : List (String × String)
  body : Bytes
  requestId : ℕ
  deriving DecidableEq

structure HttpHead where
  status : ℕ
  headers : List (String × String)
  websocket : Bool
  deriving DecidableEq

inductive InterruptReason where
  | timeout
  | memoryLimit
  | cancelled
  | hostShutdown
  deriving DecidableEq

def InterruptReason.debug : InterruptReason → String
  | .timeout => "Timeout"
  | .memoryLimit => "MemoryLimit"
  | .cancelled => "Cancelled"
  | .hostShutdown => "HostShutdown"

inductive EngineError where
  | isolate (error : String)
  | module (error : String)
  | interrupted (reason : InterruptReason)
  | bodyTooLarge
  | suspended
  deriving DecidableEq

def EngineError.text : EngineError → String
  | .isolate error => s!"isolate error: {error}"
  | .module error => s!"module error: {error}"
  | .interrupted reason => s!"interrupted: {reason.debug}"
  | .bodyTooLarge => "request body exceeds limit"
  | .suspended => "durable execution suspended"

/-- A handler as a pool runs it, when it answers before the deadline: `dispatch_sync_until`, and
`dispatch_response_until` followed by a client that reads the body to its end. -/
abbrev Handler := HttpRequest → Except EngineError (HttpHead × Bytes)

structure HttpCall where
  id : ℕ
  method : String
  url : String
  headers : List (String × String)
  body : List Char
  requestId : ℕ
  timeoutMs : Option ℕ

inductive HttpReply where
  | httpOk (id status : ℕ) (headers : List (String × String)) (body : List Char)
      (websocket : Bool)
  | httpErr (id : ℕ) (error : String) (timedOut : Bool)

def jsonHeaders (headers : List (String × String)) : String :=
  jsonArray (headers.map fun h => jsonArray [jsonString h.1, jsonString h.2])

def HttpCall.json (call : HttpCall) : String :=
  jsonObject [("type", jsonString "Http"), ("id", toString call.id),
    ("method", jsonString call.method), ("url", jsonString call.url),
    ("headers", jsonHeaders call.headers), ("body", jsonString (String.ofList call.body)),
    ("request_id", toString call.requestId), ("timeout_ms", jsonOption toString call.timeoutMs)]

def HttpReply.json : HttpReply → String
  | .httpOk id status headers body websocket =>
    jsonObject [("type", jsonString "HttpOk"), ("id", toString id),
      ("status", toString status), ("headers", jsonHeaders headers),
      ("body", jsonString (String.ofList body)), ("websocket", jsonBool websocket)]
  | .httpErr id error timedOut =>
    jsonObject [("type", jsonString "HttpErr"), ("id", toString id),
      ("error", jsonString error), ("timed_out", jsonBool timedOut)]

/-- `closed` is the end of the other side's stream. -/
inductive IpcError where
  | closed
  | frameTooLarge (length : ℕ)
  deriving DecidableEq

/-- Writes a frame and reads it on the other side. -/
def writeFrame (json : String) : Except IpcError Unit :=
  reject (maxFrame < size json) (.frameTooLarge (size json))

inductive IsolateError where
  | ipc (error : IpcError)
  | worker (error : String)
  | engine (error : EngineError)
  deriving DecidableEq

/-- The request that the worker hands to its pool. -/
def HttpCall.request (call : HttpCall) : HttpRequest :=
  ⟨call.method, call.url, call.headers, utf8 call.body, call.requestId⟩

def answer (id : ℕ) : Except EngineError (HttpHead × Bytes) → HttpReply
  | .ok (head, bytes) =>
    .httpOk id head.status head.headers (fromUtf8Lossy bytes) head.websocket
  | .error err => .httpErr id err.text (err = .interrupted .timeout)

/-- The deadline is `timeout` milliseconds from now. -/
def dispatchSyncUntil (pool : Handler) (request : HttpRequest) (timeout : ℕ) :
    Except EngineError (HttpHead × Bytes) := do
  reject (timeout = 0) (.interrupted .timeout)
  pool request

def serve (requestTimeoutMs : ℕ) (handler : Option Handler) (call : HttpCall) : HttpReply :=
  match handler with
  | some pool =>
    let timeout := min (call.timeoutMs.getD requestTimeoutMs) requestTimeoutMs
    answer call.id (dispatchSyncUntil pool call.request timeout)
  | none => .httpErr call.id "handler not loaded" false

/-- A worker that cannot write its reply ends, and the supervisor finds its output closed. -/
def writeLocked (reply : HttpReply) : Except IpcError Unit :=
  (writeFrame reply.json).mapError fun _ => .closed

/-- The call for a request; `remaining` is the time to the deadline in nanoseconds. -/
def HttpRequest.call (request : HttpRequest) (id remaining : ℕ) : HttpCall where
  id := id
  method := request.method
  url := request.url
  headers := request.headers
  body := fromUtf8Lossy request.body
  requestId := request.requestId
  timeoutMs := some (min (remaining / 1000000) (2 ^ 64 - 1))

/-- What the supervisor makes of the reply to its call `id`. -/
def accept (id : ℕ) : HttpReply → Except IsolateError (HttpHead × Bytes)
  | .httpOk replyId status headers body websocket => do
      reject (replyId ≠ id) (.worker "unexpected message")
      reject (websocket = true) (.worker "websocket is not available in the isolated profile")
      reject (maxIsolatedHttpBody < (utf8 body).length)
        (.worker "isolated response body exceeds 32KiB IPC cap")
      return (⟨status, headers, false⟩, utf8 body)
  | .httpErr replyId error timedOut => do
      reject (replyId ≠ id) (.worker "unexpected message")
      reject (timedOut = true) (.engine (.interrupted .timeout))
      .error (.worker error)

def httpInner (requestTimeoutMs : ℕ) (handler : Option Handler) (id remaining : ℕ)
    (request : HttpRequest) : Except IsolateError (HttpHead × Bytes) := do
  reject (maxIsolatedHttpBody < request.body.length)
    (.worker "isolated request body exceeds 32KiB IPC cap")
  reject (remaining = 0) (.engine (.interrupted .timeout))
  let call := request.call id remaining
  (writeFrame call.json).mapError .ipc
  let reply := serve requestTimeoutMs handler call
  (writeLocked reply).mapError .ipc
  accept id reply

inductive AppIsolate where
  | trusted (handler : Handler)
  | isolated (handler : Handler) (requestTimeoutMs id remaining : ℕ)

/-- The body of an isolated request is collected first. -/
def dispatchIsolated (handler : Handler) (requestTimeoutMs id remaining : ℕ)
    (request : HttpRequest) : Except EngineError (HttpHead × Bytes) := do
  reject (maxIsolatedHttpBody < request.body.length) .bodyTooLarge
  (httpInner requestTimeoutMs (some handler) id remaining request).mapError fun
    | .engine error => error
    | .worker error => .isolate s!"worker: {error}"
    | .ipc (.frameTooLarge length) =>
      .isolate s!"frame length {length} exceeds 65536 byte limit"
    | .ipc .closed => .isolate "io: failed to fill whole buffer"

def AppIsolate.dispatchIncoming (isolate : AppIsolate) (request : HttpRequest) :
    Except EngineError (HttpHead × Bytes) :=
  match isolate with
  | .trusted handler => handler request
  | .isolated handler requestTimeoutMs id remaining =>
    dispatchIsolated handler requestTimeoutMs id remaining request

end Tysel.Isolate
