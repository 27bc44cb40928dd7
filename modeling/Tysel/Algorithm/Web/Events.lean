import Tysel.Shared.Run

/-! # Event targets and the client WebSocket -/

namespace Tysel.Web

/-! ## Event targets

A listener that is called may call any method of the target before it returns. -/

/-- An entry of the table, with the number of its addition. -/
structure EventEntry (L : Type) where
  type : String
  listener : L
  capture : Bool
  once : Bool
  number : ℕ
  deriving DecidableEq

structure EventTarget (L : Type) where
  entries : List (EventEntry L) := []
  added : ℕ := 0
  /-- What the running dispatches have still to call, the innermost first. -/
  running : List (List (EventEntry L)) := []
  called : List (EventEntry L) := []

inductive TargetInput (L : Type) where
  | add (type : String) (listener : L) (capture once : Bool)
  /-- Also the abort of the signal that the listener was added with. -/
  | remove (type : String) (listener : L) (capture : Bool)
  /-- A dispatch takes the listeners of its type. -/
  | dispatch (type : String)
  | call
  /-- The innermost dispatch returns, at its end or because propagation was stopped. -/
  | done

namespace EventTarget

variable {L : Type} [DecidableEq L] (t : EventTarget L)

def has (type : String) (listener : L) (capture : Bool) (entry : EventEntry L) : Bool :=
  entry.type = type && entry.listener = listener && entry.capture = capture

def removeEventListener (type : String) (listener : L) (capture : Bool) : EventTarget L :=
  { t with entries := t.entries.filter fun entry => !has type listener capture entry }

/-- The output is the entry that is called. -/
def step (input : TargetInput L) : Option (EventEntry L) × EventTarget L :=
  match input, t.running with
  | .add type listener capture once, _ =>
    if t.entries.any (has type listener capture) then (none, t) else (none, { t with
      entries := t.entries ++ [⟨type, listener, capture, once, t.added⟩]
      added := t.added + 1 })
  | .remove type listener capture, _ => (none, t.removeEventListener type listener capture)
  | .dispatch type, running =>
    (none, { t with running := t.entries.filter (·.type = type) :: running })
  | .call, (entry :: rest) :: running =>
    let t := { t with running := rest :: running, called := t.called ++ [entry] }
    (some entry, if entry.once then t.removeEventListener entry.type entry.listener entry.capture
      else t)
  | .done, _ :: running => (none, { t with running := running })
  | _, _ => (none, t)

end EventTarget

/-! ## The client WebSocket

The callbacks of the connection attempt, the read loop and `close` write the ready state. Between
two of their steps the application may call `close` and `send`, from a listener or not. -/

inductive ReadyState where
  | connecting
  | open
  | closing
  | closed
  deriving DecidableEq

def ReadyState.code : ReadyState → ℕ
  | .connecting => 0
  | .open => 1
  | .closing => 2
  | .closed => 3

inductive SocketEvent where
  | open
  | message
  | error
  | close
  deriving DecidableEq

inductive SocketPhase where
  | connect
  /-- The next turn of the read loop, after the listeners of an event. -/
  | loop
  | read
  | done
  deriving DecidableEq

structure WebSocket where
  readyState : ReadyState := .connecting
  phase : SocketPhase := .connect
  dispatched : List SocketEvent := []

inductive SocketInput where
  | connected
  | refused
  | turn
  | message
  | closeFrame
  | readError
  | close
  | send

namespace WebSocket

variable (s : WebSocket)

def ended (events : List SocketEvent) : WebSocket := ⟨.closed, .done, s.dispatched ++ events⟩

/-- The output says whether the call throws. -/
def step (input : SocketInput) : Bool × WebSocket :=
  match input, s.phase with
  | .connected, .connect => (false, ⟨.open, .loop, s.dispatched ++ [.open]⟩)
  | .refused, .connect | .readError, .read => (false, s.ended [.error, .close])
  | .turn, .loop =>
    (false, if s.readyState = .open then { s with phase := .read } else s.ended [.close])
  | .message, .read => (false, ⟨s.readyState, .loop, s.dispatched ++ [.message]⟩)
  | .closeFrame, .read => (false, s.ended [.close])
  | .close, _ =>
    (false, if s.readyState = .closed ∨ s.readyState = .closing then s
      else { s with readyState := .closing })
  | .send, _ => (s.readyState ≠ .open, s)
  | _, _ => (false, s)

end WebSocket

end Tysel.Web
