import Tysel.Algorithm.Engine.Session

/-! The JavaScript side of durable execution: the boundaries of `tysel.durable`, `retry` with its
scopes, and the state of a handler between two host calls. JavaScript values and their JSON
texts are parameters of the model. -/

namespace Tysel.Engine

open Tysel.Durable

/-- What the durable API does with JavaScript values. -/
structure Js (V : Type) where
  /-- `JSON.stringify`, `none` where `encode` throws. -/
  stringify : V → Option String
  /-- `JSON.parse`. -/
  parse : String → V
  undefined : V
  typeError : String → V
  /-- The exception that a failed host call throws. -/
  hostError : SessionError → V
  number : ℕ → V
  /-- `new Date(value)`. -/
  date : V → V
  /-- The text of `{ durationMs }`. -/
  durationJson : ℕ → String
  /-- The text of `{ attempt }`. -/
  attemptJson : ℕ → String
  /-- `{ ok: true, value }`. -/
  okOutcome : V → V
  /-- `{ ok: false, failure }`. -/
  failedOutcome : V → V
  /-- `outcome && outcome.ok === true`. -/
  isOk : V → Bool
  applyRetryOutcome : V → Except V V
  retryFailure : V → V
  throwRetryFailure : V → V
  factorText : V → String
  /-- `Math.floor(delayMs * Math.pow(factor, attempt - 1))`. -/
  scaledDelay : ℕ → V → ℕ → ℕ

/-- The boundaries of a handler, and the input that the dispatcher records before it runs. -/
inductive Boundary where
  | input (json : String)
  | step (name : String)
  | effect (name : String)
  | now
  | random
  | sleep (millis : ℕ)
  | signal (name : String) (nonempty : name ≠ "")

namespace Boundary

def kind : Boundary → EventKind
  | input _ | step _ => .step
  | effect _ => .effect
  | now => .now
  | random => .random
  | sleep _ => .sleep
  | signal .. => .signal

def key : Boundary → String
  | input _ => taskInputKey
  | step name | effect name => name
  | now => "now"
  | random => "random"
  | sleep millis => "sleep:" ++ toString millis
  | signal name _ => name

def hand {V : Type} (js : Js V) (value : V) : Boundary → V
  | now => js.date value
  | sleep _ => js.undefined
  | _ => value

end Boundary

structure RetryPolicy (V : Type) where
  maxAttempts : ℕ
  delayMs : ℕ
  factor : V
  maxDelayMs : Option ℕ
  attempts : 1 ≤ maxAttempts ∧ maxAttempts ≤ 100

def maxSafeInteger : ℕ := 2 ^ 53 - 1

/-- `retryDelayMs`, `none` where it throws. -/
def retryDelayMs {V : Type} (js : Js V) (policy : RetryPolicy V) (attempt : ℕ) : Option ℕ :=
  let scaled := js.scaledDelay policy.delayMs policy.factor attempt
  let millis := match policy.maxDelayMs with
    | none => scaled
    | some limit => min scaled limit
  if millis ≤ maxSafeInteger then some millis else none

variable {V P : Type}

/-- What a handler does next. The callback of a retry is given by its code for each attempt. -/
inductive Action (V P : Type) where
  | done (value : V)
  | throw (error : V)
  | boundary (boundary : Boundary)
  | retry (policy : RetryPolicy V) (body : ℕ → P)

/-- A deterministic handler: the next action of each function of the program is a function of
the results of its boundaries and retries so far. A result is a value or an exception. -/
structure Program (V P : Type) where
  main : P
  code : P → List (Except V V) → Action V P

def Program.takesInput (program : Program V P) : Bool :=
  match program.code program.main [] with
  | .boundary (.input _) => true
  | _ => false

/-- A function call in progress, with the results it has seen. -/
structure Level (V P : Type) where
  point : P
  seen : List (Except V V)

def Level.push (level : Level V P) (result : Except V V) : Level V P :=
  { level with seen := level.seen ++ [result] }

/-- An attempt of a retry. -/
structure Frame (V P : Type) where
  outer : Level V P
  policy : RetryPolicy V
  body : ℕ → P
  id : ℕ
  attempt : ℕ

namespace Frame

variable (js : Js V) (frame : Frame V P)

/-- `scope`, with its array already joined. -/
def scope : String :=
  String.intercalate ":"
    ["retry", toString frame.id, toString frame.policy.maxAttempts, toString frame.policy.delayMs,
      js.factorText frame.policy.factor,
      match frame.policy.maxDelayMs with
      | none => "none"
      | some limit => toString limit]

def startKey : String := frame.scope js ++ ":start:" ++ toString frame.attempt

def outcomeKey : String := frame.scope js ++ ":outcome:" ++ toString frame.attempt

def next : Frame V P := { frame with attempt := frame.attempt + 1 }

end Frame

/-- Where the result of a boundary goes: to its caller, or back to the attempt loop of a retry
that has slept. -/
inductive Cont (V P : Type) where
  | resume (level : Level V P)
  | again (frame : Frame V P)

/-- The call that sees an exception of the boundary. -/
def Cont.level : Cont V P → Level V P
  | resume level => level
  | again frame => frame.outer

/-- The host call a handler makes next, or how it has ended. -/
inductive Phase (V P : Type) where
  | asking (boundary : Boundary) (cont : Cont V P)
  /-- The boundary is not recorded: its callback runs, its value is recorded. -/
  | calling (boundary : Boundary) (cont : Cont V P)
  /-- The sleep is recorded. -/
  | sleeping (cont : Cont V P)
  /-- No signal was pending. -/
  | waiting (boundary : Boundary) (cont : Cont V P)
  | starting (frame : Frame V P)
  /-- `findRetryOutcome` of an attempt. -/
  | finding (frame : Frame V P)
  /-- The outcome of an attempt whose callback has ended. -/
  | recording (frame : Frame V P) (result : Except V V)
  | finished (result : Except V V)
  /-- A host call has failed. -/
  | ended (error : SessionError)

/-- A handler between two host calls: the attempts in progress, innermost first, and the
counter that numbers the retry scopes. -/
structure Machine (V P : Type) where
  stack : List (Frame V P)
  retryIndex : ℕ
  phase : Phase V P

namespace Machine

def leave (stack : List (Frame V P)) (index : ℕ) (result : Except V V) : Machine V P :=
  match stack with
  | [] => ⟨[], index, .finished result⟩
  | frame :: rest => ⟨rest, index, .recording frame result⟩

variable (program : Program V P)

/-- Run the current function up to its next host call. -/
def enter (stack : List (Frame V P)) (index : ℕ) (level : Level V P) : Machine V P :=
  match program.code level.point level.seen with
  | .done value => leave stack index (.ok value)
  | .throw error => leave stack index (.error error)
  | .boundary boundary => ⟨stack, index, .asking boundary (.resume level)⟩
  | .retry policy body => ⟨stack, index + 1, .starting ⟨level, policy, body, index, 1⟩⟩

def give (stack : List (Frame V P)) (index : ℕ) (cont : Cont V P) (result : Except V V) :
    Machine V P :=
  match cont, result with
  | .again frame, .ok _ => ⟨stack, index, .starting frame.next⟩
  | cont, result => enter program stack index (cont.level.push result)

def begin (stack : List (Frame V P)) (index : ℕ) (frame : Frame V P) : Machine V P :=
  enter program (frame :: stack) index ⟨frame.body frame.attempt, []⟩

/-- Go on after the outcome of an attempt: whether it is a success, and what it returns. -/
def settle (js : Js V) (program : Program V P) (stack : List (Frame V P)) (index : ℕ)
    (frame : Frame V P) (verdict : Bool × Except V V) : Machine V P :=
  if verdict.1 = true ∨ frame.attempt = frame.policy.maxAttempts then
    enter program stack index (frame.outer.push verdict.2)
  else
    match retryDelayMs js frame.policy frame.attempt with
    | none =>
      enter program stack index
        (frame.outer.push (.error (js.typeError "durable retry delay is too large")))
    | some 0 => ⟨stack, index, .starting frame.next⟩
    | some (millis + 1) => ⟨stack, index, .asking (.sleep (millis + 1)) (.again frame)⟩

def start : Machine V P := enter program [] 0 ⟨program.main, []⟩

end Machine

namespace Js

/-- The record of an attempt whose callback has ended. -/
def outcome (js : Js V) : Except V V → V
  | .ok value => js.okOutcome value
  | .error error => js.failedOutcome (js.retryFailure error)

def verdict (js : Js V) : Except V V → Bool × Except V V
  | .ok value => (true, js.applyRetryOutcome (js.okOutcome value))
  | .error error => (false, .error (js.throwRetryFailure (js.retryFailure error)))

def replayed (js : Js V) (outcome : V) : Bool × Except V V :=
  (js.isOk outcome, js.applyRetryOutcome outcome)

end Js

end Tysel.Engine
