import Tysel.Algorithm.Engine.Api

/-! A runner is a handler together with the session it makes its host calls on. The runners of a
task share one store: they are opened from stored histories, advance by one host call at a
time, and disappear at any point. -/

namespace Tysel.Engine

open Tysel.Durable

variable {V P J α : Type}

/-- What a host call and the code around it read from outside: the outcome of the callback,
`Math.random()`, `Date.now()`, and the clock readings of the host. -/
structure Turn (V : Type) where
  callback : Except V V
  random : V
  nowMs : ℕ
  clock : ℤ
  clock₁ : ℤ
  clock₂ : ℤ

structure Runner (V P J : Type) where
  session : DurableSession J
  machine : Machine V P

namespace Runner

/-- Go on after a host call that only fails for good: the error of a store call stays with the
session, and so does the event that a lookup did not expect. -/
def after (x : Runner V P J) (result : Except SessionError α × DurableSession J × Db)
    (next : α → Machine V P) : Runner V P J × Db :=
  match result.1 with
  | .ok value => (⟨result.2.1, next value⟩, result.2.2)
  | .error error => (⟨result.2.1, { x.machine with phase := .ended error }⟩, result.2.2)

def goto (x : Runner V P J) (db : Db) (machine : Machine V P) : Runner V P J × Db :=
  (⟨x.session, machine⟩, db)

section

variable (S : Crates J) (js : Js V) (program : Program V P) (turn : Turn V) (x : Runner V P J)
  (db : Db)

def give (cont : Cont V P) (result : Except V V) : Machine V P :=
  Machine.give program x.machine.stack x.machine.retryIndex cont result

/-- Go on after a host call of a boundary, which can also fail for the moment. The handler sees
such an error as an exception. -/
def throwing (cont : Cont V P) (result : Except SessionError α × DurableSession J × Db)
    (next : α → Machine V P) : Runner V P J × Db :=
  match result.1 with
  | .ok _ | .error (.storage _) | .error (.replay _) => x.after result next
  | .error error => (⟨result.2.1, x.give program cont (.error (js.hostError error))⟩, result.2.2)

/-- The lookup of a boundary; a replayed sleep is completed at once. -/
def ask (boundary : Boundary) (cont : Cont V P) : Runner V P J × Db :=
  match boundary with
  | .input json =>
    x.after (x.session.recordInputJson S db json turn.clock turn.clock₁ turn.clock₂)
      fun text => x.give program cont (.ok (js.parse text))
  | .sleep millis =>
    let looked := x.session.lookupJson db .sleep (Boundary.sleep millis).key
    match looked.1 with
    | .ok (some _) =>
      x.throwing js program cont
        (looked.2.1.completeSleep db turn.clock turn.clock₁ turn.clock₂)
        fun _ => x.give program cont (.ok js.undefined)
    | _ => x.after looked fun _ => { x.machine with phase := .calling (.sleep millis) cont }
  | boundary =>
    x.after (x.session.lookupJson db boundary.kind boundary.key) fun found =>
      match found with
      | some found => x.give program cont (.ok (boundary.hand js (js.parse found.payload)))
      | none => { x.machine with phase := .calling boundary cont }

def recordValue (boundary : Boundary) (cont : Cont V P) (outcome : Except V V) :
    Runner V P J × Db :=
  match outcome with
  | .error error => x.goto db (x.give program cont (.error error))
  | .ok value =>
    match js.stringify value with
    | none =>
      x.goto db (x.give program cont
        (.error (js.typeError "durable values must be JSON serializable")))
    | some text =>
      x.after (x.session.record S db boundary.kind boundary.key text turn.nowMs turn.clock₁
          turn.clock₂)
        fun _ => x.give program cont (.ok (boundary.hand js value))

def live (boundary : Boundary) (cont : Cont V P) : Runner V P J × Db :=
  match boundary with
  | .input _ => (x, db)
  | .step name => x.recordValue S js program turn db (.step name) cont turn.callback
  | .effect name => x.recordValue S js program turn db (.effect name) cont turn.callback
  | .now => x.recordValue S js program turn db .now cont (.ok (js.number turn.nowMs))
  | .random => x.recordValue S js program turn db .random cont (.ok turn.random)
  | .sleep millis =>
    if turn.nowMs + millis ≤ maxSafeInteger then
      x.after (x.session.recordSleep S db (Boundary.sleep millis).key (js.durationJson millis)
          turn.nowMs (turn.nowMs + millis) turn.clock₁ turn.clock₂)
        fun _ => { x.machine with phase := .sleeping cont }
    else
      x.goto db (x.give program cont (.error (js.typeError "durable wakeup is too large")))
  | .signal name nonempty =>
    x.throwing js program cont
      (x.session.pollSignalJson S db name turn.clock turn.clock₁ turn.clock₂)
      fun found =>
        match found with
        | some text => x.give program cont (.ok (js.parse text))
        | none => { x.machine with phase := .waiting (.signal name nonempty) cont }

/-- `retryLookupOrRecord`; an exception is thrown by the retry. -/
def retryLookupOrRecord (frame : Frame V P) (key : String) (payload : Option String)
    (next : Machine V P) : Runner V P J × Db :=
  let looked := x.session.lookupJson db .retry key
  match looked.1 with
  | .ok none =>
    match payload with
    | none =>
      (⟨looked.2.1, x.give program (.resume frame.outer)
        (.error (js.typeError "durable values must be JSON serializable"))⟩, db)
    | some text =>
      x.after (looked.2.1.record S db .retry key text turn.nowMs turn.clock₁ turn.clock₂)
        fun _ => next
  | _ => x.after looked fun _ => next

def advance : Runner V P J × Db :=
  match x.machine.phase with
  | .asking boundary cont => x.ask S js program turn db boundary cont
  | .calling boundary cont => x.live S js program turn db boundary cont
  | .sleeping cont =>
    x.throwing js program cont
      (x.session.completeSleep db turn.clock turn.clock₁ turn.clock₂)
      fun _ => x.give program cont (.ok js.undefined)
  | .starting frame =>
    x.retryLookupOrRecord S js program turn db frame (frame.startKey js)
      (some (js.attemptJson frame.attempt)) { x.machine with phase := .finding frame }
  | .finding frame =>
    x.after (x.session.findRetryOutcomeJson db (frame.outcomeKey js)) fun found =>
      match found with
      | some found =>
        Machine.settle js program x.machine.stack x.machine.retryIndex frame
          (js.replayed (js.parse found.payload))
      | none => Machine.begin program x.machine.stack x.machine.retryIndex frame
  | .recording frame result =>
    x.retryLookupOrRecord S js program turn db frame (frame.outcomeKey js)
      (js.stringify (js.outcome result))
      (Machine.settle js program x.machine.stack x.machine.retryIndex frame (js.verdict result))
  | .waiting .. | .finished _ | .ended _ => (x, db)

end

end Runner

/-- The calls on the store that other parties make: none of them writes the history of the task,
except the admission that records its input. -/
def allowed (program : Program V P) (task : TaskId) : Op J → Bool
  | .appendEventJsonAt _ t .. | .appendEventJsonWithWakeupAt _ t .. | .appendEvent _ t ..
  | .appendEventWithWakeup _ t .. | .pollSignal _ t .. => t ≠ task
  | .admitModule t .. => t ≠ task || program.takesInput
  | .pruneCompleted .. => false
  | _ => true

structure Runs (V P J : Type) where
  db : Db
  runners : List (Runner V P J)

/-- What can happen next; a runner is named by its position. -/
inductive Event (V J : Type) where
  | store (op : Op J)
  | load (store : Option ExecutionClaim) (claim : Option WakeupClaim)
  | advance (runner : ℕ) (turn : Turn V)
  | crash (runner : ℕ)

namespace Runs

def start : Runs V P J := ⟨Db.fresh, []⟩

section

variable (S : Crates J) (js : Js V) (program : Program V P) (task : TaskId)

def step (w : Runs V P J) : Event V J → Runs V P J
  | .store op => if allowed program task op then { w with db := (call S w.db op).2 } else w
  | .load store claim =>
    match DurableSession.load S w.db store task claim with
    | .ok session => { w with runners := w.runners ++ [⟨session, Machine.start program⟩] }
    | .error _ => w
  | .advance i turn =>
    match w.runners[i]? with
    | some x =>
      { db := (x.advance S js program turn w.db).2
        runners := w.runners.set i (x.advance S js program turn w.db).1 }
    | none => w
  | .crash i => { w with runners := w.runners.eraseIdx i }

def after (events : List (Event V J)) : Runs V P J := events.foldl (step S js program task) start

end

end Runs

end Tysel.Engine
