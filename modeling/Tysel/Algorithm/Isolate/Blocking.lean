import Tysel.Algorithm.Isolate.Supervisor

/-! The work of a call is a task of the blocking pool. `run_blocking` waits for the task of a file
call, and `wait_or_interrupt` for that of an SQLite call: one that opens the connection, then
one with the statement. -/

namespace Tysel.Isolate

inductive Waiter where
  | runBlocking
  | waitOrInterrupt
  deriving DecidableEq

inductive BlockingTask (α : Type) where
  | queued
  | started
  | finished (result : Except String α)

inductive BlockingStage (α : Type) where
  | start
  /-- The waiter polls the task, or has noticed the interruption and awaits the task. -/
  | pending (task : BlockingTask α) (noticed : Bool)
  | resolved (result : Except String α)

structure BlockingCall (α : Type) where
  waiter : Waiter
  /-- The flag of the call is set, or its deadline has passed. -/
  interruption : Option InterruptReason := none
  stage : BlockingStage α := .start
  /-- What the work returned. -/
  ran : Option (Except String α) := none

inductive BlockingEvent (α : Type) where
  | cancel
  | expire
  | poll
  /-- The task checks the flag and the deadline, and starts its work. -/
  | take
  /-- The work ends. A statement that the waiter has interrupted may fail. -/
  | finish (result : Except String α)

namespace BlockingCall

variable {α : Type} (call : BlockingCall α)

/-- What the waiter makes of the result of the task. Only `wait_or_interrupt` keeps a value that
comes late. -/
def settle : Bool → Except String α → Except String α
  | false, result => result
  | true, result => match call.waiter, result with
    | .waitOrInterrupt, .ok value => .ok value
    | _, _ => .error (call.interruption.getD .cancelled).debug

def next (event : BlockingEvent α) : BlockingCall α :=
  match event, call.stage, call.interruption with
  | .cancel, _, _ => { call with interruption := some .cancelled }
  | .expire, _, none => { call with interruption := some .timeout }
  | .poll, .start, some reason => { call with stage := .resolved (.error reason.debug) }
  | .poll, .start, none => { call with stage := .pending .queued false }
  | .poll, .pending (.finished result) noticed, _ =>
    { call with stage := .resolved (call.settle noticed result) }
  | .poll, .pending task _, some _ => { call with stage := .pending task true }
  | .take, .pending .queued noticed, some reason =>
    { call with stage := .pending (.finished (.error reason.debug)) noticed }
  | .take, .pending .queued noticed, none => { call with stage := .pending .started noticed }
  | .finish result, .pending .started noticed, _ =>
    { call with stage := .pending (.finished result) noticed, ran := some result }
  | _, _, _ => call

def step (event : BlockingEvent α) : Unit × BlockingCall α := ((), call.next event)

/-- A poll notices the interruption. `wait_or_interrupt` then calls `interrupt`. -/
def notices : Bool :=
  match call.stage, call.interruption with
  | .pending (.finished _) _, _ => false
  | .pending _ false, some _ => true
  | _, _ => false

end BlockingCall

/-- A call of SQLite. One without a statement only opens the connection. -/
structure SqliteCall (δ α : Type) where
  call : BlockingCall α := { waiter := .waitOrInterrupt }
  statement : Option (δ → Except String α × δ)
  /-- What an interrupted statement leaves. -/
  aborted : δ → δ

structure Sqlite (δ α : Type) where
  db : δ
  calls : List (SqliteCall δ α)
  /-- The call that holds the connection, and whether `interrupt` was called since. -/
  conn : Option (ℕ × Bool) := none

inductive SqliteEvent (α : Type) where
  | call (event : BlockingEvent α)
  | lock
  /-- The statement ends. It may do so before it sees that it is interrupted. -/
  | finish (sees : Bool)

namespace Sqlite

variable {δ α : Type}

def act (s : Sqlite δ α) (i : ℕ) (c : SqliteCall δ α) (event : SqliteEvent α) : Sqlite δ α :=
  let put event := s.calls.set i { c with call := c.call.next event }
  match event, c.statement, c.call.stage with
  | .call .poll, _, _ =>
    ⟨s.db, put .poll, if c.call.notices then s.conn.map fun c => (c.1, true) else s.conn⟩
  | .call (.finish _), some _, _ => s
  | .call event, _, _ => ⟨s.db, put event, s.conn⟩
  | .lock, some _, .pending .started _ =>
    if s.conn = none then { s with conn := some (i, false) } else s
  | .finish sees, some statement, .pending .started _ =>
    if s.conn = some (i, true) ∧ sees then
      ⟨c.aborted s.db, put (.finish (.error "interrupted")), none⟩
    else if s.conn.map Prod.fst = some i then
      ⟨(statement s.db).2, put (.finish (statement s.db).1), none⟩
    else s
  | _, _, _ => s

def step (s : Sqlite δ α) (event : ℕ × SqliteEvent α) : Unit × Sqlite δ α :=
  ((), match s.calls[event.1]? with
    | some c => s.act event.1 c event.2
    | none => s)

end Sqlite

end Tysel.Isolate
