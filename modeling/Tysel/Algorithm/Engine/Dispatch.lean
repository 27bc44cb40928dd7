import Tysel.Algorithm.Engine.Session

/-! The managed execution of durable tasks: admissions, claims and signals act on the store, and
each claim is executed by at most one session. A session makes its host calls one at a time,
a suspended session releases its claim, and an executor may disappear at any point. -/

namespace Tysel.Engine

open Tysel.Durable

variable {J : Type}

/-- The host calls of the JavaScript runtime, with the clock readings they take. -/
inductive HostCall where
  | recordInput (inputJson : String) (clock clock₁ clock₂ : ℤ)
  | lookup (kind : EventKind) (key : String)
  | findRetryOutcome (key : String)
  | record (kind : EventKind) (key payloadJson : String) (recordedAtMs : ℕ) (clock₁ clock₂ : ℤ)
  | recordSleep (key payloadJson : String) (recordedAtMs wakeAtMs : ℕ) (clock₁ clock₂ : ℤ)
  | completeSleep (clock clock₁ clock₂ : ℤ)
  | pollSignal (signalName : String) (clock clock₁ clock₂ : ℤ)

namespace DurableSession

def host (S : Crates J) (session : DurableSession J) (db : Db) : HostCall → DurableSession J × Db
  | .recordInput inputJson clock clock₁ clock₂ =>
    (session.recordInputJson S db inputJson clock clock₁ clock₂).2
  | .lookup kind key => (session.lookupJson db kind key).2
  | .findRetryOutcome key => (session.findRetryOutcomeJson db key).2
  | .record kind key payloadJson recordedAtMs clock₁ clock₂ =>
    (session.record S db kind key payloadJson recordedAtMs clock₁ clock₂).2
  | .recordSleep key payloadJson recordedAtMs wakeAtMs clock₁ clock₂ =>
    (session.recordSleep S db key payloadJson recordedAtMs wakeAtMs clock₁ clock₂).2
  | .completeSleep clock clock₁ clock₂ => (session.completeSleep db clock clock₁ clock₂).2
  | .pollSignal signalName clock clock₁ clock₂ =>
    (session.pollSignalJson S db signalName clock clock₁ clock₂).2

def reply (S : Crates J) (session : DurableSession J) (db : Db) :
    HostCall → Except SessionError Unit
  | .recordInput inputJson clock clock₁ clock₂ =>
    (session.recordInputJson S db inputJson clock clock₁ clock₂).1.map fun _ => ()
  | .lookup kind key => (session.lookupJson db kind key).1.map fun _ => ()
  | .findRetryOutcome key => (session.findRetryOutcomeJson db key).1.map fun _ => ()
  | .record kind key payloadJson recordedAtMs clock₁ clock₂ =>
    (session.record S db kind key payloadJson recordedAtMs clock₁ clock₂).1
  | .recordSleep key payloadJson recordedAtMs wakeAtMs clock₁ clock₂ =>
    (session.recordSleep S db key payloadJson recordedAtMs wakeAtMs clock₁ clock₂).1
  | .completeSleep clock clock₁ clock₂ => (session.completeSleep db clock clock₁ clock₂).1
  | .pollSignal signalName clock clock₁ clock₂ =>
    (session.pollSignalJson S db signalName clock clock₁ clock₂).1.map fun _ => ()

variable (session : DurableSession J)

/-- The host calls that the functions of the durable API make on a session in this state,
whichever of them a handler calls and whatever exceptions it catches. A boundary is recorded
only after its lookup has found the history used up, and a sleep that was found is completed at
once. A boundary that has suspended the session does not return in this run, so that `enter`
refuses every later one. A session with a storage error answers every call with it. -/
def issues (hostCall : HostCall) : Bool :=
  session.storageError.isSome || !session.suspended &&
    match hostCall with
    | .completeSleep .. => session.replayedSleep.isSome
    | .recordInput .. | .lookup .. | .findRetryOutcome _ => session.replayedSleep.isNone
    | .record .. | .recordSleep .. | .pollSignal .. =>
      session.replayedSleep.isNone && session.replay.ensureConsumed.toOption.isSome

def resolved : Bool := session.activeWakeup.isNone && !session.suspended

/-- The discipline that the `enter` guard of the durable API imposes on the host calls: no
boundary follows an unresolved sleep or wait, except the poll that resolves the wait the
session was resumed for. -/
def permits : HostCall → Bool
  | .recordInput .. =>
    session.resolved || decide (session.replay.position < session.replay.events.length)
  | .record .. | .recordSleep .. => session.resolved
  | .pollSignal .. =>
    !session.suspended && !(session.activeWakeup.any fun token => token.kind = .sleep)
  | .lookup .. | .findRetryOutcome _ | .completeSleep .. => true

end DurableSession

/-- An execution claim and, once it is opened, its session. -/
structure Executor (J : Type) where
  claim : ExecutionClaim
  session : Option (DurableSession J)

structure World (J : Type) where
  db : Db
  executors : List (Executor J)

/-- What can happen next; an executor is named by its position. -/
inductive Act (J : Type) where
  | admission (task : TaskId) (key source input : String) (time : ℕ)
  | claim (task : TaskId) (owner : String) (duration : ℕ) (drawn : Option String)
      (clock₁ clock₂ : ℤ)
  | signal (task : TaskId) (signalName : String) (payload : J) (sentAtMs : ℕ)
      (key : Option String)
  | openSession (executor : ℕ) (clock : ℤ)
  | host (executor : ℕ) (hostCall : HostCall)
  | suspend (executor : ℕ) (clock₁ clock₂ : ℤ)
  | fail (claim : ExecutionClaim) (clock₁ clock₂ : ℤ)
  | finish (store : Option ExecutionClaim) (task : TaskId) (expectedSequence : ℕ) (value : J)
      (completedAtMs : ℕ) (leaseUntilMs : Option ℕ) (clocks : FinishClocks)
  | crash (executor : ℕ)

namespace World

def store (S : Crates J) (w : World J) (op : Op J) : World J := { w with db := (call S w.db op).2 }

def granted : Outcome J → List (Executor J)
  | .ok (.execution (some claim)) => [⟨claim, none⟩]
  | _ => []

/-- One action. A session that cannot be opened is dropped; a host call that the discipline
forbids, and the suspension of a session that is not suspended, do not happen. -/
def step (S : Crates J) (w : World J) : Act J → World J
  | .admission task key source input time => w.store S (.admitModule task key source input time)
  | .claim task owner duration drawn clock₁ clock₂ =>
    { db := (call S w.db (.claimRun task owner duration drawn clock₁ clock₂)).2
      executors := w.executors ++
        granted (call S w.db (.claimRun task owner duration drawn clock₁ clock₂)).1 }
  | .signal task signalName payload sentAtMs key =>
    w.store S (.sendSignal task signalName payload sentAtMs key)
  | .openSession i clock =>
    match w.executors[i]? with
    | some ⟨claim, none⟩ =>
      match DurableSession.fromExecution S w.db claim clock with
      | .ok session => { w with executors := w.executors.set i ⟨claim, some session⟩ }
      | .error _ => { w with executors := w.executors.eraseIdx i }
    | _ => w
  | .host i hostCall =>
    match w.executors[i]? with
    | some ⟨claim, some session⟩ =>
      if session.permits hostCall then
        { db := (session.host S w.db hostCall).2
          executors := w.executors.set i ⟨claim, some (session.host S w.db hostCall).1⟩ }
      else w
    | _ => w
  | .suspend i clock₁ clock₂ =>
    match w.executors[i]? with
    | some ⟨claim, some session⟩ =>
      if session.suspended then
        { db := (call S w.db (.releaseRun claim false clock₁ clock₂)).2
          executors := w.executors.eraseIdx i }
      else w
    | _ => w
  | .fail claim clock₁ clock₂ => w.store S (.releaseRun claim true clock₁ clock₂)
  | .finish store task expectedSequence value completedAtMs leaseUntilMs clocks =>
    w.store S (.finishTask store task expectedSequence value completedAtMs leaseUntilMs clocks)
  | .crash i => { w with executors := w.executors.eraseIdx i }

def start : World J := ⟨Db.fresh, []⟩

def after (S : Crates J) (acts : List (Act J)) : World J := acts.foldl (step S) start

end World

end Tysel.Engine
