import Tysel.Algorithm.Durable.Operations

/-! `DurableSession` of the JavaScript engine: one execution of a task over its stored history.
A method returns its reply, the session after it and the store after it. A storage error is
kept in the session, and every later method fails with it. -/

namespace Tysel.Durable

variable {J : Type}

structure ReplayCursor (J : Type) where
  events : List (TaskEvent J)
  position : ℕ

inductive ReplayError where
  | mismatch (sequence : ℕ) (expectedKind : EventKind) (expectedKey : String)
      (actualKind : EventKind) (actualKey : String)
  | historyRemaining (sequence : ℕ) (kind : EventKind) (key : String)
  deriving DecidableEq, Repr

def History.replay (history : History J) : ReplayCursor J := ⟨history.events, 0⟩

namespace ReplayCursor

variable (cursor : ReplayCursor J)

/-- Consume the next recorded boundary. `none` means that execution has reached a boundary
that is not in the history yet. -/
def consumeEvent (kind : EventKind) (key : String) :
    Except ReplayError (Option (TaskEvent J) × ReplayCursor J) :=
  match cursor.events[cursor.position]? with
  | none => .ok (none, cursor)
  | some event =>
    if event.kind ≠ kind ∨ event.key ≠ key then
      .error (.mismatch event.sequence event.kind event.key kind key)
    else .ok (some event, { cursor with position := cursor.position + 1 })

/-- Consume through a matching future event; `none` leaves the cursor unchanged. -/
def consumeThrough (kind : EventKind) (key : String) : Option (TaskEvent J) × ReplayCursor J :=
  match (cursor.events.drop cursor.position).findIdx? fun event =>
      event.kind = kind ∧ event.key = key with
  | none => (none, cursor)
  | some offset =>
    (cursor.events[cursor.position + offset]?,
      { cursor with position := cursor.position + offset + 1 })

def ensureConsumed : Except ReplayError Unit :=
  match cursor.events[cursor.position]? with
  | some event => .error (.historyRemaining event.sequence event.kind event.key)
  | none => .ok ()

end ReplayCursor

end Tysel.Durable

namespace Tysel.Engine

open Tysel.Durable

variable {J α β : Type}

inductive WakeupKind where
  | sleep | signal
  deriving DecidableEq, Repr

structure WakeupToken where
  sequence : ℕ
  kind : WakeupKind
  claim : Option WakeupClaim
  deriving DecidableEq

/-- The error texts of the session methods, by their cause. -/
inductive SessionError where
  | storage (error : DurableError)
  | replay (error : ReplayError)
  | clock
  | notDueUntil (wakeAtMs : ℕ)
  | claimMissingOrExpired
  | historyTooLarge
  | noSuspendedBoundary
  | noActiveWakeup
  | wakeupOfSignalWait
  | wakeupOwnershipLost
  deriving DecidableEq, Repr

structure DurableSession (J : Type) where
  store : Option ExecutionClaim
  taskId : TaskId
  replay : ReplayCursor J
  nextSequence : ℕ
  activeWakeup : Option WakeupToken
  suspended : Bool
  leaseUntilMs : Option ℕ
  replayedSleep : Option ℕ
  storageError : Option DurableError

def unixTimeMs (clock : ℤ) : Except SessionError ℕ :=
  if 0 ≤ clock ∧ clock < 2 ^ 64 then .ok clock.toNat else .error .clock

/-- The outcome of a store call whose error becomes a message. -/
def describe (x : Except DurableError α) : Except SessionError α := x.mapError .storage

namespace DurableSession

variable (S : Crates J) (session : DurableSession J) (db : Db) (task : TaskId)

def wakeupToken (events : List (TaskEvent J)) (nextSequence : ℕ) (claim : WakeupClaim) :
    Except SessionError WakeupToken :=
  if nextSequence = claim.sequence + 1 ∧
      events.getLast?.any fun event => event.sequence = claim.sequence ∧ event.kind = .sleep then
    .ok ⟨claim.sequence, .sleep, some claim⟩
  else if nextSequence = claim.sequence ∧
      (signalWait db task).any fun wait => wait.sequence = claim.sequence then
    .ok ⟨claim.sequence, .signal, some claim⟩
  else .error .noSuspendedBoundary

def sequenceAfter (events : List (TaskEvent J)) : Except SessionError ℕ :=
  match events.getLast? with
  | none => .ok 0
  | some event =>
    match checkedAdd event.sequence 1 with
    | some next => .ok next
    | none => .error .historyTooLarge

def activeToken (events : List (TaskEvent J)) (nextSequence : ℕ) (claim : Option WakeupClaim) :
    Except SessionError (Option WakeupToken) :=
  match claim with
  | none => .ok none
  | some claim => do
      let token ← wakeupToken db task events nextSequence claim
      return some token

def load (store : Option ExecutionClaim) (task : TaskId) (claim : Option WakeupClaim) :
    Except SessionError (DurableSession J) := do
  let history ← describe (loadHistory S db task)
  let nextSequence ← sequenceAfter history.events
  let activeWakeup ← activeToken db task history.events nextSequence claim
  return {
    store := store
    taskId := task
    replay := history.replay
    nextSequence := nextSequence
    activeWakeup := activeWakeup
    suspended := false
    leaseUntilMs := claim.map WakeupClaim.leaseUntilMs
    replayedSleep := none
    storageError := none }

def fromClaim (store : Option ExecutionClaim) (claim : WakeupClaim) (clock : ℤ) :
    Except SessionError (DurableSession J) := do
  let nowMs ← unixTimeMs clock
  reject (nowMs < claim.wakeAtMs) (.notDueUntil claim.wakeAtMs)
  let active ← describe (claimIsActive db claim nowMs)
  reject (active = false) .claimMissingOrExpired
  load S db store claim.taskId (some claim)

/-- A session scoped to an execution claim, and resumed from its wakeup if it has one. -/
def fromExecution (claim : ExecutionClaim) (clock : ℤ) :
    Except SessionError (DurableSession J) := do
  let session ← match claim.wakeup with
    | some wakeup => fromClaim S db (some claim) wakeup clock
    | none => load S db (some claim) claim.taskId none
  return { session with leaseUntilMs := some claim.leaseUntilMs }

def checked (method : Except SessionError α × DurableSession J × Db) :
    Except SessionError α × DurableSession J × Db :=
  match session.storageError with
  | some error => (.error (.storage error), session, db)
  | none => method

def captureStorage (error : DurableError) : DurableSession J :=
  { session with storageError := some (session.storageError.getD error) }

/-- The continuation of a method after its store call. -/
def stored (result : Except DurableError (α × Db))
    (next : α → Except SessionError β × DurableSession J) :
    Except SessionError β × DurableSession J × Db :=
  match result with
  | .error error => (.error (.storage error), session.captureStorage error, db)
  | .ok (value, db') => ((next value).1, (next value).2, db')

/-- What a lookup reports about a replayed event. -/
structure Found where
  payload : String
  sequence : ℕ
  recordedAtMs : ℕ

def found (event : TaskEvent J) : Found := ⟨event.payloadJson, event.sequence, event.recordedAtMs⟩

def lookupJson (kind : EventKind) (key : String) :
    Except SessionError (Option Found) × DurableSession J × Db :=
  session.checked db <|
    match session.replay.consumeEvent kind key with
    | .error error => (.error (.replay error), session, db)
    | .ok (event, replay) =>
      (.ok (event.map found), { session with
          replay := replay
          replayedSleep := if kind = .sleep then event.map TaskEvent.sequence else none }, db)

def findRetryOutcomeJson (key : String) :
    Except SessionError (Option Found) × DurableSession J × Db :=
  session.checked db
    (.ok ((session.replay.consumeThrough .retry key).1.map found),
      { session with replay := (session.replay.consumeThrough .retry key).2 }, db)

def record (kind : EventKind) (key payloadJson : String) (recordedAtMs : ℕ) (clock₁ clock₂ : ℤ) :
    Except SessionError Unit × DurableSession J × Db :=
  session.checked db <|
    session.stored db (appendEventJsonAt S session.store db session.taskId session.nextSequence
        kind key payloadJson recordedAtMs clock₁ clock₂) fun stored =>
      (.ok (), { session with nextSequence := stored.sequence + 1 })

/-- The input of a module task is its first boundary. -/
def recordInputJson (inputJson : String) (clock clock₁ clock₂ : ℤ) :
    Except SessionError String × DurableSession J × Db :=
  session.checked db <|
    match session.replay.consumeEvent .step taskInputKey with
    | .error error => (.error (.replay error), session, db)
    | .ok (some event, replay) => (.ok event.payloadJson, { session with replay := replay }, db)
    | .ok (none, _) =>
      match unixTimeMs clock with
      | .error error => (.error error, session, db)
      | .ok nowMs =>
        session.stored db (appendEventJsonAt S session.store db session.taskId
            session.nextSequence .step taskInputKey inputJson nowMs clock₁ clock₂)
          fun stored =>
            (.ok stored.payloadJson, { session with nextSequence := stored.sequence + 1 })

def asleep (sequence : ℕ) : DurableSession J :=
  { session with
    nextSequence := sequence + 1
    activeWakeup := some ⟨sequence, .sleep, none⟩
    suspended := true }

def recordSleep (key payloadJson : String) (recordedAtMs wakeAtMs : ℕ) (clock₁ clock₂ : ℤ) :
    Except SessionError Unit × DurableSession J × Db :=
  session.checked db <|
    session.stored db (appendEventJsonWithWakeupAt S session.store db session.taskId
        session.nextSequence key payloadJson recordedAtMs wakeAtMs clock₁ clock₂) fun stored =>
      (.ok (), session.asleep stored.sequence)

/-- A replayed sleep that is not the one the session was resumed for. -/
def sleepElapsed : Bool :=
  session.replayedSleep.any fun sequence =>
    !(session.activeWakeup.any fun token => token.kind = .sleep && token.sequence = sequence)

/-- `complete_sleep` after its storage check; the replayed sleep has been taken. -/
def finishSleep (clock clock₁ clock₂ : ℤ) : Except SessionError Unit × DurableSession J × Db :=
  match session.activeWakeup with
  | none => (.error .noActiveWakeup, session, db)
  | some token =>
    if token.kind ≠ .sleep then (.error .wakeupOfSignalWait, session, db)
    else
      match unixTimeMs clock with
      | .error error => (.error error, session, db)
      | .ok nowMs =>
        session.stored db (completeWakeup session.store db session.taskId token.sequence
            (token.claim.map WakeupClaim.leaseOwner) nowMs clock₁ clock₂) fun completed =>
          if completed then (.ok (), { session with activeWakeup := none, suspended := false })
          else (.error .wakeupOwnershipLost, session)

def completeSleep (clock clock₁ clock₂ : ℤ) : Except SessionError Unit × DurableSession J × Db :=
  session.checked db <|
    if session.sleepElapsed then (.ok (), { session with replayedSleep := none }, db)
    else finishSleep { session with replayedSleep := none } db clock clock₁ clock₂

def signalClaim : Option WakeupClaim :=
  (session.activeWakeup.filter fun token => token.kind = .signal).bind WakeupToken.claim

def signalled (sequence : ℕ) : DurableSession J :=
  { session with
    nextSequence := sequence + 1
    activeWakeup := session.activeWakeup.filter fun token =>
      !(token.kind = .signal && token.sequence = sequence)
    suspended := false }

def pollSignalJson (signalName : String) (clock clock₁ clock₂ : ℤ) :
    Except SessionError (Option String) × DurableSession J × Db :=
  session.checked db <|
    match unixTimeMs clock with
    | .error error => (.error error, session, db)
    | .ok nowMs =>
      session.stored db (pollSignal S session.store db session.taskId session.nextSequence
          signalName nowMs session.signalClaim clock₁ clock₂) fun event =>
        match event with
        | some event => (.ok (some (S.toStr event.payload)), session.signalled event.sequence)
        | none => (.ok none, { session with suspended := true })

end DurableSession

end Tysel.Engine
