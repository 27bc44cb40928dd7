import Tysel.Shared.Run
import Tysel.Algorithm.Durable.Programs
import Tysel.Algorithm.Durable.Events
import Tysel.Algorithm.Durable.Signals
import Tysel.Algorithm.Durable.Execution
import Tysel.Algorithm.Durable.Lifecycle
import Tysel.Algorithm.Durable.Schema

/-! Every operation of the store that can write is one input; its `store` argument is the
execution claim the calling handle is scoped to, and its clock arguments are the readings
the operation takes. An operation that fails leaves the database as it was. -/

namespace Tysel.Durable

variable {J : Type} {S : Crates J} {e : DurableError} {db : Db}

inductive Op (J : Type) where
  | putProgram (task : TaskId) (kind : DurableProgramKind) (source : String) (registeredAtMs : ℕ)
  | removeProgram (task : TaskId)
  | appendEventJsonAt (store : Option ExecutionClaim) (task : TaskId) (expectedSequence : ℕ)
      (kind : EventKind) (key payloadJson : String) (recordedAtMs : ℕ) (clock₁ clock₂ : ℤ)
  | appendEventJsonWithWakeupAt (store : Option ExecutionClaim) (task : TaskId)
      (expectedSequence : ℕ) (key payloadJson : String) (recordedAtMs wakeAtMs : ℕ)
      (clock₁ clock₂ : ℤ)
  | appendEvent (store : Option ExecutionClaim) (task : TaskId) (expectedSequence : Option ℕ)
      (event : NewEvent J) (clock₁ clock₂ : ℤ)
  | appendEventWithWakeup (store : Option ExecutionClaim) (task : TaskId)
      (expectedSequence : Option ℕ) (event : NewEvent J) (wakeAtMs : ℕ) (clock₁ clock₂ : ℤ)
  | scheduleWakeup (wakeup : Wakeup)
  | claimDueWakeups (nowMs limit : ℕ) (leaseOwner : String) (leaseDurationMs : ℕ)
  | claimWakeup (task : TaskId) (nowMs : ℕ) (leaseOwner : String) (leaseDurationMs : ℕ)
  | completeWakeup (store : Option ExecutionClaim) (task : TaskId) (sequence : ℕ)
      (leaseOwner : Option String) (nowMs : ℕ) (clock₁ clock₂ : ℤ)
  | renewWakeupClaim (claim : WakeupClaim) (nowMs leaseDurationMs : ℕ)
  | releaseWakeupClaim (claim : WakeupClaim)
  | sendSignal (task : TaskId) (signalName : String) (payload : J) (sentAtMs : ℕ)
      (key : Option String)
  | pollSignal (store : Option ExecutionClaim) (task : TaskId) (expectedSequence : ℕ)
      (signalName : String) (nowMs : ℕ) (claim : Option WakeupClaim) (clock₁ clock₂ : ℤ)
  | admitModule (task : TaskId) (key source input : String) (time : ℕ)
  | claimRun (task : TaskId) (owner : String) (duration : ℕ) (drawn : Option String)
      (clock₁ clock₂ : ℤ)
  | releaseRun (claim : ExecutionClaim) (failed : Bool) (clock₁ clock₂ : ℤ)
  | finishTask (store : Option ExecutionClaim) (task : TaskId) (expectedSequence : ℕ) (value : J)
      (completedAtMs : ℕ) (leaseUntilMs : Option ℕ) (clocks : FinishClocks)
  | pruneCompleted (beforeMs limit : ℕ)
  | initializeSchema

inductive Reply (J : Type) where
  | unit (value : Unit)
  | bool (value : Bool)
  | count (value : ℕ)
  | signalId (id : ℕ)
  | program (existing : Option DurableProgram)
  | event (event : TaskEvent J)
  | polled (event : Option (TaskEvent J))
  | wakeupClaims (claims : List WakeupClaim)
  | wakeupClaim (claim : Option WakeupClaim)
  | execution (claim : Option ExecutionClaim)

abbrev Outcome (J : Type) := Except DurableError (Reply J)

def replying {α : Type} (f : α → Reply J) (x : Except DurableError (α × Db)) :
    Except DurableError (Reply J × Db) :=
  x.map fun p => (f p.1, p.2)

theorem replying_ok {α : Type} {f : α → Reply J} {x : Except DurableError (α × Db)} {r : Reply J}
    {db' : Db} : replying f x = .ok (r, db') ↔ ∃ a, x = .ok (a, db') ∧ r = f a := by
  cases x with
  | error => simp [replying, Except.map]
  | ok p =>
    obtain ⟨a, -⟩ := p
    simp only [replying, Except.map, Except.ok.injEq, Prod.mk.injEq]
    constructor
    · rintro ⟨rfl, rfl⟩
      exact ⟨a, ⟨rfl, rfl⟩, rfl⟩
    · rintro ⟨-, ⟨rfl, rfl⟩, rfl⟩
      exact ⟨rfl, rfl⟩

theorem replying_eq_error {α : Type} {f : α → Reply J} {x : Except DurableError (α × Db)} :
    replying f x = .error e ↔ x = .error e := by
  cases x with
  | error => simp [replying, Except.map]
  | ok => simp [replying, Except.map]

def perform (S : Crates J) (db : Db) : Op J → Except DurableError (Reply J × Db)
  | .putProgram task kind source time =>
    replying .program (putProgramInner S db task kind source time)
  | .removeProgram task => replying .program (removeProgram S db task)
  | .appendEventJsonAt store task expected kind key payload time c₁ c₂ =>
    replying .event (appendEventJsonAt S store db task expected kind key payload time c₁ c₂)
  | .appendEventJsonWithWakeupAt store task expected key payload time wake c₁ c₂ =>
    replying .event
      (appendEventJsonWithWakeupAt S store db task expected key payload time wake c₁ c₂)
  | .appendEvent store task expected event c₁ c₂ =>
    replying .event (appendEventInner S store db task expected event c₁ c₂)
  | .appendEventWithWakeup store task expected event wake c₁ c₂ =>
    replying .event (appendEventWithWakeupInner S store db task expected event wake c₁ c₂)
  | .scheduleWakeup w => replying .unit (scheduleWakeup db w)
  | .claimDueWakeups nowMs limit owner duration =>
    replying .wakeupClaims (claimDueWakeups db nowMs limit owner duration)
  | .claimWakeup task nowMs owner duration =>
    replying .wakeupClaim (claimWakeup db task nowMs owner duration)
  | .completeWakeup store task sequence owner nowMs c₁ c₂ =>
    replying .bool (completeWakeup store db task sequence owner nowMs c₁ c₂)
  | .renewWakeupClaim claim nowMs duration =>
    replying .wakeupClaim (renewWakeupClaim db claim nowMs duration)
  | .releaseWakeupClaim claim => replying .bool (releaseWakeupClaim db claim)
  | .sendSignal task name payload time key =>
    replying .signalId (sendSignalInner S db task name payload time key)
  | .pollSignal store task expected name nowMs claim c₁ c₂ =>
    replying .polled (pollSignal S store db task expected name nowMs claim c₁ c₂)
  | .admitModule task key source input time =>
    replying .unit (admitModule S db task key source input time)
  | .claimRun task owner duration drawn c₁ c₂ =>
    replying .execution (claimRun db task owner duration drawn c₁ c₂)
  | .releaseRun claim failed c₁ c₂ =>
    replying .unit (releaseRun db claim failed c₁ c₂)
  | .finishTask store task expected value time lease clocks =>
    replying .bool (finishTask S store db task expected value time lease clocks)
  | .pruneCompleted before limit => replying .count (pruneCompleted db before limit)
  | .initializeSchema => replying .unit (initializeSchema db)

def call (S : Crates J) (db : Db) (op : Op J) : Outcome J × Db :=
  match perform S db op with
  | .ok (reply, db') => (.ok reply, db')
  | .error e => (.error e, db)

theorem call_of_ok {db' : Db} {op : Op J} {r : Reply J}
    (h : perform S db op = .ok (r, db')) : call S db op = (.ok r, db') := by
  simp [call, h]

theorem call_of_error {op : Op J}
    (h : perform S db op = .error e) : call S db op = (.error e, db) := by
  simp [call, h]

theorem call_cases (S : Crates J) (db : Db) (op : Op J) :
    (∃ e, perform S db op = .error e ∧ call S db op = (.error e, db)) ∨
      ∃ r db', perform S db op = .ok (r, db') ∧ call S db op = (.ok r, db') := by
  cases h : perform S db op with
  | error e => exact .inl ⟨e, rfl, call_of_error h⟩
  | ok p =>
    obtain ⟨r, db'⟩ := p
    exact .inr ⟨r, db', rfl, call_of_ok h⟩

/-- A call that fails leaves the store, so only what its operation commits has to be looked at. -/
theorem call_state {op : Op J} {P : Db → Prop} {α : Type}
    {f : α → Reply J} {x : Except DurableError (α × Db)} (hop : perform S db op = replying f x)
    (hsame : P db) (hok : ∀ a db', x = .ok (a, db') → P db') : P (call S db op).2 := by
  rcases call_cases S db op with ⟨e, -, hcall⟩ | ⟨r, db', hr, hcall⟩
  · rwa [hcall]
  · rw [hcall]
    obtain ⟨a, ha, -⟩ := replying_ok.mp (hop.symm.trans hr)
    exact hok a db' ha

abbrev Call (J : Type) := Entry Db (Op J) (Outcome J)

theorem entry_unchanged_of_error {op : Op J}
    (h : (entry (call S) db op).output = .error e) : (entry (call S) db op).after = db := by
  rcases call_cases S db op with ⟨_, -, hcall⟩ | ⟨_, _, -, hcall⟩
  · simp [entry, hcall]
  · simp [entry, hcall] at h

/-- The task whose rows a call addresses; batch operations address none in particular. -/
def Op.task? : Op J → Option TaskId
  | .putProgram task .. | .removeProgram task | .appendEventJsonAt _ task ..
  | .appendEventJsonWithWakeupAt _ task .. | .appendEvent _ task ..
  | .appendEventWithWakeup _ task .. | .claimWakeup task .. | .completeWakeup _ task ..
  | .sendSignal task .. | .pollSignal _ task .. | .admitModule task .. | .claimRun task ..
  | .finishTask _ task .. => some task
  | .scheduleWakeup w => some w.taskId
  | .renewWakeupClaim claim .. => some claim.taskId
  | .releaseWakeupClaim claim => some claim.taskId
  | .releaseRun claim .. => some claim.taskId
  | .claimDueWakeups .. | .pruneCompleted .. | .initializeSchema => none

def Op.isPrune : Op J → Bool
  | .pruneCompleted .. => true
  | _ => false

def Op.isPoll : Op J → Bool
  | .pollSignal .. => true
  | _ => false

/-- `prune_completed` deleted the task's rows in this call. -/
def Call.Prunes (c : Call J) (task : TaskId) : Prop :=
  c.input.isPrune = true ∧ (c.before.completions.get? task).isSome ∧
    c.after.completions.get? task = none

instance (c : Call J) (task : TaskId) : Decidable (c.Prunes task) :=
  inferInstanceAs (Decidable (_ ∧ _ ∧ _))

end Tysel.Durable
