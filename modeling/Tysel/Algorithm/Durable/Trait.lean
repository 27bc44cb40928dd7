import Tysel.Algorithm.Durable.Operations
import Tysel.Algorithm.Durable.Postgres

/-! One constructor per method of the trait. The `store` argument is the execution claim a handle
was scoped to by `execution_store`; clock readings and owner tokens are arguments too, so that
both stores can be run on the same ones. -/

namespace Tysel.Durable

variable {J : Type}

inductive StoreCall (J : Type) where
  | admitModule (task : TaskId) (key source input : String) (nowMs : ℕ)
  | claimExecution (task : TaskId) (owner : String) (durationMs : ℕ) (drawn : Option String)
      (clock₁ clock₂ : ℤ)
  | executionFailed (task : TaskId)
  | finishExecution (claim : ExecutionClaim) (failed : Bool) (clock₁ clock₂ : ℤ)
  | sendSignalOnce (task : TaskId) (name : String) (payload : J) (key : String) (nowMs : ℕ)
  | completion (task : TaskId)
  | completeTask (store : Option ExecutionClaim) (task : TaskId) (expectedSequence : ℕ) (value : J)
      (completedAtMs : ℕ) (clocks : FinishClocks)
  | completeTaskBefore (store : Option ExecutionClaim) (task : TaskId) (expectedSequence : ℕ)
      (value : J) (leaseUntilMs : ℕ) (clocks : FinishClocks)
  | pruneCompleted (beforeMs limit : ℕ)
  | loadDueProgramsBatch (nowMs : ℕ) (kind : DurableProgramKind) (limit : ℕ)
  | logVersion
  | putProgram (task : TaskId) (source : String) (registeredAtMs : ℕ)
  | putModule (task : TaskId) (source : String) (registeredAtMs : ℕ)
  | program (task : TaskId)
  | loadDueProgramsByKind (nowMs : ℕ) (kind : DurableProgramKind)
  | removeProgram (task : TaskId)
  | programCount
  | appendEventJsonAt (store : Option ExecutionClaim) (task : TaskId) (expectedSequence : ℕ)
      (kind : EventKind) (key payloadJson : String) (recordedAtMs : ℕ) (clock₁ clock₂ : ℤ)
  | appendEventJsonWithWakeupAt (store : Option ExecutionClaim) (task : TaskId)
      (expectedSequence : ℕ) (key payloadJson : String) (recordedAtMs wakeAtMs : ℕ)
      (clock₁ clock₂ : ℤ)
  | loadHistory (task : TaskId)
  | claimDueWakeups (nowMs limit : ℕ) (leaseOwner : String) (leaseDurationMs : ℕ)
  | claimWakeup (task : TaskId) (nowMs : ℕ) (leaseOwner : String) (leaseDurationMs : ℕ)
  | completeWakeup (store : Option ExecutionClaim) (task : TaskId) (sequence : ℕ)
      (leaseOwner : Option String) (nowMs : ℕ) (clock₁ clock₂ : ℤ)
  | claimIsActive (claim : WakeupClaim) (nowMs : ℕ)
  | renewWakeupClaim (claim : WakeupClaim) (nowMs leaseDurationMs : ℕ)
  | releaseWakeupClaim (claim : WakeupClaim)
  | wakeup (task : TaskId)
  | signalWait (task : TaskId)
  | sendSignal (task : TaskId) (signalName : String) (payload : J) (sentAtMs : ℕ)
  | pollSignal (store : Option ExecutionClaim) (task : TaskId) (expectedSequence : ℕ)
      (signalName : String) (nowMs : ℕ) (claim : Option WakeupClaim) (clock₁ clock₂ : ℤ)

/-- What a method returns: the replies of the writing operations and the values of the reads. -/
inductive Answer (J : Type) where
  | reply (value : Reply J)
  | completion (value : Option (TaskCompletion J))
  | programs (value : List DurableProgram)
  | version (value : ℕ)
  | history (value : History J)
  | wakeup (value : Option Wakeup)
  | signalWait (value : Option SignalWait)

section Serving

variable {σ α : Type}

def answering (f : α → Answer J) (x : Except DurableError (α × σ)) :
    Except DurableError (Answer J × σ) :=
  x.map fun p => (f p.1, p.2)

def reading (f : α → Answer J) (s : σ) (x : Except DurableError α) :
    Except DurableError (Answer J × σ) :=
  x.map fun a => (f a, s)

def settle (s : σ) (x : Except DurableError (Answer J × σ)) : Except DurableError (Answer J) × σ :=
  match x with
  | .ok (answer, s') => (.ok answer, s')
  | .error e => (.error e, s)

end Serving

/-- The operation of the store that a writing method performs. -/
def StoreCall.op? : StoreCall J → Option (Op J)
  | .admitModule task key source input nowMs => some (.admitModule task key source input nowMs)
  | .claimExecution task owner duration drawn c₁ c₂ =>
    some (.claimRun task owner duration drawn c₁ c₂)
  | .finishExecution claim failed c₁ c₂ => some (.releaseRun claim failed c₁ c₂)
  | .sendSignalOnce task name payload key nowMs =>
    some (.sendSignal task name payload nowMs (some key))
  | .completeTask store task expected value time clocks =>
    some (.finishTask store task expected value time none clocks)
  | .completeTaskBefore store task expected value lease clocks =>
    some (.finishTask store task expected value 0 (some lease) clocks)
  | .pruneCompleted before limit => some (.pruneCompleted before limit)
  | .putProgram task source time => some (.putProgram task .script source time)
  | .putModule task source time => some (.putProgram task .module source time)
  | .removeProgram task => some (.removeProgram task)
  | .appendEventJsonAt store task expected kind key payload time c₁ c₂ =>
    some (.appendEventJsonAt store task expected kind key payload time c₁ c₂)
  | .appendEventJsonWithWakeupAt store task expected key payload time wake c₁ c₂ =>
    some (.appendEventJsonWithWakeupAt store task expected key payload time wake c₁ c₂)
  | .claimDueWakeups nowMs limit owner duration =>
    some (.claimDueWakeups nowMs limit owner duration)
  | .claimWakeup task nowMs owner duration => some (.claimWakeup task nowMs owner duration)
  | .completeWakeup store task sequence owner nowMs c₁ c₂ =>
    some (.completeWakeup store task sequence owner nowMs c₁ c₂)
  | .renewWakeupClaim claim nowMs duration => some (.renewWakeupClaim claim nowMs duration)
  | .releaseWakeupClaim claim => some (.releaseWakeupClaim claim)
  | .sendSignal task name payload time => some (.sendSignal task name payload time none)
  | .pollSignal store task expected name nowMs claim c₁ c₂ =>
    some (.pollSignal store task expected name nowMs claim c₁ c₂)
  | .executionFailed _ | .completion _ | .loadDueProgramsBatch .. | .logVersion | .program _
  | .loadDueProgramsByKind .. | .programCount | .loadHistory _ | .claimIsActive .. | .wakeup _
  | .signalWait _ => none

namespace Sqlite

def read (S : Crates J) (db : Db) : StoreCall J → Except DurableError (Answer J)
  | .executionFailed task => .ok (.reply (.bool (executionFailed db task)))
  | .completion task => (completion S db task).map .completion
  | .loadDueProgramsBatch nowMs kind limit =>
    (loadDueProgramsBatch S db nowMs kind limit).map .programs
  | .logVersion => (logVersion db).map .version
  | .program task => (selectProgram S db task).map fun p => .reply (.program p)
  | .loadDueProgramsByKind nowMs kind => (loadDueProgramsByKind S db nowMs kind).map .programs
  | .programCount => (programCount db).map fun n => .reply (.count n)
  | .loadHistory task => (loadHistory S db task).map .history
  | .claimIsActive claim nowMs => (claimIsActive db claim nowMs).map fun b => .reply (.bool b)
  | .wakeup task => .ok (.wakeup (wakeup db task))
  | .signalWait task => .ok (.signalWait (signalWait db task))
  | _ => .ok (.reply (.unit ()))

def serve (S : Crates J) (db : Db) (c : StoreCall J) : Except DurableError (Answer J × Db) :=
  match c.op? with
  | some op => answering .reply (perform S db op)
  | none => reading id db (read S db c)

def step (S : Crates J) (db : Db) (c : StoreCall J) : Except DurableError (Answer J) × Db :=
  settle db (serve S db c)

end Sqlite

namespace Postgres

def serve (S : Crates J) (nextval : ℕ → ℕ) (pg : PostgresDb) :
    StoreCall J → Except DurableError (Answer J × PostgresDb)
  | .admitModule task key source input nowMs =>
    answering (fun u => .reply (.unit u)) (admitModule S pg task key source input nowMs)
  | .claimExecution task owner duration drawn c₁ c₂ =>
    answering (fun c => .reply (.execution c)) (claimRun pg task owner duration drawn c₁ c₂)
  | .executionFailed task => reading (fun b => .reply (.bool b)) pg (.ok (executionFailed pg task))
  | .finishExecution claim failed c₁ c₂ =>
    answering (fun u => .reply (.unit u)) (releaseRun pg claim failed c₁ c₂)
  | .sendSignalOnce task name payload key nowMs =>
    answering (fun id => .reply (.signalId id))
      (sendSignalInner S nextval pg task name payload nowMs (some key))
  | .completion task => reading .completion pg (readCompletion S pg task)
  | .completeTask store task expected value time clocks =>
    answering (fun b => .reply (.bool b))
      (finishTask S store pg task expected value time none clocks)
  | .completeTaskBefore store task expected value lease clocks =>
    answering (fun b => .reply (.bool b))
      (finishTask S store pg task expected value 0 (some lease) clocks)
  | .pruneCompleted before limit =>
    answering (fun n => .reply (.count n)) (pruneFinished pg before limit)
  | .loadDueProgramsBatch nowMs kind limit =>
    reading .programs pg (loadDueProgramsBatch S pg nowMs kind limit)
  | .logVersion => reading .version pg (logVersion pg)
  | .putProgram task source time =>
    answering (fun p => .reply (.program p)) (putProgram S pg task source time)
  | .putModule task source time =>
    answering (fun p => .reply (.program p)) (putModule S pg task source time)
  | .program task => reading (fun p => .reply (.program p)) pg (program S pg task)
  | .loadDueProgramsByKind nowMs kind =>
    reading .programs pg (loadDueProgramsByKind S pg nowMs kind)
  | .removeProgram task => answering (fun p => .reply (.program p)) (removeProgram S pg task)
  | .programCount => reading (fun n => .reply (.count n)) pg (programCount pg)
  | .appendEventJsonAt store task expected kind key payload time c₁ c₂ =>
    answering (fun e => .reply (.event e))
      (appendEventJsonAt S store pg task expected kind key payload time c₁ c₂)
  | .appendEventJsonWithWakeupAt store task expected key payload time wake c₁ c₂ =>
    answering (fun e => .reply (.event e))
      (appendEventJsonWithWakeupAt S store pg task expected key payload time wake c₁ c₂)
  | .loadHistory task => reading .history pg (loadHistory S pg task)
  | .claimDueWakeups nowMs limit owner duration =>
    answering (fun cs => .reply (.wakeupClaims cs)) (claimDueWakeups pg nowMs limit owner duration)
  | .claimWakeup task nowMs owner duration =>
    answering (fun c => .reply (.wakeupClaim c)) (claimWakeup pg task nowMs owner duration)
  | .completeWakeup store task sequence owner nowMs c₁ c₂ =>
    answering (fun b => .reply (.bool b)) (completeWakeup store pg task sequence owner nowMs c₁ c₂)
  | .claimIsActive claim nowMs =>
    reading (fun b => .reply (.bool b)) pg (claimIsActive pg claim nowMs)
  | .renewWakeupClaim claim nowMs duration =>
    answering (fun c => .reply (.wakeupClaim c)) (renewWakeupClaim pg claim nowMs duration)
  | .releaseWakeupClaim claim =>
    answering (fun b => .reply (.bool b)) (releaseWakeupClaim pg claim)
  | .wakeup task => reading .wakeup pg (.ok (wakeup pg task))
  | .signalWait task => reading .signalWait pg (.ok (signalWait pg task))
  | .sendSignal task name payload time =>
    answering (fun id => .reply (.signalId id))
      (sendSignalInner S nextval pg task name payload time none)
  | .pollSignal store task expected name nowMs claim c₁ c₂ =>
    answering (fun e => .reply (.polled e))
      (pollSignal S store pg task expected name nowMs claim c₁ c₂)

def step (S : Crates J) (nextval : ℕ → ℕ) (pg : PostgresDb) (c : StoreCall J) :
    Except DurableError (Answer J) × PostgresDb :=
  settle pg (serve S nextval pg c)

end Postgres

end Tysel.Durable
