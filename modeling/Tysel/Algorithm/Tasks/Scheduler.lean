import Tysel.Model.Tasks.Types
import Tysel.Algorithm.Durable.Common

/-! `Scheduler` of the `tysel-scheduler` crate: a bounded queue with cancellation, deadlines and
worker claims. An operation returns its result and the scheduler it leaves, also when it
fails. -/

namespace Tysel.Tasks

open Tysel.Durable (TaskId checkedAdd)

variable {J : Type}

def maxLeaseOwnerBytes : ℕ := 128
def maxLeaseMs : ℕ := 24 * 60 * 60 * 1000

structure TaskClaim (J : Type) where
  task : Task J
  generation : ℕ
  leaseOwner : String
  leaseUntilMs : ℕ

structure ActiveClaim where
  generation : ℕ
  leaseOwner : String
  leaseUntilMs : ℕ
  deriving DecidableEq

structure Scheduler (J : Type) where
  capacity : ℕ
  queue : List TaskId
  tasks : Table TaskId (Task J)
  claims : Table TaskId ActiveClaim
  generations : Table TaskId ℕ

inductive SchedulerError where
  | invalidCapacity
  | full (capacity : ℕ)
  | duplicate (id : TaskId)
  | unknown (id : TaskId)
  | invalidLeaseOwner
  | invalidLeaseDuration
  | timeRange
  | generationExhausted
  | leaseLost
  | invalidClaimOutcome (state : TaskState)
  | invalidTransition (error : TaskTransitionError)
  deriving DecidableEq, Repr

def isWorkerChar (c : Char) : Bool :=
  c.isAlphanum || c = '.' || c = '_' || c = ':' || c = '@' || c = '-'

def validateLeaseOwner (leaseOwner : String) : Except SchedulerError Unit :=
  reject (leaseOwner = "" ∨ maxLeaseOwnerBytes < leaseOwner.utf8ByteSize ∨
    leaseOwner.toList.all isWorkerChar = false) .invalidLeaseOwner

def validateLease (leaseOwner : String) (leaseMs : ℕ) : Except SchedulerError Unit := do
  validateLeaseOwner leaseOwner
  reject (leaseMs = 0 ∨ maxLeaseMs < leaseMs) .invalidLeaseDuration

def leaseDeadline (nowMs leaseMs : ℕ) : Except SchedulerError ℕ :=
  match checkedAdd nowMs leaseMs with
  | some leaseUntilMs => .ok leaseUntilMs
  | none => .error .timeRange

/-- The states that a task enters without its claim. -/
def TaskState.dropsClaim (state : TaskState) : Bool :=
  state = .queued || state = .suspended || state = .retrying || state.isTerminal

namespace Scheduler

def new (capacity : ℕ) : Except SchedulerError (Scheduler J) := do
  reject (capacity = 0) .invalidCapacity
  return ⟨capacity, [], ∅, ∅, ∅⟩

variable (s : Scheduler J) (id : TaskId)

def admitted (task : Task J) : Scheduler J :=
  { s with
    queue := s.queue ++ [task.info.id]
    tasks := s.tasks.insert task.info.id task }

def enqueue (task : Task J) : Except SchedulerError Unit × Scheduler J :=
  if (s.tasks.get? task.info.id).isSome then (.error (.duplicate task.info.id), s)
  else if s.capacity ≤ s.queue.length then (.error (.full s.capacity), s)
  else
    match task.transition .queued with
    | .error e => (.error (.invalidTransition e), s)
    | .ok task => (.ok (), s.admitted task)

def requeued (queue : List TaskId) (id : TaskId) (next : TaskState) : List TaskId :=
  if next = .queued then queue ++ [id]
  else if next.isTerminal then queue.filter (· ≠ id)
  else queue

def moved (task : Task J) : Scheduler J :=
  { s with
    queue := requeued s.queue id task.state
    tasks := s.tasks.insert id task
    claims := if task.state.dropsClaim then s.claims.erase id else s.claims }

def transition (s : Scheduler J) (id : TaskId) (next : TaskState) :
    Except SchedulerError (Task J) × Scheduler J :=
  match s.tasks.get? id with
  | none => (.error (.unknown id), s)
  | some task =>
    if next = .queued ∧ s.capacity ≤ s.queue.length then (.error (.full s.capacity), s)
    else
      match task.transition next with
      | .error e => (.error (.invalidTransition e), s)
      | .ok task => (.ok task, s.moved id task)

def cancel : Except SchedulerError (Task J) × Scheduler J :=
  match s.tasks.get? id with
  | none => (.error (.unknown id), s)
  | some task => if task.state.isTerminal then (.ok task, s) else s.transition id .canceled

/-- The loop of `peek_runnable`. Every turn shortens the queue, so its length is enough fuel. -/
def peekLoop (nowMs : ℕ) : ℕ → Scheduler J → Except SchedulerError (Option (Task J)) × Scheduler J
  | 0, s => (.ok none, s)
  | fuel + 1, s =>
    match s.queue with
    | [] => (.ok none, s)
    | id :: rest =>
      match s.tasks.get? id with
      | none => (.error (.unknown id), s)
      | some task =>
        if task.deadlineReached nowMs then
          andThen (transition { s with queue := rest } id .timedOut) fun _ s =>
            peekLoop nowMs fuel s
        else (.ok (some task), s)

/-- Inspect the next runnable task; overdue queued tasks are finalized on the way. -/
def peekRunnable (nowMs : ℕ) : Except SchedulerError (Option (Task J)) × Scheduler J :=
  peekLoop nowMs s.queue.length s

/-- The end of `claim`: the head leaves the queue and its task begins an attempt. -/
def start : Except SchedulerError (Option (Task J)) × Scheduler J :=
  match s.queue with
  | [] => (.error (.unknown id), s)
  | _ :: rest =>
    match s.tasks.get? id with
    | none => (.error (.unknown id), { s with queue := rest })
    | some task =>
      match task.beginAttempt with
      | .error e => (.error (.invalidTransition e), { s with queue := rest })
      | .ok task => (.ok (some task), { s with queue := rest, tasks := s.tasks.insert id task })

def claim (nowMs : ℕ) : Except SchedulerError (Option (Task J)) × Scheduler J :=
  andThen (s.peekRunnable nowMs) fun next s =>
    match next with
    | none => (.ok none, s)
    | some next => s.start next.info.id

def granted (claim : ActiveClaim) : Scheduler J :=
  { s with
    claims := s.claims.insert id claim
    generations := s.generations.insert id claim.generation }

def nextGeneration : Option ℕ := checkedAdd ((s.generations.get? id).getD 0) 1

def claimWithLease (nowMs : ℕ) (leaseOwner : String) (leaseMs : ℕ) :
    Except SchedulerError (Option (TaskClaim J)) × Scheduler J :=
  match validateLease leaseOwner leaseMs >>= fun _ => leaseDeadline nowMs leaseMs with
  | .error e => (.error e, s)
  | .ok leaseUntilMs =>
    andThen (s.claim nowMs) fun task s =>
      match task with
      | none => (.ok none, s)
      | some task =>
        match s.nextGeneration task.info.id with
        | none =>
          andThen (s.transition task.info.id .retrying) fun _ s =>
            andThen (s.transition task.info.id .queued) fun _ s =>
              (.error .generationExhausted, s)
        | some generation =>
          (.ok (some ⟨task, generation, leaseOwner, leaseUntilMs⟩),
            s.granted task.info.id ⟨generation, leaseOwner, leaseUntilMs⟩)

def requireLiveClaim (claim : TaskClaim J) (nowMs : ℕ) : Except SchedulerError ActiveClaim :=
  match s.claims.get? claim.task.info.id with
  | none => .error .leaseLost
  | some active =>
    if active.generation ≠ claim.generation ∨ active.leaseOwner ≠ claim.leaseOwner ∨
        active.leaseUntilMs ≤ nowMs then .error .leaseLost
    else .ok active

def renewed (leaseUntilMs : ℕ) : Scheduler J :=
  { s with claims := s.claims.modify id fun active => { active with leaseUntilMs } }

def renewClaim (claim : TaskClaim J) (nowMs leaseMs : ℕ) :
    Except SchedulerError (TaskClaim J) × Scheduler J :=
  match validateLease claim.leaseOwner leaseMs >>= fun _ => leaseDeadline nowMs leaseMs with
  | .error e => (.error e, s)
  | .ok leaseUntilMs =>
    match s.requireLiveClaim claim nowMs with
    | .error e => (.error e, s)
    | .ok active =>
      match s.tasks.get? claim.task.info.id with
      | none =>
        (.error (.unknown claim.task.info.id), s.renewed claim.task.info.id leaseUntilMs)
      | some task =>
        (.ok ⟨task, active.generation, active.leaseOwner, leaseUntilMs⟩,
          s.renewed claim.task.info.id leaseUntilMs)

/-- The states in which a worker may finish its claim. -/
def finishes : TaskState → Bool
  | .suspended | .completed | .failed | .canceled | .timedOut => true
  | _ => false

def finishClaim (claim : TaskClaim J) (nowMs : ℕ) (next : TaskState) :
    Except SchedulerError (Task J) × Scheduler J :=
  if finishes next then
    match s.requireLiveClaim claim nowMs with
    | .error e => (.error e, s)
    | .ok _ => s.transition claim.task.info.id next
  else (.error (.invalidClaimOutcome next), s)

/-- The two transitions that put a claimed task back into the queue. -/
def retry : Except SchedulerError (Task J) × Scheduler J :=
  andThen (s.transition id .retrying) fun _ s => s.transition id .queued

/-- Release a live claim back to the queue; a task past its deadline times out instead, and a
full queue leaves the claim as it is. -/
def releaseClaim (claim : TaskClaim J) (nowMs : ℕ) : Except SchedulerError (Task J) × Scheduler J :=
  match s.requireLiveClaim claim nowMs with
  | .error e => (.error e, s)
  | .ok _ =>
    match s.tasks.get? claim.task.info.id with
    | none => (.error (.unknown claim.task.info.id), s)
    | some task =>
      if task.deadlineReached nowMs then s.transition claim.task.info.id .timedOut
      else if s.capacity ≤ s.queue.length then (.error (.full s.capacity), s)
      else s.retry claim.task.info.id

/-- The loop of `requeue_claims` over the claims still to visit. -/
def requeueLoop (nowMs : ℕ) : List TaskId → List TaskId → Scheduler J →
    Except SchedulerError (List TaskId) × Scheduler J
  | [], processed, s => (.ok processed, s)
  | id :: ids, processed, s =>
    match s.tasks.get? id with
    | none => (.error (.unknown id), s)
    | some task =>
      if task.deadlineReached nowMs then
        andThen (s.transition id .timedOut) fun _ s =>
          requeueLoop nowMs ids (processed ++ [id]) s
      else if s.queue.length < s.capacity then
        andThen (s.retry id) fun _ s => requeueLoop nowMs ids (processed ++ [id]) s
      else requeueLoop nowMs ids processed s

def requeueClaims (claims : List TaskId) (nowMs limit : ℕ) :
    Except SchedulerError (List TaskId) × Scheduler J :=
  requeueLoop nowMs (claims.take limit) [] s

/-- The ids of the claims that satisfy `p`, in increasing order. -/
def claimsWhere (p : ActiveClaim → Bool) : List TaskId :=
  ((s.claims.select fun _ active => p active = true).map Prod.fst).insertionSort (· ≤ ·)

def requeueExpired (nowMs limit : ℕ) : Except SchedulerError (List TaskId) × Scheduler J :=
  s.requeueClaims (s.claimsWhere fun active => active.leaseUntilMs ≤ nowMs) nowMs limit

def requeueOwnerClaims (leaseOwner : String) (nowMs limit : ℕ) :
    Except SchedulerError (List TaskId) × Scheduler J :=
  match validateLeaseOwner leaseOwner with
  | .error e => (.error e, s)
  | .ok _ =>
    s.requeueClaims (s.claimsWhere fun active => active.leaseOwner = leaseOwner) nowMs limit

end Scheduler

inductive SchedulerOp (J : Type) where
  | enqueue (task : Task J)
  | claim (nowMs : ℕ)
  | peekRunnable (nowMs : ℕ)
  | claimWithLease (nowMs : ℕ) (leaseOwner : String) (leaseMs : ℕ)
  | renewClaim (claim : TaskClaim J) (nowMs leaseMs : ℕ)
  | finishClaim (claim : TaskClaim J) (nowMs : ℕ) (next : TaskState)
  | releaseClaim (claim : TaskClaim J) (nowMs : ℕ)
  | requeueExpired (nowMs limit : ℕ)
  | requeueOwnerClaims (leaseOwner : String) (nowMs limit : ℕ)
  | transition (id : TaskId) (next : TaskState)
  | cancel (id : TaskId)

inductive SchedulerReply (J : Type) where
  | unit
  | runnable (task : Option (Task J))
  | claimed (claim : Option (TaskClaim J))
  | claim (claim : TaskClaim J)
  | task (task : Task J)
  | ids (ids : List TaskId)

namespace Scheduler

def replying {α : Type} (f : α → SchedulerReply J) (x : Except SchedulerError α × Scheduler J) :
    Except SchedulerError (SchedulerReply J) × Scheduler J :=
  (x.1.map f, x.2)

def perform (s : Scheduler J) :
    SchedulerOp J → Except SchedulerError (SchedulerReply J) × Scheduler J
  | .enqueue task => replying (fun _ => .unit) (s.enqueue task)
  | .claim nowMs => replying .runnable (s.claim nowMs)
  | .peekRunnable nowMs => replying .runnable (s.peekRunnable nowMs)
  | .claimWithLease nowMs owner leaseMs =>
    replying .claimed (s.claimWithLease nowMs owner leaseMs)
  | .renewClaim claim nowMs leaseMs => replying .claim (s.renewClaim claim nowMs leaseMs)
  | .finishClaim claim nowMs next => replying .task (s.finishClaim claim nowMs next)
  | .releaseClaim claim nowMs => replying .task (s.releaseClaim claim nowMs)
  | .requeueExpired nowMs limit => replying .ids (s.requeueExpired nowMs limit)
  | .requeueOwnerClaims owner nowMs limit =>
    replying .ids (s.requeueOwnerClaims owner nowMs limit)
  | .transition id next => replying .task (s.transition id next)
  | .cancel id => replying .task (s.cancel id)

end Scheduler

end Tysel.Tasks
