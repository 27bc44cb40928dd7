import Tysel.Algorithm.Tasks.Worker
import Tysel.Verification.Tasks.Delivery

/-! The worker loop ends with the first error of a pass. In a run whose commits are accepted no pass
has an error, and the worker goes from each task to the first runnable one. -/

namespace Tysel.Tasks

open Envelope Option List TaskRpcWorker

open Tysel.Durable (TaskId checkedAdd)
open ModuleTaskService (perform)
open Tysel.Text

variable {J : Type} {T : Texts J} {b : TaskRpcBroker J} {s : Scheduler J}

/-! ## Outcomes of handlers -/

theorem failedOutcome_valid (error : String) (retryable : Bool) :
    (failedOutcome error retryable : TaskOutcome J).validate T = .ok () := by
  simp only [failedOutcome, TaskOutcome.validate, validateError, reject_ok, not_lt]
  split
  · rw [String.utf8ByteSize_ofList]
    exact takeBytes_len_le _ _
  · exact not_lt.mp ‹_›

/-- Whatever a handler does, its outcome passes the check of the commit. -/
theorem executeModuleLease_valid (lease : TaskLease J) (inv : Invocation J) :
    (executeModuleLease T lease inv).validate T = .ok () := by
  unfold executeModuleLease
  split
  · exact failedOutcome_valid _ _
  cases inv with
  | value =>
    dsimp only
    split
    · rename_i hfits
      simpa only [TaskOutcome.validate, reject_ok, not_lt] using hfits
    · exact failedOutcome_valid _ _
  | timeout | cancelled | suspended => rfl
  | error | panic => exact failedOutcome_valid _ _

variable {o : TaskOutcome J} {now dur : ℕ} {message : Message J}

theorem outcome_size_le (h : o.validate T = .ok ()) : size (o.json T) ≤ 32900 := by
  have hkeys : size (jsonString "status") = 8 ∧ size (jsonString "result") = 8 ∧
      size (jsonString "error") = 7 ∧ size (jsonString "retryable") = 11 ∧
      size (jsonString "completed") = 11 ∧ size (jsonString "suspended") = 11 ∧
      size (jsonString "failed") = 8 ∧ size (jsonString "canceled") = 10 ∧
      size (jsonString "timed_out") = 11 := by decide
  cases o with
  | completed result =>
    simp only [TaskOutcome.validate, reject_ok, not_lt] at h
    change size (T.toVec result) ≤ 32 * 1024 at h
    simp only [TaskOutcome.json, jsonObject_size, memberBytes]
    omega
  | failed error retryable =>
    simp only [TaskOutcome.validate, validateError, reject_ok, not_lt] at h
    change size error ≤ 4 * 1024 at h
    have herror := jsonString_size_le error
    have hbool := jsonBool_size_le retryable
    simp only [TaskOutcome.json, jsonObject_size, memberBytes]
    omega
  | _ =>
    simp only [TaskOutcome.json, jsonObject_size, memberBytes]
    omega

/-! ## Sizes of requests -/

theorem tagged_sendable (rid : UInt64) {tag : String} {fields : List (String × String)}
    (hjson : message.json T = taggedJson tag rid fields) (hmessage : message.validate T = .ok ())
    (hfits : size (jsonString tag) + memberBytes fields ≤ 65000) : Sendable T (.new message) := by
  have hvalid : (new message).validate T = .ok () := by
    simp only [validate, new, bind_ok]
    exact ⟨(), by simp, hmessage⟩
  have hkeys : size (jsonString "type") = 6 ∧ size (jsonString "request_id") = 12 ∧
      size (jsonString "version") = 9 ∧ size (jsonString "message") = 9 := by decide
  have hone : size (toString taskRpcVersion.toNat) = 1 := by decide
  have hid := decimal64_size_le rid.toNat_lt
  refine ⟨_, encode_of hvalid ?_⟩
  simp only [json, new, hjson, taggedJson, jsonObject_size, memberBytes]
  unfold maxTaskRpcFrame
  omega

theorem claim_sendable (rid : UInt64) {wid : String}
    (hworker : validateWorkerId wid = .ok ()) (hlease : validateLeaseMs dur = .ok ()) :
    Sendable T (.new (.claim rid wid dur 1 : Message J)) := by
  refine tagged_sendable rid rfl ?_ ?_
  · simp only [Message.validate, bind_ok, reject_ok]
    exact ⟨(), hworker, (), hlease, by decide⟩
  have hkeys : size (jsonString "claim") = 7 ∧ size (jsonString "worker_id") = 11 ∧
      size (jsonString "lease_ms") = 10 ∧ size (jsonString "limit") = 7 := by decide
  have hone : size (toString (1 : UInt16).toNat) = 1 := by decide
  have hname := jsonString_size_le wid
  simp only [validateWorkerId, validateLeaseMs, reject_ok, not_or, not_lt] at hworker hlease
  have hlong : size wid ≤ 128 := hworker.2.1
  have hms : size (toString dur) ≤ 20 := by
    have hmax : dur ≤ 86400000 := hlease.2
    exact decimal64_size_le (by omega)
  simp only [memberBytes]
  omega

/-- The commit of a granted claim can be sent, whatever its handler has done. -/
theorem commit_sendable (rid : UInt64) {claim : TaskClaim J} (h : claim.Wired T)
    (houtcome : o.validate T = .ok ()) :
    Sendable T (.new (.commit rid claim.lease.token o)) := by
  refine tagged_sendable rid rfl ?_ ?_
  · have hlease := lease_valid h
    simp only [TaskLease.validate, bind_ok] at hlease
    obtain ⟨⟨⟩, htoken, -⟩ := hlease
    simp only [Message.validate, bind_ok]
    exact ⟨(), htoken, houtcome⟩
  have hkeys : size (jsonString "commit") = 8 ∧ size (jsonString "lease") = 7 ∧
      size (jsonString "outcome") = 9 := by decide
  have hbody := outcome_size_le houtcome
  have htoken := token_size_le h
  simp only [memberBytes]
  omega

theorem ack_sendable (rid : UInt64) (done : Bool) {tag key : String}
    (hjson : message.json T = taggedJson tag rid [(key, jsonBool done)])
    (hmessage : message.validate T = .ok ())
    (hkeys : size (jsonString tag) + size (jsonString key) ≤ 100) : Sendable T (.new message) := by
  refine tagged_sendable rid hjson hmessage ?_
  have hbool := jsonBool_size_le done
  simp only [memberBytes]
  omega

/-! ## Commits -/

/-- The broker takes the outcome: the token is live, and a task that is to run again has room
in the queue or is past its deadline. -/
def TaskRpcBroker.Accepts (b : TaskRpcBroker J) (now : ℕ) (lease : LeaseToken)
    (o : TaskOutcome J) : Prop :=
  ∃ id a, lease.Live b.scheduler now id a ∧
    (o.target = none → b.scheduler.queue.length < b.scheduler.capacity ∨
      ∃ t, b.scheduler.tasks.get? id = some t ∧ t.deadlineReached now = true)

/-- A commit is answered with whether the broker takes the outcome. -/
theorem commit_answers (hs : b.scheduler.Sound T) (now : ℕ) (lease : LeaseToken)
    (o : TaskOutcome J) (rid : UInt64) :
    (b.Accepts now lease o ∧ ∃ b', b.commit rid lease o now = (.committed rid true, b')) ∨
    (¬ b.Accepts now lease o ∧ b.commit rid lease o now = (.committed rid false, b)) := by
  rcases live_or_stale hs lease now with ⟨id, a, t, hlive, htask⟩ | hstale
  · cases htarget : o.target with
    | some =>
      exact .inl ⟨⟨id, a, hlive, by simp [htarget]⟩, _, (commit_target rid hs hlive htarget).2⟩
    | none =>
      rcases commit_retry rid hs hlive htask htarget with
        ⟨hdue, -, hcommit⟩ | ⟨-, hlt, _, -, hcommit⟩ | ⟨hearly, hfull, hcommit⟩
      · exact .inl ⟨⟨id, a, hlive, fun _ => .inr ⟨t, htask, hdue⟩⟩, _, hcommit⟩
      · exact .inl ⟨⟨id, a, hlive, fun _ => .inl hlt⟩, _, hcommit⟩
      refine .inr ⟨?_, hcommit⟩
      rintro ⟨_, _, hlive', hroom⟩
      obtain rfl := Except.ok.inj (hlive.parsed.symm.trans hlive'.parsed)
      rcases hroom htarget with hlt | ⟨_, ht, hdue⟩
      · exact absurd hlt (not_lt.mpr hfull)
      · obtain rfl := mem_unique ht htask
        simp [hearly] at hdue
  · refine .inr ⟨?_, commit_stale rid hs hstale o⟩
    rintro ⟨id, a, hlive, -⟩
    exact hstale id a hlive

/-! ## Claims -/

/-- The task that a claim of one task finds, after expired claims have been put back. -/
def TaskRpcBroker.nextTask (b : TaskRpcBroker J) (now : ℕ) : Option TaskId :=
  (b.scheduler.requeueExpired now 1).2.firstRunnable now

theorem loop_idle {c : ClaimCall} (turns : ℕ) (h : s.Sound T)
    (hfirst : s.firstRunnable c.nowMs = none) :
    (c.loop T (turns + 1) [] s).1 = .claimed c.requestId [] := by
  obtain ⟨_, _, hpeek, -, hnext⟩ := peek_firstRunnable h.ok c.nowMs
  obtain rfl := map_eq_none_iff.mp (hnext.symm.trans hfirst)
  simp only [ClaimCall.loop, TaskRpcBroker.claimLoop, hpeek]

theorem respond_sound (hs : b.Sound T) (now : ℕ)
    (hsend : Sendable T (.new message)) : (b.respond T now message).2.Sound T := by
  have hperform := hs.perform (.handle now (.new message))
  rwa [TaskRpcBroker.perform, (handle_valid hsend.spec.1 b now).2] at hperform

theorem claim_one (hs : b.Sound T) {c : ClaimCall} (hvalid : c.Valid)
    (hready : ∀ id, b.nextTask c.nowMs = some id →
      c.leaseUntilMs < 2 ^ 64 ∧ b.lastGeneration id < 2 ^ 64 - 1) :
    ∃ leases b', b.respond T c.nowMs (.claim c.requestId c.workerId c.leaseMs 1) =
        (.claimed c.requestId leases, b') ∧
      Sendable T (.new (.claimed c.requestId leases)) ∧ b'.Sound T ∧
      ((b.nextTask c.nowMs = none ∧ leases = []) ∨ ∃ t g, b.nextTask c.nowMs = some t.info.id ∧
          leases = [c.leaseOf t g] ∧ (c.granted t g).Wired T) := by
  obtain ⟨ids, es₁, s₁, fresh, es₂, h⟩ := claim_phases hs.scheduler hvalid
    (show (1 : UInt16).toNat ≤ maxClaimBatch by decide)
  have hlimit : (1 : UInt16).toNat = 0 + 1 := rfl
  have hrequeued : (b.scheduler.requeueExpired c.nowMs 1).2 = s₁ := h.requeued
  have hnext : b.nextTask c.nowMs = s₁.firstRunnable c.nowMs := by
    rw [TaskRpcBroker.nextTask, hrequeued]
  have hsound₁ := h.sound hs
  have hrespond : b.respond T c.nowMs (.claim c.requestId c.workerId c.leaseMs 1) = _ := h.response
  have hafter := respond_sound hs c.nowMs
    (claim_sendable c.requestId hvalid.workerId hvalid.leaseMs)
  rw [hrespond] at hafter ⊢
  cases hfirst : s₁.firstRunnable c.nowMs with
  | none =>
    have hloop := loop_idle 0 hsound₁ hfirst
    rw [← hlimit] at hloop
    exact ⟨[], _, by rw [hloop], (SendableLeases.nil T c.requestId).sendable, hafter,
      .inl ⟨hnext.trans hfirst, rfl⟩⟩
  | some id =>
    obtain ⟨hlt, hgeneration⟩ := hready id (hnext.trans hfirst)
    have hsame : s₁.generations.get? id = b.scheduler.generations.get? id :=
      h.chain.generations_eq fun e he claim hgranted => by
        subst hgranted
        exact (h.reclaims _ he).elim
    obtain ⟨t, g, _, rfl, hwired, hsend, -, hloop⟩ :=
      loop_first hsound₁ hvalid hfirst (hsame ▸ hgeneration) hlt
    have hone : (c.loop T (1 : UInt16).toNat [] s₁).1 = .claimed c.requestId [c.leaseOf t g] := by
      rw [hlimit, hloop 0]
      rfl
    exact ⟨_, _, by rw [hone], hsend.sendable, hafter, .inr ⟨t, g, hnext.trans hfirst, rfl, hwired⟩⟩

/-! ## Requests of the worker -/

section Worker

variable {worker : TaskRpcWorker}

theorem requestId_of (h : worker.nextRequestId.toNat + 1 < 2 ^ 64) : ∃ next, worker.requestId =
      .ok (worker.nextRequestId, { worker with nextRequestId := next }) := by
  refine ⟨UInt64.ofNat (worker.nextRequestId.toNat + 1), ?_⟩
  simp only [TaskRpcWorker.requestId, checkedAdd, if_pos h]

theorem request_of (worker : TaskRpcWorker) {response : Message J} {b' : TaskRpcBroker J}
    (hsend : Sendable T (.new message))
    (hmatches : workerRequestMatches worker.workerId message = true)
    (hrespond : b.respond T now message = (response, b')) (hreply : Sendable T (.new response))
    (hok : ∀ rid code text, response ≠ .error rid code text) :
    worker.request T b now message = (.ok response, b') := by
  have hhandle : (TaskRpcSession.mk (some worker.workerId)).handle T b now (.new message) =
      (.new response, ⟨some worker.workerId⟩, b') := by
    have hrespond' : b.respond T now (new message).message = _ := hrespond
    simp only [TaskRpcSession.handle, (handle_valid hsend.spec.1 b now).2, hrespond']
    exact if_pos hmatches
  obtain ⟨text, htext⟩ := hsend
  obtain ⟨reply, hreply⟩ := hreply
  simp only [request, htext, hhandle, hreply]
  cases response with
  | error rid code text => exact absurd rfl (hok rid code text)
  | _ => rfl

theorem worker_claim (hs : b.Sound T) (hworker : validateWorkerId worker.workerId = .ok ())
    (hlease : validateLeaseMs dur = .ok ()) (hid : worker.nextRequestId.toNat + 1 < 2 ^ 64)
    (hready : ∀ id, b.nextTask now = some id →
      now + dur < 2 ^ 64 ∧ b.lastGeneration id < 2 ^ 64 - 1) :
    ∃ next leases b', worker.claim T b now dur 1 =
        (.ok leases, { worker with nextRequestId := next }, b') ∧ b'.Sound T ∧
      ((b.nextTask now = none ∧ leases = []) ∨
        ∃ claim : TaskClaim J, b.nextTask now = some claim.task.info.id ∧
          leases = [claim.lease] ∧ claim.Wired T ∧ claim.leaseOwner = worker.workerId) := by
  obtain ⟨next, hnext⟩ := requestId_of hid
  obtain ⟨leases, b', hrespond, hsend, hafter, hleases⟩ := claim_one hs
    (c := ⟨worker.nextRequestId, worker.workerId, dur, now⟩) ⟨hworker, hlease⟩ hready
  have hrequest := request_of ⟨worker.workerId, next⟩
    (claim_sendable worker.nextRequestId hworker hlease)
    (by simp [workerRequestMatches]) hrespond hsend (by simp)
  refine ⟨next, leases, b', ?_, hafter, ?_⟩
  · simp only [claim, hnext, hrequest, if_true]
  · rcases hleases with hnone | ⟨t, g, hfirst, rfl, hwired⟩
    · exact .inl hnone
    · exact .inr ⟨ClaimCall.granted ⟨worker.nextRequestId, worker.workerId, dur, now⟩ t
        g, hfirst, rfl, hwired, rfl⟩

theorem worker_commit {claim : TaskClaim J} {accepted : Bool}
    {b' : TaskRpcBroker J} (hwired : claim.Wired T) (howner : claim.leaseOwner = worker.workerId)
    (houtcome : o.validate T = .ok ()) (hid : worker.nextRequestId.toNat + 1 < 2 ^ 64)
    (hcommit : b.commit worker.nextRequestId claim.lease.token o now =
      (.committed worker.nextRequestId accepted, b')) :
    ∃ next, worker.commit T b now claim.lease.token o =
      (.ok accepted, { worker with nextRequestId := next }, b') := by
  obtain ⟨next, hnext⟩ := requestId_of hid
  have hrespond : b.respond T now (.commit worker.nextRequestId claim.lease.token o) = _ := hcommit
  have hmatches : workerRequestMatches worker.workerId
      (.commit worker.nextRequestId claim.lease.token o) = true :=
    decide_eq_true howner
  have hrequest := request_of ⟨worker.workerId, next⟩
    (commit_sendable worker.nextRequestId hwired houtcome) hmatches hrespond
    (ack_sendable _ _ rfl rfl (by decide)) (by simp)
  exact ⟨next, by simp only [commit, hnext, hrequest, if_true]⟩

end Worker

/-! ## The worker loop -/

namespace ModuleTaskService

variable {sv : ModuleTaskService J}

/-- What the worker loop relies on between its steps. -/
structure Ok (T : Texts J) (sv : ModuleTaskService J) : Prop where
  broker : sv.broker.Sound T
  workerId : validateWorkerId sv.rpc.workerId = .ok ()
  leaseMs : validateLeaseMs sv.leaseMs = .ok ()
  running : sv.state ≠ .stopped
  failure : sv.failure = none
  lease : ∀ lease, sv.state = .executing lease → ∃ claim : TaskClaim J,
    lease = claim.lease ∧ claim.Wired T ∧ claim.leaseOwner = sv.rpc.workerId

/-- The worker has a request id left, the task it finds can be leased, and the outcome it
commits is accepted. -/
def Ready (T : Texts J) (sv : ModuleTaskService J) : ServiceOp J → Prop
  | .claim now => sv.state = .idle → sv.rpc.nextRequestId.toNat + 1 < 2 ^ 64 ∧
      ∀ id, sv.broker.nextTask now = some id →
        now + sv.leaseMs < 2 ^ 64 ∧ sv.broker.lastGeneration id < 2 ^ 64 - 1
  | .finish now inv => ∀ lease, sv.state = .executing lease →
      sv.rpc.nextRequestId.toNat + 1 < 2 ^ 64 ∧
      sv.broker.Accepts now lease.token (executeModuleLease T lease inv)
  | .broker _ => True

theorem Ok.claim_cases (h : sv.Ok T) (hidle : sv.state = .idle) (hready : sv.Ready T (.claim now)) :
    ∃ next b', b'.Sound T ∧ ((sv.broker.nextTask now = none ∧ sv.perform T (.claim now) =
          (some (.ok false), { sv with
            broker := b', rpc := { sv.rpc with nextRequestId := next } })) ∨
        ∃ claim : TaskClaim J, sv.broker.nextTask now = some claim.task.info.id ∧
          claim.Wired T ∧ claim.leaseOwner = sv.rpc.workerId ∧
          sv.perform T (.claim now) = (none, { sv with
            broker := b', rpc := { sv.rpc with nextRequestId := next }
            state := .executing claim.lease })) := by
  obtain ⟨hid, hnext⟩ := hready hidle
  obtain ⟨next, _, b', hclaim, hafter, hleases⟩ :=
    worker_claim h.broker h.workerId h.leaseMs hid hnext
  refine ⟨next, b', hafter, ?_⟩
  rcases hleases with ⟨hnone, rfl⟩ | ⟨claim, hsome, rfl, hwired, howner⟩
  · refine .inl ⟨hnone, ?_⟩
    simp only [perform, hidle, claim, hclaim, getLast?_nil]
  · refine .inr ⟨claim, hsome, hwired, howner, ?_⟩
    simp only [perform, hidle, ModuleTaskService.claim, hclaim, getLast?_singleton]

/-- The end of a pass: the outcome is accepted, or the worker stops and the broker is as
before. -/
theorem Ok.finish_cases (h : sv.Ok T) {lease : TaskLease J}
    (hstate : sv.state = .executing lease) (now : ℕ) (inv : Invocation J) :
    (sv.rpc.nextRequestId.toNat + 1 < 2 ^ 64 ∧
      sv.broker.Accepts now lease.token (executeModuleLease T lease inv) ∧
      ∃ next b', b'.Sound T ∧ sv.perform T (.finish now inv) = (some (.ok true), { sv with
          broker := b', rpc := { sv.rpc with nextRequestId := next }, state := .idle })) ∨
    (¬ sv.Ready T (.finish now inv) ∧ ∃ error rpc, sv.perform T (.finish now inv) =
        (some (.error error), fail T { sv with rpc := rpc } error)) := by
  obtain ⟨claim, rfl, hwired, howner⟩ := h.lease lease hstate
  have houtcome := executeModuleLease_valid (T := T) claim.lease inv
  by_cases hid : sv.rpc.nextRequestId.toNat + 1 < 2 ^ 64
  · rcases commit_answers h.broker.scheduler now claim.lease.token
      (executeModuleLease T claim.lease inv) sv.rpc.nextRequestId with
      ⟨haccepts, b', hcommit⟩ | ⟨hrefuses, hcommit⟩
    · obtain ⟨next, hreply⟩ := worker_commit hwired howner houtcome hid hcommit
      have hafter := respond_sound h.broker now
        (commit_sendable sv.rpc.nextRequestId hwired houtcome)
      refine .inl ⟨hid, haccepts, next, b', ?_, ?_⟩
      · have hrespond : sv.broker.respond T now (.commit sv.rpc.nextRequestId
          claim.lease.token (executeModuleLease T claim.lease inv)) = _ := hcommit
        rwa [hrespond] at hafter
      · simp only [perform, hstate, finish, hreply]
    · obtain ⟨next, hreply⟩ := worker_commit hwired howner houtcome hid hcommit
      refine .inr ⟨fun hready => hrefuses (hready _ hstate).2, .leaseLost,
        { sv.rpc with nextRequestId := next }, ?_⟩
      simp only [perform, hstate, finish, hreply]
  · refine .inr ⟨fun hready => hid (hready _ hstate).1, .rpc .requestIdExhausted, sv.rpc, ?_⟩
    simp only [perform, hstate, finish, TaskRpcWorker.commit, TaskRpcWorker.requestId, checkedAdd,
      if_neg hid]

theorem new_ok {wid : String} (hs : b.Sound T)
    (hworker : validateWorkerId wid = .ok ()) (hlease : validateLeaseMs dur = .ok ()) :
    (new b wid dur).Ok T :=
  ⟨hs, hworker, hlease, by simp [new], rfl, by simp [new]⟩

theorem Ok.perform (h : sv.Ok T) {op : ServiceOp J} (hready : sv.Ready T op) :
    (sv.perform T op).2.Ok T := by
  cases op with
  | claim =>
    cases hstate : sv.state with
    | idle =>
      obtain ⟨next, b', hafter, ⟨-, hperform⟩ | ⟨claim, -, hwired, howner, hperform⟩⟩ :=
        h.claim_cases hstate hready
      · rw [hperform]
        exact ⟨hafter, h.workerId, h.leaseMs, h.running, h.failure, h.lease⟩
      rw [hperform]
      refine ⟨hafter, h.workerId, h.leaseMs, by simp, h.failure, ?_⟩
      rintro _ hlease
      obtain rfl := WorkerState.executing.inj hlease
      exact ⟨claim, rfl, hwired, howner⟩
    | executing => simpa only [ModuleTaskService.perform, hstate] using h
    | stopped => exact absurd hstate h.running
  | finish now inv =>
    cases hstate : sv.state with
    | idle => simpa only [ModuleTaskService.perform, hstate] using h
    | executing =>
      rcases h.finish_cases hstate now inv with
        ⟨-, -, _, _, hafter, hperform⟩ | ⟨hnot, -⟩
      · rw [hperform]
        exact ⟨hafter, h.workerId, h.leaseMs, by simp, h.failure, by simp⟩
      · exact absurd hready hnot
    | stopped => exact absurd hstate h.running
  | broker op =>
    exact ⟨h.broker.perform op, h.workerId, h.leaseMs, h.running, h.failure, h.lease⟩

end ModuleTaskService

end Tysel.Tasks
