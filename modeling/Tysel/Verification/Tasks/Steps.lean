import Tysel.Verification.Tasks.Requests

/-! Every operation of the broker is a chain of effects. The chain names only tasks that the
operation is about, it grants exactly the leases of the response, and a task that it times out
without an outcome had reached its deadline. -/

namespace Tysel.Tasks

open List Option Except BrokerEffect BrokerChain

open Tysel.Durable (TaskId)
open TaskRpcBroker (claim respond deliverable longestWorkerId enqueue perform handle
  disconnectWorker requeueExpired)

variable {J : Type} {T : Texts J} {b : TaskRpcBroker J} {s : Scheduler J}

/-! ## What a step is about -/

def Expired (s : Scheduler J) (now : ℕ) (id : TaskId) : Prop :=
  ∃ a, s.claims.get? id = some a ∧ a.leaseUntilMs ≤ now

def Message.Touches (s : Scheduler J) (now : ℕ) (id : TaskId) : Message J → Prop
  | .claim _ _ _ _ => id ∈ s.queue ∨ Expired s now id
  | .renew _ lease _ | .release _ lease | .commit _ lease _ =>
    ∃ a, lease.Live s now id a
  | .cancel _ taskId => taskId.parse = .ok id
  | _ => False

/-- A transition to a terminal state without an outcome. -/
def BrokerEffect.Silent : BrokerEffect J → Prop
  | .quiet (.expired _ _) => True
  | .quiet (.moved _ next) => next.isTerminal = true
  | _ => False

/-- The requests that may let a task time out without an outcome. -/
def Message.Expires : Message J → Prop
  | .claim _ _ _ _ | .release _ _ => True
  | _ => False

def BrokerEffect.leased : BrokerEffect J → List (WireTaskId × ActiveClaim)
  | .quiet e => e.leased
  | _ => []

def Message.leases : Message J → List (WireTaskId × ActiveClaim)
  | .claimed _ leases => leases.map TaskLease.claim
  | _ => []

def Overdue (s : Scheduler J) (now : ℕ) (id : TaskId) : Prop :=
  ∃ t, s.tasks.get? id = some t ∧ t.deadlineReached now = true

/-- What a request does: the effects of handling it. -/
structure Responded (T : Texts J) (b : TaskRpcBroker J) (now : ℕ) (message : Message J)
    (es : List (BrokerEffect J)) : Prop where
  chain : BrokerChain T b es (b.respond T now message).2
  touches : ∀ e ∈ es, message.Touches b.scheduler now e.id
  silent : ∀ e ∈ es, e.Silent → message.Expires ∧ Overdue b.scheduler now e.id
  leased : (b.respond T now message).1.leases = es.flatMap leased

/-! ## Deadlines -/

variable {t : Task J} {id : TaskId} {s' : Scheduler J}

theorem apply_deadline {e : Effect J} (hen : e.Enabled s) (h : s.tasks.get? id = some t) :
    ∃ t', (e.apply s).tasks.get? id = some t' ∧ t'.deadlineMs = t.deadlineMs := by
  rw [apply_tasks hen]
  split
  · rename_i hid
    subst hid
    rw [h]
    cases e with
    | admitted new =>
      have hnone : s.tasks.get? new.info.id = none := hen.1
      exact absurd (h.symm.trans hnone) (some_ne_none _)
    | _ => exact ⟨_, rfl, rfl⟩
  · exact ⟨t, h, rfl⟩

/-- A head that a chain expires had reached its deadline before the chain. -/
theorem Chain.expired_overdue {es : List (Effect J)} (h : Chain s es s') {now : ℕ}
    (he : .expired id now ∈ es) (hta : s.tasks.get? id = some t) :
    t.deadlineReached now = true := by
  induction h generalizing t with
  | nil => cases he
  | cons hen _ ih =>
    rcases mem_cons.mp he with rfl | he
    · obtain ⟨-, u, -, ht, -, hdue⟩ := hen
      obtain rfl : u = t := mem_unique ht hta
      exact hdue
    · obtain ⟨_, htask', hdeadline⟩ := apply_deadline hen hta
      have hdue := ih he htask'
      unfold Task.deadlineReached at hdue ⊢
      rwa [hdeadline] at hdue

/-! ## Requests -/

section Requests

variable {rid : UInt64} {lease : LeaseToken} {now leaseMs : ℕ}
  {message response : Message J} {e : Effect J} {ids : List TaskId} {c : ClaimCall} {limit : UInt16}

theorem Responded.idle (h : b.respond T now message = (response, b))
    (hleases : response.leases = []) : Responded T b now message [] := by
  refine ⟨?_, by simp, by simp, ?_⟩
  · rw [h]
    exact .nil b
  · rw [h]
    exact hleases

theorem Responded.single {e : BrokerEffect J} (hen : e.Enabled T b)
    (h : b.respond T now message = (response, e.apply b))
    (htouches : message.Touches b.scheduler now e.id)
    (hsilent : e.Silent → message.Expires ∧ Overdue b.scheduler now e.id)
    (hleases : response.leases = e.leased) : Responded T b now message [e] := by
  refine ⟨?_, by simpa using htouches, by simpa using hsilent, ?_⟩
  · rw [h]
    exact .cons hen (.nil _)
  · rw [h]
    simpa using hleases

theorem Responded.retried (h : b.respond T now message = (response, { b with scheduler := s' }))
    (hchain : Chain b.scheduler [.moved id .retrying, .moved id .queued] s')
    (htouches : message.Touches b.scheduler now id) (hleases : response.leases = []) :
    Responded T b now message [.quiet (.moved id .retrying), .quiet (.moved id .queued)] := by
  refine ⟨?_, ?_, ?_, ?_⟩
  · rw [h]
    exact quiet hchain (by simp [Effect.Wired])
  · simp only [forall_mem_cons]
    exact ⟨htouches, htouches, by simp⟩
  · simp [Silent, TaskState.isTerminal]
  · rw [h]
    exact hleases

section

variable (hs : b.scheduler.Sound T) {a : ActiveClaim} {o : TaskOutcome J}

include hs

theorem renew_responded (hvalid : validateLeaseMs leaseMs = .ok ()) :
    ∃ es, Responded T b now (.renew rid lease leaseMs) es := by
  rcases live_or_stale hs lease now with ⟨id, a, _, hlive, hta⟩ | hstale
  · rcases renew_live rid leaseMs hs hlive hvalid hta with
      ⟨hlt, hpos, hrenew⟩ | ⟨-, hrenew⟩
    · have hen : Enabled T b (.quiet (.renewed id (now + leaseMs))) :=
        ⟨⟨a, hlive.stored⟩, hpos, hlt⟩
      exact ⟨_, .single hen hrenew ⟨a, hlive⟩ nofun rfl⟩
    · exact ⟨[], .idle hrenew rfl⟩
  · refine ⟨[], .idle (renew_stale rid leaseMs hs hstale) ?_⟩
    split <;> rfl

theorem release_responded : ∃ es, Responded T b now (.release rid lease) es := by
  rcases live_or_stale hs lease now with ⟨id, a, t, hlive, hta⟩ | hstale
  · rcases release_live rid hs hlive hta with
      ⟨hdue, hen, hrelease⟩ | ⟨-, -, _, hchain, hrelease⟩ | ⟨-, -, hrelease⟩
    · have hmoved : Enabled T b (.quiet (.moved id .timedOut)) := ⟨hen, by simp [Effect.Wired]⟩
      exact ⟨_, .single hmoved hrelease ⟨a, hlive⟩ (fun _ => ⟨trivial, t, hta, hdue⟩) rfl⟩
    · exact ⟨_, .retried hrelease hchain ⟨a, hlive⟩ rfl⟩
    · exact ⟨[], .idle hrelease rfl⟩
  · exact ⟨[], .idle (release_stale rid hs hstale) rfl⟩

theorem commit_retry_responded (hlive : lease.Live b.scheduler now id a)
    (htarget : o.target = none) :
    ∃ es, Responded T b now (.commit rid lease o) es := by
  obtain ⟨_, hta, -, -⟩ := hs.running hlive.stored
  rcases commit_retry rid hs hlive hta htarget with
    ⟨hdue, hen, hcommit⟩ | ⟨-, -, s', hchain, hcommit⟩ | ⟨-, -, hcommit⟩
  · have hfinished : Enabled T b (.finished id .timedOut .timedOut) := ⟨hen, rfl, trivial⟩
    exact ⟨_, .single hfinished hcommit ⟨a, hlive⟩ nofun rfl⟩
  · exact ⟨_, .retried hcommit hchain ⟨a, hlive⟩ rfl⟩
  · exact ⟨[], .idle hcommit rfl⟩

theorem commit_target_responded (hlive : lease.Live b.scheduler now id a) {next : TaskState}
    (htarget : o.target = some next) :
    ∃ es, Responded T b now (.commit rid lease o) es := by
  obtain ⟨hen, hcommit⟩ := commit_target rid hs hlive htarget
  by_cases hterminal : next.isTerminal = true
  · rw [if_pos hterminal] at hcommit
    have hfinished : Enabled T b (.finished id next (TaskRpcBroker.storedOutcome next o)) :=
      ⟨hen, hterminal, storedOutcome_fits htarget hterminal⟩
    exact ⟨_, .single hfinished hcommit ⟨a, hlive⟩ nofun rfl⟩
  · rw [if_neg hterminal] at hcommit
    have hfinishes := target_finishes htarget
    have hmoved : Enabled T b (.quiet (.moved id next)) :=
      ⟨hen, by cases next <;> simp_all [Scheduler.finishes, Effect.Wired]⟩
    exact ⟨_, .single hmoved hcommit ⟨a, hlive⟩ (fun hsilent => absurd hsilent hterminal) rfl⟩

theorem commit_responded (o : TaskOutcome J) :
    ∃ es, Responded T b now (.commit rid lease o) es := by
  rcases live_or_stale hs lease now with ⟨id, a, t, hlive, -⟩ | hstale
  · cases htarget : o.target with
    | none => exact commit_retry_responded hs hlive htarget
    | some => exact commit_target_responded hs hlive htarget
  · exact ⟨[], .idle (commit_stale rid hs hstale o) rfl⟩

end

/-- Cancellation ends every task that has not finished and stores its outcome. -/
theorem cancel_responded (taskId : WireTaskId) :
    ∃ es, Responded T b now (.cancel rid taskId) es := by
  by_cases hknown : ∃ id t, taskId.parse = .ok id ∧ b.scheduler.tasks.get? id = some t
  · obtain ⟨id, t, hparse, hta⟩ := hknown
    rcases cancel_cases rid hparse hta with
      ⟨-, hen, hcancel⟩ | ⟨hstate, hcancel⟩ | ⟨-, -, hcancel⟩
    · have hfinished : Enabled T b (.finished id .canceled .canceled) := ⟨hen, rfl, trivial⟩
      exact ⟨_, .single hfinished hcancel hparse nofun rfl⟩
    · have hnoted : Enabled T b (.noted id) := ⟨t, hta, hstate⟩
      exact ⟨_, .single hnoted hcancel hparse nofun rfl⟩
    · exact ⟨[], .idle hcancel rfl⟩
  · refine ⟨[], .idle (cancel_unknown rid fun id hparse => ?_) rfl⟩
    by_contra hne
    obtain ⟨t, hta⟩ := ne_none_iff_exists'.mp hne
    exact hknown ⟨id, t, hparse, hta⟩

/-! ## Claims -/

theorem reclaims_wired (h : e.Reclaims s now ids) : e.Wired T := by
  cases e with
  | moved =>
    rcases h.2 with rfl | rfl | ⟨rfl, -⟩ <;> simp [Effect.Wired]
  | _ => exact h.elim

theorem reclaims_leased {es : List (Effect J)} (h : ∀ e ∈ es, e.Reclaims s now ids) :
    es.flatMap Effect.leased = [] := by
  refine flatMap_eq_nil_iff.mpr fun e he => ?_
  have hreclaims := h e he
  cases e with
  | granted => exact hreclaims.elim
  | _ => rfl

theorem reclaims_overdue (h : e.Reclaims s now ids) (hsilent : Silent (.quiet e)) :
    Overdue s now e.id := by
  cases e with
  | moved =>
    rcases h.2 with rfl | rfl | ⟨-, hdue⟩
    · cases hsilent
    · cases hsilent
    · exact hdue
  | _ => exact h.elim

theorem requeueExpired_spec (hok : s.Ok) (now limit : ℕ) :
    ∃ ids done s', (∀ id ∈ ids, Expired s now id) ∧
      s.requeueExpired now limit = (.ok done, s') ∧ Requeued s now ids done s' := by
  obtain ⟨ids, done, s', hids, hrequeue, hrequeued⟩ :=
    requeueClaims_spec hok (fun a => a.leaseUntilMs ≤ now) now limit
  refine ⟨ids, done, s', fun id hid => ?_, hrequeue, hrequeued⟩
  obtain ⟨a, hactive, hexpired⟩ := hids id hid
  exact ⟨a, hactive, by simpa using hexpired⟩

/-- The two phases of a claim request: `s₁` is the scheduler with the expired leases requeued,
`fresh` are the leases that the loop grants. -/
structure ClaimPhases (T : Texts J) (b : TaskRpcBroker J) (c : ClaimCall) (limit : UInt16)
    (ids : List TaskId) (es₁ : List (Effect J)) (s₁ : Scheduler J) (fresh : List (TaskLease J))
    (es₂ : List (Effect J)) : Prop where
  expired : ∀ id ∈ ids, Expired b.scheduler c.nowMs id
  requeued : (b.scheduler.requeueExpired c.nowMs limit.toNat).2 = s₁
  chain : Chain b.scheduler es₁ s₁
  reclaims : ∀ e ∈ es₁, e.Reclaims b.scheduler c.nowMs ids
  response : b.claim T c.requestId c.workerId c.leaseMs limit c.nowMs =
    ((c.loop T limit.toNat [] s₁).1, { b with scheduler := (c.loop T limit.toNat [] s₁).2 })
  claimed : Claimed T c [] s₁ fresh es₂ (c.loop T limit.toNat [] s₁).1
    (c.loop T limit.toNat [] s₁).2

theorem claim_phases (hs : b.scheduler.Sound T) (hvalid : c.Valid)
    (hlimit : limit.toNat ≤ maxClaimBatch) :
    ∃ ids es₁ s₁ fresh es₂, ClaimPhases T b c limit ids es₁ s₁ fresh es₂ := by
  obtain ⟨ids, _, s₁, hids, hrequeue, hrequeued⟩ := requeueExpired_spec hs.ok c.nowMs limit.toNat
  obtain ⟨es₁, hchain, hes₁⟩ := hrequeued.effects
  have hsound₁ := hs.chain hchain fun e he => reclaims_wired (hes₁ e he)
  obtain ⟨fresh, es₂, hclaimed⟩ := loop_claimed limit.toNat hsound₁ hvalid
    (by simpa using hlimit) (SendableLeases.nil T c.requestId)
  refine ⟨ids, es₁, s₁, fresh, es₂, hids, by rw [hrequeue], hchain, hes₁, ?_, hclaimed⟩
  simp only [claim, hrequeue]
  rfl

namespace ClaimPhases

variable {c : ClaimCall} {limit : UInt16} {ids : List TaskId} {es₁ es₂ : List (Effect J)}
  {s₁ : Scheduler J} {fresh : List (TaskLease J)}

section

variable (h : ClaimPhases T b c limit ids es₁ s₁ fresh es₂)

include h

theorem whole : Chain b.scheduler (es₁ ++ es₂) (c.loop T limit.toNat [] s₁).2 :=
  h.chain.append h.claimed.chain

theorem wired : ∀ e ∈ es₁ ++ es₂, e.Wired T := by
  intro e he
  rcases mem_append.mp he with he | he
  · exact reclaims_wired (h.reclaims e he)
  · exact h.claimed.wired e he

/-- A task of the queue after the first phase was queued or had an expired lease. -/
theorem mem_queue
    (hid : id ∈ s₁.queue) : id ∈ b.scheduler.queue ∨ Expired b.scheduler c.nowMs id := by
  rcases h.chain.mem_queue hid with hid | ⟨e, he, rfl⟩
  · exact .inl hid
  · exact .inr (h.expired _ (reclaims_mem (h.reclaims e he)))

theorem touches :
    ∀ e ∈ es₁ ++ es₂, e.id ∈ b.scheduler.queue ∨ Expired b.scheduler c.nowMs e.id := by
  intro e he
  rcases mem_append.mp he with he | he
  · exact .inr (h.expired _ (reclaims_mem (h.reclaims e he)))
  · exact h.mem_queue (h.claimed.fromQueue e he).mem

theorem silent (hok : b.scheduler.Ok) :
    ∀ e ∈ es₁ ++ es₂, Silent (.quiet e) → Overdue b.scheduler c.nowMs e.id := by
  intro e he hsilent
  have hstored : ∃ t, b.scheduler.tasks.get? e.id = some t := by
    rcases h.touches e he with hid | ⟨a, hactive, -⟩
    · obtain ⟨t, hta, -⟩ := (hok.queued _).mp hid
      exact ⟨t, hta⟩
    · obtain ⟨t, hta, -⟩ := hok.claimed _ _ hactive
      exact ⟨t, hta⟩
  obtain ⟨t, hta⟩ := hstored
  rcases mem_append.mp he with hfirst | hsecond
  · exact reclaims_overdue (h.reclaims e hfirst) hsilent
  have hqueue := h.claimed.fromQueue e hsecond
  cases e with
  | expired _ clock =>
    obtain rfl : clock = c.nowMs := hqueue.2
    exact ⟨t, hta, h.whole.expired_overdue he hta⟩
  | moved => rcases hqueue.2 with rfl | rfl <;> cases hsilent
  | _ => exact hsilent.elim

theorem leased : (c.loop T limit.toNat [] s₁).1.leases = (es₁ ++ es₂).flatMap Effect.leased := by
  rw [flatMap_append, reclaims_leased h.reclaims, nil_append, ← h.claimed.granted]
  rcases h.claimed.response with ⟨hresponse, -⟩ | ⟨-, rfl, _, hresponse, -⟩
  · rw [hresponse]
    rfl
  · rw [hresponse]
    rfl

end

end ClaimPhases

theorem claim_responded (hs : b.scheduler.Sound T) (hvalid : c.Valid)
    (hlimit : limit.toNat ≤ maxClaimBatch) :
    ∃ es, Responded T b c.nowMs (.claim c.requestId c.workerId c.leaseMs limit) es := by
  obtain ⟨ids, es₁, s₁, fresh, es₂, h⟩ := claim_phases hs hvalid hlimit
  refine ⟨(es₁ ++ es₂).map .quiet, ?_, ?_, ?_, ?_⟩
  · rw [respond, h.response]
    exact quiet h.whole h.wired
  · intro _ hmem
    obtain ⟨e, he, rfl⟩ := mem_map.mp hmem
    exact h.touches e he
  · intro _ hmem
    obtain ⟨e, he, rfl⟩ := mem_map.mp hmem
    exact fun hsilent => ⟨trivial, h.silent hs.ok e he hsilent⟩
  · rw [respond, h.response]
    simp only [h.leased, flatMap_map]
    rfl

theorem respond_responded (now : ℕ) (hs : b.scheduler.Sound T)
    (hvalid : message.validate T = .ok ()) : ∃ es, Responded T b now message es := by
  cases message with
  | claim rid wid leaseMs =>
    simp only [Message.validate, bind_ok, reject_ok] at hvalid
    obtain ⟨⟨⟩, hworker, ⟨⟩, hms, _⟩ := hvalid
    exact claim_responded hs (c := ⟨rid, wid, leaseMs, now⟩) ⟨hworker, hms⟩
      (by omega)
  | renew =>
    simp only [Message.validate, bind_ok] at hvalid
    obtain ⟨⟨⟩, -, hms⟩ := hvalid
    exact renew_responded hs hms
  | release => exact release_responded hs
  | commit _ _ o => exact commit_responded hs o
  | cancel _ taskId => exact cancel_responded taskId
  | _ => exact ⟨[], .idle rfl rfl⟩

end Requests

/-! ## Operations -/

def BrokerOp.Touches (b : TaskRpcBroker J) (id : TaskId) : BrokerOp J → Prop
  | .enqueue t => id = t.info.id
  | .handle now env => env.message.Touches b.scheduler now id
  | .requeueExpired now _ => Expired b.scheduler now id
  | .disconnectWorker wid _ =>
    ∃ a, b.scheduler.claims.get? id = some a ∧ a.leaseOwner = wid

def BrokerOp.nowMs : BrokerOp J → ℕ
  | .enqueue _ => 0
  | .handle now _ | .requeueExpired now _ | .disconnectWorker _ now => now

/-- The operations that may let a task time out without an outcome. -/
def BrokerOp.Expires : BrokerOp J → Prop
  | .enqueue _ => False
  | .handle _ env => env.message.Expires
  | .requeueExpired _ _ | .disconnectWorker _ _ => True

def BrokerReply.leases : BrokerReply J → List (WireTaskId × ActiveClaim)
  | .response env => env.message.leases
  | _ => []

/-- What an operation does. -/
structure Performed (T : Texts J) (b : TaskRpcBroker J) (op : BrokerOp J)
    (es : List (BrokerEffect J)) : Prop where
  chain : BrokerChain T b es (b.perform T op).2
  touches : ∀ e ∈ es, op.Touches b e.id
  silent : ∀ e ∈ es, e.Silent → op.Expires ∧ Overdue b.scheduler op.nowMs e.id
  leased : (b.perform T op).1.leases = es.flatMap leased

theorem deliverable_ok (h : deliverable T t = .ok ()) : Deliverable T t := by
  simp only [deliverable, bind_ok, mapError_ok] at h
  obtain ⟨_, hqueued, _, hstarted, _, hdescriptor, -⟩ := h
  have hdeliver := (fromTask_ok hdescriptor).1
  unfold Task.transition at hqueued
  split at hqueued
  · obtain rfl := ok.inj hqueued
    simp only [Task.beginAttempt, Task.transition, bind_ok, pure_ok] at hstarted
    obtain ⟨_, hrunning, rfl⟩ := hstarted
    split at hrunning
    · obtain rfl := ok.inj hrunning
      exact hdeliver.of_eq rfl rfl
    · cases hrunning
  · cases hqueued

theorem longestWorkerId_valid : validateWorkerId longestWorkerId = .ok () := by
  have hlist : longestWorkerId.toList = replicate 128 'w' := String.toList_ofList
  have hsize : longestWorkerId.utf8ByteSize = 128 := by
    have hone : ∀ c ∈ replicate 128 'w', c.utf8Size = 1 := by
      intro c hc
      rw [eq_of_mem_replicate hc]
      rfl
    rw [longestWorkerId, String.utf8ByteSize_ofList, maxWorkerIdBytes,
      Text.utf8Len_eq_length hone, length_replicate]
  simp only [validateWorkerId, reject_ok, hlist, hsize, all_replicate, not_or]
  refine ⟨fun hempty => ?_, by decide, by decide⟩
  rw [hempty] at hsize
  cases hsize

theorem deliverable_of (hstate : t.state = .created) (h : Deliverable T t) :
    deliverable T t = .ok () := by
  have hqueued : t.transition .queued = .ok (t.in .queued) := by
    rw [Task.transition, hstate]
    rfl
  have hbegun : (t.in .queued).beginAttempt = .ok (t.in .queued).begun := beginAttempt_of rfl
  have hattempt := nextAttempt_ne_zero t.attempt
  have hdeliver : Deliverable T (t.in .queued).begun := h.of_eq rfl rfl
  have hmax : 0 < 2 ^ 64 - 1 ∧ 2 ^ 64 - 1 < 2 ^ 64 := by decide
  have hworst : (previewClaim (t.in .queued).begun longestWorkerId).Wired T :=
    ⟨hdeliver, hattempt, hmax, hmax, longestWorkerId_valid⟩
  have hencode : Sendable T (.new (.claimed (UInt64.ofNat (2 ^ 64 - 1))
      [(previewClaim (t.in .queued).begun longestWorkerId).lease])) :=
    SendableLeases.sendable ⟨by simp [maxClaimBatch], by simpa using lease_valid hworst,
      single_lease_fits hworst _⟩
  obtain ⟨text, htext⟩ := hencode
  simp only [deliverable, bind_ok, mapError_ok, pure_ok]
  exact ⟨_, hqueued, _, hbegun, _, fromTask_of hdeliver hattempt, _,
    previewWireLease_of hdeliver hattempt _, text, htext, trivial⟩

/-- A new task with a fresh id is admitted while the queue has room. -/
theorem enqueue_admits (b : TaskRpcBroker J) (hstate : t.state = .created)
    (hdeliver : Deliverable T t) (hfresh : b.scheduler.tasks.get? t.info.id = none)
    (hroom : b.scheduler.queue.length < b.scheduler.capacity) : b.enqueue T t =
      (.ok (), { b with scheduler := b.scheduler.admitted (t.in .queued) }) := by
  have hqueued : t.transition .queued = .ok (t.in .queued) := by
    rw [Task.transition, hstate]
    rfl
  have henqueue : b.scheduler.enqueue t = (.ok (), b.scheduler.admitted (t.in .queued)) := by
    simp only [Scheduler.enqueue, hfresh, isSome_none, Bool.false_eq_true, if_false,
      if_neg (not_le.mpr hroom), hqueued]
  simp only [enqueue, deliverable_of hstate hdeliver, henqueue]
  rfl

theorem enqueue_performed (b : TaskRpcBroker J) (t : Task J) :
    ∃ es, Performed T b (.enqueue t) es := by
  cases hdeliver : deliverable T t with
  | error e =>
    have henqueue : b.enqueue T t = (.error e, b) := by
      simp only [enqueue, hdeliver]
    refine ⟨[], ?_, by simp, by simp, rfl⟩
    rw [perform, henqueue]
    exact .nil b
  | ok =>
    have henqueue : (b.enqueue T t).2 = { b with scheduler := (b.scheduler.enqueue t).2 } := by
      simp only [enqueue, hdeliver]
    rcases enqueue_cases b.scheduler t with ⟨_, herror⟩ | ⟨hen, hadmitted⟩
    · refine ⟨[], ?_, by simp, by simp, rfl⟩
      rw [perform, henqueue, herror]
      exact .nil b
    have hadmit : Enabled T b (.quiet (.admitted (t.in .queued))) :=
      ⟨hen, (deliverable_ok hdeliver).of_eq rfl rfl⟩
    refine ⟨[.quiet (.admitted (t.in .queued))], ?_, ?_, ?_, rfl⟩
    · rw [perform, henqueue, hadmitted]
      exact .cons hadmit (.nil _)
    · simp only [mem_singleton, forall_eq]
      rfl
    · simp [Silent]

theorem handle_valid {env : Envelope J} (h : env.validate T = .ok ())
    (b : TaskRpcBroker J) (now : ℕ) : env.message.validate T = .ok () ∧
      b.handle T now env = (.new (b.respond T now env.message).1,
          (b.respond T now env.message).2) := by
  refine ⟨?_, by simp only [handle, h]⟩
  simp only [Envelope.validate, bind_ok] at h
  obtain ⟨-, -, hmessage⟩ := h
  exact hmessage

theorem handle_performed (hs : b.scheduler.Sound T) (now : ℕ) (env : Envelope J) :
    ∃ es, Performed T b (.handle now env) es := by
  cases hvalid : env.validate T with
  | error =>
    have hhandle : (b.handle T now env).2 = b ∧ (b.handle T now env).1.message.leases = [] := by
      simp only [handle, hvalid, true_and]
      rfl
    refine ⟨[], ?_, by simp, by simp, hhandle.2⟩
    rw [perform, hhandle.1]
    exact .nil b
  | ok =>
    obtain ⟨hmessage, hhandle⟩ := handle_valid hvalid b now
    obtain ⟨es, h⟩ := respond_responded now hs hmessage
    refine ⟨es, ?_, h.touches, h.silent, ?_⟩
    · rw [perform, hhandle]
      exact h.chain
    · rw [perform, hhandle]
      exact h.leased

theorem Requeued.performed {now : ℕ} {ids done : List TaskId}
    (h : Requeued b.scheduler now ids done s') {op : BrokerOp J} {result}
    (hperform : b.perform T op = (.requeued result, { b with scheduler := s' }))
    (hids : ∀ id ∈ ids, op.Touches b id) (hclock : op.nowMs = now) (hexpires : op.Expires) :
    ∃ es, Performed T b op es := by
  obtain ⟨es, hchain, hes⟩ := h.effects
  refine ⟨es.map .quiet, ?_, ?_, ?_, ?_⟩
  · rw [hperform]
    exact quiet hchain fun e he => reclaims_wired (hes e he)
  · intro _ hmem
    obtain ⟨e, he, rfl⟩ := mem_map.mp hmem
    exact hids _ (reclaims_mem (hes e he))
  · intro _ hmem hsilent
    obtain ⟨e, he, rfl⟩ := mem_map.mp hmem
    exact ⟨hexpires, hclock ▸ reclaims_overdue (hes e he) hsilent⟩
  · rw [hperform, flatMap_map]
    exact (reclaims_leased hes).symm

section

variable (hok : b.scheduler.Ok)

include hok

theorem disconnectWorker_spec (wid : String) (now : ℕ) :
    (∃ e, b.disconnectWorker wid now = (.error e, b)) ∨
    ∃ ids done s', (∀ id ∈ ids, ∃ a, b.scheduler.claims.get? id = some a ∧ a.leaseOwner = wid) ∧
      b.disconnectWorker wid now = (.ok done, { b with scheduler := s' }) ∧
      Requeued b.scheduler now ids done s' := by
  obtain ⟨ids, done, s', hids, hrequeue, hrequeued⟩ := requeueClaims_spec hok
    (fun a => a.leaseOwner = wid) now (2 ^ 64 - 1)
  simp only [disconnectWorker, Scheduler.requeueOwnerClaims]
  cases validateLeaseOwner wid with
  | error e => exact .inl ⟨e, rfl⟩
  | ok => exact .inr ⟨ids, done, s', by simpa using hids, by rw [hrequeue], hrequeued⟩

theorem disconnect_performed (wid : String) (now : ℕ) :
    ∃ es, Performed T b (.disconnectWorker wid now) es := by
  rcases disconnectWorker_spec hok wid now with
    ⟨e, hdisconnect⟩ | ⟨ids, done, s', hids, hdisconnect, hrequeued⟩
  · refine ⟨[], ?_, by simp, by simp, rfl⟩
    rw [perform, hdisconnect]
    exact .nil b
  · exact hrequeued.performed (by rw [perform, hdisconnect]) hids rfl trivial

theorem requeueExpired_performed (now limit : ℕ) :
    ∃ es, Performed T b (.requeueExpired now limit) es := by
  obtain ⟨_, done, s', hids, hrequeue, hrequeued⟩ := requeueExpired_spec hok now limit
  have hperform : b.perform T (.requeueExpired now limit) =
      (.requeued (.ok done), { b with scheduler := s' }) := by
    simp only [perform, requeueExpired, hrequeue]
  exact hrequeued.performed hperform hids rfl trivial

/-- The claims that an operation reports as requeued have been dropped. -/
theorem requeued_unclaimed {op : BrokerOp J} {ids : List TaskId}
    (h : (b.perform T op).1 = .requeued (.ok ids)) (hid : id ∈ ids) :
    (b.perform T op).2.scheduler.claims.get? id = none := by
  cases op with
  | enqueue | handle => cases h
  | requeueExpired now limit =>
    obtain ⟨owned, done, s', -, hrequeue, hrequeued⟩ := requeueExpired_spec hok now limit
    simp only [perform, requeueExpired, hrequeue, BrokerReply.requeued.injEq, ok.injEq] at h ⊢
    exact hrequeued.dropped id (h ▸ hid)
  | disconnectWorker wid now =>
    rcases disconnectWorker_spec hok wid now with
      ⟨e, hdisconnect⟩ | ⟨ids, done, s', -, hdisconnect, hrequeued⟩
    · rw [perform, hdisconnect] at h
      cases h
    · simp only [perform, hdisconnect, BrokerReply.requeued.injEq, ok.injEq] at h ⊢
      exact hrequeued.dropped id (h ▸ hid)

end

theorem performed (hs : b.scheduler.Sound T) (op : BrokerOp J) : ∃ es, Performed T b op es := by
  cases op with
  | enqueue t => exact enqueue_performed b t
  | handle now env => exact handle_performed hs now env
  | requeueExpired now limit => exact requeueExpired_performed hs.ok now limit
  | disconnectWorker wid now => exact disconnect_performed hs.ok wid now

end Tysel.Tasks
