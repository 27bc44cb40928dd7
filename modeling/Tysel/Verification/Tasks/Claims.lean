import Tysel.Verification.Tasks.Broker

/-! The loop of `claim` grants leases one at a time. Every lease it has granted is in the response,
and the response can be sent. -/

namespace Tysel.Tasks

open List Effect

open Tysel.Durable (TaskId checkedAdd)
open TaskRpcBroker (refusal claimLoop)

variable {J : Type} {T : Texts J} {s : Scheduler J} {es : List (Effect J)} {response : Message J}
  {g : ℕ} {s' : Scheduler J} {now : ℕ}

/-- The lease that an effect grants, by the task id on the wire. -/
def Effect.leased : Effect J → List (WireTaskId × ActiveClaim)
  | .granted id k => [(.new id, k)]
  | _ => []

def TaskLease.claim (lease : TaskLease J) : WireTaskId × ActiveClaim :=
  (lease.token.taskId, ⟨lease.token.generation, lease.token.leaseOwner, lease.leaseUntilMs⟩)

def ActiveClaim.leaseOf (a : ActiveClaim) (t : Task J) : TaskLease J :=
  TaskClaim.lease ⟨t, a.generation, a.leaseOwner, a.leaseUntilMs⟩

theorem ActiveClaim.leaseOf_claim (a : ActiveClaim) (t : Task J) :
    (a.leaseOf t).claim = (.new t.info.id, a) := rfl

theorem ActiveClaim.leaseOf_taskId (a : ActiveClaim) (t : Task J) :
    (a.leaseOf t).token.taskId = .new t.info.id := rfl

structure TaskLease.Held (lease : TaskLease J) (s : Scheduler J) (t : Task J)
    (a : ActiveClaim) : Prop where
  stored : s.tasks.get? t.info.id = some t
  running : t.state = .running
  claimed : s.claims.get? t.info.id = some a
  lease : lease = a.leaseOf t

def Effect.FromQueue (queue : List TaskId) (now : ℕ) : Effect J → Prop
  | .expired id clock => id ∈ queue ∧ clock = now
  | .begun id | .granted id _ => id ∈ queue
  | .moved id next => id ∈ queue ∧ (next = .retrying ∨ next = .queued)
  | .admitted _ | .renewed _ _ => False

namespace Effect.FromQueue

variable {queue queue' : List TaskId} {now : ℕ} {e : Effect J}

theorem mem (h : e.FromQueue queue now) : e.id ∈ queue := by
  cases e with
  | expired => exact h.1
  | begun | granted => exact h
  | moved => exact h.1
  | admitted | renewed => exact h.elim

theorem mono (h : e.FromQueue queue now) (hsub : ∀ x ∈ queue, x ∈ queue') :
    e.FromQueue queue' now := by
  cases e with
  | expired id => exact ⟨hsub id h.1, h.2⟩
  | begun id | granted id => exact hsub id h
  | moved id => exact ⟨hsub id h.1, h.2⟩
  | admitted | renewed => exact h.elim

end Effect.FromQueue

theorem Chain.queue_subset (h : Chain s es s') (hes : ∀ e ∈ es, e.FromQueue s.queue now) :
    ∀ x ∈ s'.queue, x ∈ s.queue := by
  intro x hx
  rcases h.mem_queue hx with hx | ⟨e, he, rfl⟩
  · exact hx
  · exact (hes e he).mem

theorem TaskLease.Held.keep {lease : TaskLease J} {t : Task J} {a : ActiveClaim}
    (h : lease.Held s t a) (hok : s.Ok) (hchain : Chain s es s')
    (hes : ∀ e ∈ es, e.FromQueue s.queue now) : lease.Held s' t a := by
  have hother : ∀ e ∈ es, t.info.id ≠ e.id := fun e he hid => by
    refine hok.not_mem h.stored ?_ (hid ▸ (hes e he).mem)
    rw [h.running]
    decide
  obtain ⟨htasks, hclaims⟩ := hchain.untouched hother
  exact ⟨htasks.trans h.stored, h.running, hclaims.trans h.claimed, h.lease⟩

/-- A claim request and the clock at which it is handled. -/
structure ClaimCall where
  requestId : UInt64
  workerId : String
  leaseMs : ℕ
  nowMs : ℕ

namespace ClaimCall

/-- The checks that a claim request has passed. -/
structure Valid (c : ClaimCall) : Prop where
  workerId : validateWorkerId c.workerId = .ok ()
  leaseMs : validateLeaseMs c.leaseMs = .ok ()

def leaseUntilMs (c : ClaimCall) : ℕ := c.nowMs + c.leaseMs

def claimOf (c : ClaimCall) (g : ℕ) : ActiveClaim := ⟨g, c.workerId, c.leaseUntilMs⟩

def leaseOf (c : ClaimCall) (t : Task J) (g : ℕ) : TaskLease J := (c.claimOf g).leaseOf t.begun

end ClaimCall

section Turn

variable {c : ClaimCall} {t : Task J} {leases : List (TaskLease J)}

theorem beginAttempt_of (h : t.state = .queued) : t.beginAttempt = .ok t.begun := by
  simp only [Task.beginAttempt, Task.transition, h, TaskState.canTransitionTo]
  rfl

theorem previewClaim_wired (hdeliver : Deliverable T t) (hv : c.Valid) :
    (previewClaim t.begun c.workerId).Wired T := by
  have hmax : 0 < 2 ^ 64 - 1 ∧ 2 ^ 64 - 1 < 2 ^ 64 := by decide
  exact ⟨hdeliver.of_eq rfl rfl, nextAttempt_ne_zero _, hmax, hmax, hv.workerId⟩

theorem refusal_cases (hdeliver : Deliverable T t) (hqueued : t.state = .queued) (hv : c.Valid)
    (hsend : SendableLeases T c.requestId leases) (hcount : leases.length + 1 ≤ maxClaimBatch) :
    (refusal T c.requestId c.workerId leases t = none ∧
      SendableLeases T c.requestId (leases ++ [(previewClaim t.begun c.workerId).lease])) ∨
    (refusal T c.requestId c.workerId leases t =
        some (.claimed c.requestId leases) ∧ leases ≠ []) := by
  have hwired := previewClaim_wired hdeliver hv
  have hleases : ∀ lease ∈ leases ++ [(previewClaim t.begun c.workerId).lease],
      lease.validate T = .ok () := by
    intro lease hlease
    rcases mem_append.mp hlease with hlease | hlease
    · exact hsend.valid lease hlease
    · rw [mem_singleton.mp hlease]
      exact lease_valid hwired
  have hlength : (leases ++ [(previewClaim t.begun c.workerId).lease]).length ≤
      maxClaimBatch := by simpa using hcount
  have hpreview : previewWireLease T t.begun c.workerId =
      .ok (previewClaim t.begun c.workerId).lease :=
    previewWireLease_of hwired.task hwired.attempt c.workerId
  unfold refusal
  simp only [beginAttempt_of hqueued, hpreview]
  rcases encode_claimed c.requestId hlength hleases with ⟨hfits, text, htext⟩ | ⟨hlarge, n, hn⟩
  · exact .inl ⟨by rw [htext], hfits⟩
  -- a single lease is never too large
  have hne : leases ≠ [] := by
    rintro rfl
    exact absurd (single_lease_fits hwired c.requestId) (not_le.mpr hlarge)
  refine .inr ⟨?_, hne⟩
  rw [hn]
  exact if_neg hne

theorem validateLease_of (hv : c.Valid) : validateLease c.workerId c.leaseMs = .ok () := by
  have hms := hv.leaseMs
  simp only [validateLease, validateLeaseOwner_of hv.workerId, ok_bind]
  simp only [validateLeaseMs, reject_ok] at hms ⊢
  exact hms

/-- The checks of a valid claim request leave only the range of the clock. -/
theorem leaseChecks_ok (hv : c.Valid) (hlt : c.leaseUntilMs < 2 ^ 64) :
    leaseChecks c.nowMs c.workerId c.leaseMs = .ok c.leaseUntilMs := by
  have hadd : checkedAdd c.nowMs c.leaseMs = some c.leaseUntilMs := if_pos hlt
  simp only [leaseChecks, validateLease_of hv, ok_bind, leaseDeadline, hadd]

theorem leaseChecks_overflow (hv : c.Valid) (hle : 2 ^ 64 ≤ c.leaseUntilMs) :
    leaseChecks c.nowMs c.workerId c.leaseMs = .error .timeRange := by
  have hadd : checkedAdd c.nowMs c.leaseMs = none := if_neg (not_lt.mpr hle)
  simp only [leaseChecks, validateLease_of hv, ok_bind, leaseDeadline, hadd]

theorem leaseUntilMs_pos (hv : c.Valid) : 0 < c.leaseUntilMs := by
  have hms := hv.leaseMs
  simp only [validateLeaseMs, reject_ok, not_or] at hms
  rw [ClaimCall.leaseUntilMs]
  omega

def ClaimCall.granted (c : ClaimCall) (t : Task J) (g : ℕ) : TaskClaim J :=
  ⟨t.begun, g, c.workerId, c.leaseUntilMs⟩

theorem granted_wired (hdeliver : Deliverable T t) (hv : c.Valid)
    (hlt : c.leaseUntilMs < 2 ^ 64) (hgen : s.nextGeneration t.info.id = some g) :
    (c.granted t g).Wired T := by
  obtain ⟨_, hmax⟩ := nextGeneration_spec hgen
  have hpos : 0 < g := by omega
  exact ⟨hdeliver.of_eq rfl rfl, nextAttempt_ne_zero _, ⟨hpos, hmax⟩,
    ⟨leaseUntilMs_pos hv, hlt⟩, hv.workerId⟩

end Turn

/-- What the loop of `claim` has done when it returns: `fresh` are the leases it has added. -/
structure Claimed (T : Texts J) (c : ClaimCall) (leases : List (TaskLease J)) (s : Scheduler J)
    (fresh : List (TaskLease J)) (es : List (Effect J)) (response : Message J)
    (s' : Scheduler J) : Prop where
  chain : Chain s es s'
  wired : ∀ e ∈ es, e.Wired T
  fromQueue : ∀ e ∈ es, e.FromQueue s.queue c.nowMs
  owned : ∀ id k, .granted id k ∈ es → k.leaseOwner = c.workerId ∧ k.leaseUntilMs = c.leaseUntilMs
  granted : fresh.map TaskLease.claim = es.flatMap leased
  held : ∀ lease ∈ fresh, ∃ t a, lease.Held s' t a
  response : (response = .claimed c.requestId (leases ++ fresh) ∧
      SendableLeases T c.requestId (leases ++ fresh)) ∨
    (leases = [] ∧ fresh = [] ∧ ∃ e, response = schedulerError (some c.requestId) e ∧
      (e = .timeRange ∧ 2 ^ 64 ≤ c.leaseUntilMs ∨ e = .generationExhausted))

section Loop

variable {c : ClaimCall} {t : Task J} {leases : List (TaskLease J)}

variable {s₁ : Scheduler J} {fresh : List (TaskLease J)} {es' : List (Effect J)}
  {response₁ : Message J} {e : SchedulerError} {turns : ℕ}

theorem Peeked.claimed {next : Option (Task J)} (h : Peeked s c.nowMs next s₁)
    (hsend : SendableLeases T c.requestId leases) :
    ∃ es, Claimed T c leases s [] es (.claimed c.requestId leases) s₁ := by
  obtain ⟨es, hchain, hes⟩ := h.effects
  refine ⟨es, hchain, ?_, ?_, ?_, ?_, by simp, .inl ⟨by simp, by simpa using hsend⟩⟩
  · intro e he
    obtain ⟨-, -, rfl⟩ := hes e he
    trivial
  · intro e he
    obtain ⟨_, hid, rfl⟩ := hes e he
    exact ⟨hid, rfl⟩
  · intro id k he
    obtain ⟨_, -, hx⟩ := hes _ he
    cases hx
  · refine (flatMap_eq_nil_iff.mpr fun e he => ?_).symm
    obtain ⟨-, -, rfl⟩ := hes e he
    rfl

variable {s' : Scheduler J}

theorem Claimed.after {first : List (TaskLease J)} (hok : s.Ok)
    (h₁ : Claimed T c leases s first es response₁ s₁)
    (h : Claimed T c (leases ++ first) s₁ fresh es' response s') :
    Claimed T c leases s (first ++ fresh) (es ++ es') response s' := by
  have hsub := h₁.chain.queue_subset h₁.fromQueue
  refine ⟨h₁.chain.append h.chain, ?_, ?_, ?_, ?_, ?_, ?_⟩
  · intro e he
    rcases mem_append.mp he with he | he
    · exact h₁.wired e he
    · exact h.wired e he
  · intro e he
    rcases mem_append.mp he with he | he
    · exact h₁.fromQueue e he
    · exact (h.fromQueue e he).mono hsub
  · intro id k he
    rcases mem_append.mp he with he | he
    · exact h₁.owned id k he
    · exact h.owned id k he
  · rw [map_append, flatMap_append, h₁.granted, h.granted]
  · intro lease hlease
    rcases mem_append.mp hlease with hlease | hlease
    · obtain ⟨t, a, hheld⟩ := h₁.held lease hlease
      exact ⟨t, a, hheld.keep (hok.chain h₁.chain) h.chain h.fromQueue⟩
    · exact h.held lease hlease
  · rcases h.response with ⟨hresponse, hsend⟩ | ⟨hnil, rfl, hfailed⟩
    · rw [append_assoc] at hresponse hsend
      exact .inl ⟨hresponse, hsend⟩
    · obtain ⟨hleases, hfirst⟩ := append_eq_nil_iff.mp hnil
      exact .inr ⟨hleases, by rw [hfirst]; rfl, hfailed⟩

theorem Claimed.afterPeek (hok : s.Ok) (h₁ : Claimed T c leases s [] es response₁ s₁)
    (h : Claimed T c leases s₁ fresh es' response s') :
    Claimed T c leases s fresh (es ++ es') response s' := by
  rw [← append_nil leases] at h
  exact h₁.after hok h

theorem Runnable.claimed (hrun : Runnable s c.nowMs t) (hok : s.Ok) (hv : c.Valid)
    (hlt : c.leaseUntilMs < 2 ^ 64) (hgen : s.nextGeneration t.info.id = some g)
    (hsend : SendableLeases T c.requestId (leases ++ [c.leaseOf t g])) :
    Claimed T c leases s [c.leaseOf t g]
      [.begun t.info.id, .granted t.info.id (c.claimOf g)]
      (.claimed c.requestId (leases ++ [c.leaseOf t g]))
      (apply (apply s (.begun t.info.id)) (.granted t.info.id (c.claimOf g))) := by
  obtain ⟨_, hqueue⟩ := hrun.queue
  have hmem : t.info.id ∈ s.queue := by simp [hqueue]
  refine ⟨granted_chain hok hrun hgen, ?_, ?_, ?_, rfl, ?_, .inl ⟨rfl, hsend⟩⟩
  · simp only [forall_mem_cons]
    exact ⟨trivial, ⟨⟨leaseUntilMs_pos hv, hlt⟩, hv.workerId⟩, by simp⟩
  · simp only [forall_mem_cons]
    exact ⟨hmem, hmem, by simp⟩
  · simp only [mem_cons, reduceCtorEq, false_or, not_mem_nil, or_false, granted.injEq]
    rintro - - ⟨-, rfl⟩
    exact ⟨rfl, rfl⟩
  · intro lease hlease
    obtain rfl := mem_singleton.mp hlease
    refine ⟨t.begun, c.claimOf g, tasks_begun hrun, rfl, ?_, rfl⟩
    exact Table.get?_insert_self ..

theorem Runnable.rotated (hrun : Runnable s c.nowMs t)
    (hchain : Chain s [.begun t.info.id, .moved t.info.id .retrying, .moved t.info.id .queued] s')
    (hsend : SendableLeases T c.requestId leases) : Claimed T c leases s []
      [.begun t.info.id, .moved t.info.id .retrying, .moved t.info.id .queued]
      (.claimed c.requestId leases) s' := by
  obtain ⟨_, hqueue⟩ := hrun.queue
  have hmem : t.info.id ∈ s.queue := by simp [hqueue]
  refine ⟨hchain, ?_, ?_, by simp, rfl, by simp, .inl ⟨by simp, by simpa using hsend⟩⟩
  · simp [Effect.Wired]
  · simp [Effect.FromQueue, hmem]

theorem Claimed.failed (h : Claimed T c leases s [] es response s')
    (hsend : SendableLeases T c.requestId leases)
    (he : e = .timeRange ∧ 2 ^ 64 ≤ c.leaseUntilMs ∨ e = .generationExhausted) :
    Claimed T c leases s [] es
      (if leases = [] then schedulerError (some c.requestId) e else .claimed c.requestId leases)
      s' := by
  refine ⟨h.chain, h.wired, h.fromQueue, h.owned, h.granted, h.held, ?_⟩
  by_cases hleases : leases = []
  · exact .inr ⟨hleases, rfl, e, if_pos hleases, he⟩
  · rw [if_neg hleases, append_nil]
    exact .inl ⟨rfl, hsend⟩

def ClaimCall.loop (T : Texts J) (c : ClaimCall) (turns : ℕ) (leases : List (TaskLease J))
    (s : Scheduler J) : Message J × Scheduler J :=
  claimLoop T c.requestId c.workerId c.leaseMs c.nowMs turns leases s

theorem loop_failed (hpeek : s.peekRunnable c.nowMs = (.ok (some t), s₁))
    (hrefusal : refusal T c.requestId c.workerId leases t = none)
    (hclaim : s₁.claimWithLease c.nowMs c.workerId c.leaseMs = (.error e, s')) :
    c.loop T (turns + 1) leases s =
      (if leases = [] then schedulerError (some c.requestId) e else .claimed c.requestId leases,
        s') := by
  simp only [ClaimCall.loop, claimLoop, hpeek, hrefusal, hclaim]
  split <;> rfl

theorem loop_leased (hok : s₁.Ok) (hpeek : s.peekRunnable c.nowMs = (.ok (some t), s₁))
    (hrun : Runnable s₁ c.nowMs t) (hdeliver : Deliverable T t)
    (hrefusal : refusal T c.requestId c.workerId leases t = none) (hv : c.Valid)
    (hlt : c.leaseUntilMs < 2 ^ 64) (hgen : s₁.nextGeneration t.info.id = some g) :
    c.loop T (turns + 1) leases s = c.loop T turns (leases ++ [c.leaseOf t g])
      (apply (apply s₁ (.begun t.info.id)) (.granted t.info.id (c.claimOf g))) := by
  have hchecks := leaseChecks_ok hv hlt
  have hwire : wireLease T (c.granted t g) = .ok (c.leaseOf t g) :=
    wireLease_of (granted_wired hdeliver hv hlt hgen)
  have hclaim := claimWithLease_of hok hrun hchecks hgen
  unfold ClaimCall.granted at hwire
  simp only [ClaimCall.loop, claimLoop, hpeek, hrefusal, hclaim, hwire]
  rfl

theorem loop_claimed (turns : ℕ) (h : s.Sound T) (hv : c.Valid)
    (hcount : leases.length + turns ≤ maxClaimBatch) (hsend : SendableLeases T c.requestId leases) :
    ∃ fresh es, Claimed T c leases s fresh es (c.loop T turns leases s).1
      (c.loop T turns leases s).2 := by
  induction turns generalizing leases s with
  | zero =>
    exact ⟨[], [], .nil s, by simp, by simp, by simp, rfl, by simp,
      .inl ⟨by rw [append_nil]; rfl, by simpa using hsend⟩⟩
  | succ turns ih =>
    obtain ⟨next, s₁, hpeek, hpeeked⟩ := peekRunnable_spec h.ok c.nowMs
    obtain ⟨es, hclaimed⟩ := hpeeked.claimed hsend
    have hsound := h.chain hclaimed.chain hclaimed.wired
    cases next with
    | none =>
      have hloop : c.loop T (turns + 1) leases s = (.claimed c.requestId leases, s₁) := by
        simp only [ClaimCall.loop, claimLoop, hpeek]
      rw [hloop]
      exact ⟨[], es, hclaimed⟩
    | some t =>
      have hrun := hpeeked.some t rfl
      have hdeliver := hsound.deliverable _ _ hrun.stored
      rcases refusal_cases hdeliver (hrun.begun hsound.ok).1 hv hsend (by omega) with
        ⟨hnone, hpreview⟩ | ⟨hfull, -⟩
      · by_cases hlt : c.leaseUntilMs < 2 ^ 64
        · have hchecks := leaseChecks_ok hv hlt
          cases hgen : s₁.nextGeneration t.info.id with
          | none =>
            obtain ⟨_, hrotated, hmoves⟩ := claimWithLease_exhausted hsound.ok hrun hchecks hgen
            have hrest := (hrun.rotated hmoves hsend).failed hsend (.inr rfl)
            rw [loop_failed hpeek hnone hrotated]
            exact ⟨_, _, hclaimed.afterPeek h.ok hrest⟩
          | some g =>
            have hpush : SendableLeases T c.requestId (leases ++ [c.leaseOf t g]) :=
              hpreview.push (granted_wired hdeliver hv hlt hgen)
            have hgrant := hrun.claimed hsound.ok hv hlt hgen hpush
            have hnext := hsound.chain hgrant.chain hgrant.wired
            obtain ⟨_, _, hrest⟩ := ih hnext (by simp; omega) hpush
            rw [loop_leased hsound.ok hpeek hrun hdeliver hnone hv hlt hgen]
            exact ⟨_, _, hclaimed.afterPeek h.ok (hgrant.after hsound.ok hrest)⟩
        · have hchecks := leaseChecks_overflow hv (not_lt.mp hlt)
          rw [loop_failed hpeek hnone (claimWithLease_refused hchecks)]
          exact ⟨[], es, hclaimed.failed hsend (.inl ⟨rfl, not_lt.mp hlt⟩)⟩
      · have hloop : c.loop T (turns + 1) leases s = (.claimed c.requestId leases, s₁) := by
          simp only [ClaimCall.loop, claimLoop, hpeek, hfull]
        rw [hloop]
        exact ⟨[], es, hclaimed⟩

end Loop

end Tysel.Tasks
