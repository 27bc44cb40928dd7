import Tysel.Verification.Tasks.Claims

/-! What each operation answers and which effects it commits. An operation touches only the tasks
that it is about, and a task times out without an outcome only when its deadline has been
reached. -/

namespace Tysel.Tasks

open Option TaskState TaskOutcome Effect

open Tysel.Durable (TaskId)
open Scheduler (finishes finishClaim renewClaim)
open TaskRpcBroker (claimFromToken settle storedOutcome renew release commit cancel)

variable {J : Type} {T : Texts J} {b : TaskRpcBroker J} {s : Scheduler J} {next : TaskState}
  {lease : LeaseToken} {now : ℕ} {a : ActiveClaim}

/-- The claim that a token names, within its lease. -/
structure LeaseToken.Live (lease : LeaseToken) (s : Scheduler J) (now : ℕ) (id : TaskId)
    (a : ActiveClaim) : Prop where
  parsed : lease.taskId.parse = .ok id
  stored : s.claims.get? id = some a
  generation : a.generation = lease.generation
  leaseOwner : a.leaseOwner = lease.leaseOwner
  early : now < a.leaseUntilMs

def LeaseToken.Stale (lease : LeaseToken) (s : Scheduler J) (now : ℕ) : Prop :=
  ∀ id a, ¬lease.Live s now id a

theorem claimFromToken_some {c : TaskClaim J} (hok : b.scheduler.Ok)
    (h : b.claimFromToken lease = some c) : lease.taskId.parse = .ok c.task.info.id ∧
      b.scheduler.tasks.get? c.task.info.id = some c.task ∧
      c.generation = lease.generation ∧ c.leaseOwner = lease.leaseOwner := by
  unfold claimFromToken at h
  split at h
  · cases h
  · rename_i id hparse
    obtain ⟨t, hta, rfl⟩ := map_eq_some_iff.mp h
    have hid := hok.keyed id t hta
    exact ⟨by rw [hparse, hid], by rw [hid, hta], rfl, rfl⟩

theorem Live.token {c : TaskClaim J} (h : Live b.scheduler c now a)
    (hok : b.scheduler.Ok) (hcl : b.claimFromToken lease = some c) :
    lease.Live b.scheduler now c.task.info.id a := by
  obtain ⟨hparse, -, hgen, howner⟩ := claimFromToken_some hok hcl
  exact ⟨hparse, h.stored, h.generation.trans hgen, h.leaseOwner.trans howner, h.early⟩

theorem LeaseToken.Live.claim {id : TaskId} (hok : b.scheduler.Ok)
    (h : lease.Live b.scheduler now id a) :
    ∃ c, b.claimFromToken lease = some c ∧ c.task.info.id = id ∧
      Tasks.Live b.scheduler c now a := by
  obtain ⟨t, hta, -⟩ := hok.claimed id a h.stored
  refine ⟨⟨t, lease.generation, lease.leaseOwner, 0⟩, ?_, hok.keyed id t hta, ?_⟩
  · simp only [claimFromToken, h.parsed, hta, map_some]
  · exact ⟨(hok.keyed id t hta).symm ▸ h.stored, h.generation, h.leaseOwner, h.early⟩

theorem live_or_stale (hs : s.Sound T) (lease : LeaseToken) (now : ℕ) :
    (∃ id a t, lease.Live s now id a ∧ s.tasks.get? id = some t) ∨ lease.Stale s now := by
  by_cases hlive : ∃ id a, lease.Live s now id a
  · obtain ⟨id, a, hlive⟩ := hlive
    obtain ⟨t, hta, -, -⟩ := hs.running hlive.stored
    exact .inl ⟨id, a, t, hlive, hta⟩
  · push Not at hlive
    exact .inr hlive

theorem claim_of_stale (hok : b.scheduler.Ok) (h : lease.Stale b.scheduler now) :
    b.claimFromToken lease = none ∨ ∃ c, b.claimFromToken lease = some c ∧
        ∀ a, ¬Live b.scheduler c now a := by
  cases hcl : b.claimFromToken lease with
  | none => exact .inl rfl
  | some c =>
    exact .inr ⟨c, rfl, fun a hlive => h _ _ (hlive.token hok hcl)⟩

section Claim

variable {c : TaskClaim J} {now : ℕ} {a : ActiveClaim}

theorem requireLiveClaim_stale (h : ∀ a, ¬Live s c now a) :
    s.requireLiveClaim c now = .error .leaseLost := by
  rcases requireLiveClaim_cases s c now with ⟨hlost, -⟩ | ⟨a, -, hlive⟩
  · exact hlost
  · exact absurd hlive (h a)

theorem releaseClaim_stale (h : ∀ a, ¬Live s c now a) :
    s.releaseClaim c now = (.error .leaseLost, s) := by
  simp only [Scheduler.releaseClaim, requireLiveClaim_stale h]

end Claim

/-- The state that an outcome ends the claim in; a retryable failure releases it. -/
def TaskOutcome.target : TaskOutcome J → Option TaskState
  | .completed _ => some .completed
  | .suspended => some .suspended
  | .failed _ true => none
  | .failed _ false => some .failed
  | .canceled => some .canceled
  | .timedOut => some .timedOut

def TaskOutcome.Final (o : TaskOutcome J) : Prop :=
  ∃ next, o.target = some next ∧ next.isTerminal = true

variable {o : TaskOutcome J}

theorem settle_target (h : o.target = some next) (c : TaskClaim J) (now : ℕ) :
    settle s c o now = s.finishClaim c now next := by
  unfold target at h
  split at h <;> cases h <;> rfl

theorem target_finishes (h : o.target = some next) : finishes next = true := by
  unfold target at h
  split at h <;> cases h <;> rfl

theorem settle_retry (h : o.target = none) (c : TaskClaim J) (now : ℕ) :
    settle s c o now = s.releaseClaim c now := by
  unfold target at h
  split at h <;> first | rfl | cases h

theorem storedOutcome_fits (h : o.target = some next) (hterminal : next.isTerminal = true) :
    (storedOutcome next o).Fits next := by
  unfold target at h
  split at h <;> cases h <;> trivial

theorem settle_stale {c : TaskClaim J} (h : ∀ a, ¬Live s c now a) :
    settle s c o now = (.error .leaseLost, s) := by
  cases htarget : o.target with
  | none => rw [settle_retry htarget, releaseClaim_stale h]
  | some =>
    simp only [settle_target htarget, finishClaim, target_finishes htarget,
      requireLiveClaim_stale h, if_true]

theorem leaseChecks_error {leaseOwner : String} {dur : ℕ} {e : SchedulerError}
    (h : leaseChecks now leaseOwner dur = .error e) :
    e = .invalidLeaseOwner ∨ e = .invalidLeaseDuration ∨ e = .timeRange := by
  unfold leaseChecks validateLease validateLeaseOwner leaseDeadline reject at h
  split at h
  · cases h
    exact .inl rfl
  split at h
  · cases h
    exact .inr (.inl rfl)
  split at h
  · cases h
  · cases h
    exact .inr (.inr rfl)

section Requests

variable (rid : UInt64) {lease : LeaseToken} {now : ℕ} (dur : ℕ)

section

variable (hs : b.scheduler.Sound T) (h : lease.Stale b.scheduler now)

include hs h

/-- A stale token renews nothing; the range of the clock is checked first. -/
theorem renew_stale : b.renew T rid lease dur now =
    (match b.claimFromToken lease, leaseChecks now lease.leaseOwner dur with
      | some _, .error e => schedulerError (some rid) e
      | _, _ => .renewed rid none, b) := by
  rcases claim_of_stale hs.ok h with hnone | ⟨c, hcl, hlost⟩
  · simp only [renew, hnone]
  rw [hcl, ← (claimFromToken_some hs.ok hcl).2.2.2]
  cases hchecks : leaseChecks now c.leaseOwner dur with
  | error e =>
    have hrenew : b.scheduler.renewClaim c now dur = (.error e, b.scheduler) := by
      unfold leaseChecks at hchecks
      simp only [renewClaim, hchecks]
    rcases leaseChecks_error hchecks with rfl | rfl | rfl <;> simp only [renew, hcl, hrenew]
  | ok =>
    have hrenew : b.scheduler.renewClaim c now dur = (.error .leaseLost, b.scheduler) := by
      unfold leaseChecks at hchecks
      simp only [renewClaim, hchecks, requireLiveClaim_stale hlost]
    simp only [renew, hcl, hrenew]

theorem release_stale : b.release rid lease now = (.released rid false, b) := by
  rcases claim_of_stale hs.ok h with hnone | ⟨_, hcl, hlost⟩
  · simp only [release, hnone]
  · simp only [release, hcl, releaseClaim_stale hlost]

theorem commit_stale (o : TaskOutcome J) :
    b.commit rid lease o now = (.committed rid false, b) := by
  rcases claim_of_stale hs.ok h with hnone | ⟨_, hcl, hlost⟩
  · simp only [commit, hnone]
  · simp only [commit, hcl, settle_stale hlost]

end

variable {id : TaskId} {a : ActiveClaim} {taskId : WireTaskId}

/-- A commit with a live token ends the claim in the state of its outcome. -/
theorem commit_target (hs : b.scheduler.Sound T) (h : lease.Live b.scheduler now id a)
    (htarget : o.target = some next) :
    Enabled b.scheduler (.moved id next) ∧ b.commit rid lease o now = (.committed rid true,
        ⟨apply b.scheduler (.moved id next), if next.isTerminal then
            b.outcomes.insert id (storedOutcome next o) else b.outcomes⟩) := by
  obtain ⟨c, hcl, rfl, hlive⟩ := h.claim hs.ok
  obtain ⟨t, hta, hrunning, -⟩ := hs.running h.stored
  have hsettle := settle_target (s := b.scheduler) htarget c now
  have hfinishes := target_finishes htarget
  have hcan : t.state.canTransitionTo next = true := by
    cases next <;> simp_all [finishes, canTransitionTo]
  have hqueued : next ≠ .queued := by
    rintro rfl
    cases hfinishes
  refine ⟨⟨t, hta, hcan, fun hq => absurd hq hqueued, by simp [hrunning]⟩, ?_⟩
  simp only [commit, hcl, hsettle, finishClaim, hfinishes, requireLiveClaim_of hlive, if_true]
  rw [transition_of hta hcan (fun hq => absurd hq hqueued), apply_moved hta]
  rfl

variable {t : Task J}

/-- What an answered release of a claim does: a timeout, a retry or nothing for a full queue. -/
def Retries (b : TaskRpcBroker J) (now : ℕ) (id : TaskId) (t : Task J) (reply : Bool → Message J)
    (timedOut : Table TaskId (TaskOutcome J)) (result : Message J × TaskRpcBroker J) : Prop :=
  (t.deadlineReached now = true ∧ Enabled b.scheduler (.moved id .timedOut) ∧
    result = (reply true, ⟨apply b.scheduler (.moved id .timedOut), timedOut⟩)) ∨
  (t.deadlineReached now = false ∧ b.scheduler.queue.length < b.scheduler.capacity ∧
    ∃ s', Chain b.scheduler [.moved id .retrying, .moved id .queued] s' ∧
      result = (reply true, { b with scheduler := s' })) ∨
  (t.deadlineReached now = false ∧ b.scheduler.capacity ≤ b.scheduler.queue.length ∧
    result = (reply false, b))

section

variable (hs : b.scheduler.Sound T) (h : lease.Live b.scheduler now id a)
  (hta : b.scheduler.tasks.get? id = some t)

include hs h hta

/-- A retryable failure with a live token. -/
theorem commit_retry (htarget : o.target = none) :
    Retries b now id t (.committed rid) (b.outcomes.insert id .timedOut)
      (b.commit rid lease o now) := by
  obtain ⟨c, hcl, rfl, hlive⟩ := h.claim hs.ok
  obtain ⟨u, ht, hrunning, -⟩ := hs.running h.stored
  obtain rfl : u = t := mem_unique ht hta
  have hsettle := settle_retry (s := b.scheduler) htarget c now
  rcases releaseClaim_live hlive hta (.inl hrunning) with
    ⟨hdue, hen, hrelease⟩ | ⟨hearly, hroom, s', hchain, hrelease⟩ | ⟨hearly, hfull, hrelease⟩
  · refine .inl ⟨hdue, hen, ?_⟩
    simp only [commit, hcl, hsettle, hrelease, Task.in_state, isTerminal, if_true]
    rfl
  · refine .inr (.inl ⟨hearly, hroom, s', hchain, ?_⟩)
    simp only [commit, hcl, hsettle, hrelease, Task.in_state,
      isTerminal, Bool.false_eq_true, if_false]
  · exact .inr (.inr ⟨hearly, hfull, by
      simp only [commit, hcl, hsettle, hrelease]⟩)

theorem release_live : Retries b now id t (.released rid) b.outcomes
      (b.release rid lease now) := by
  obtain ⟨c, hcl, rfl, hlive⟩ := h.claim hs.ok
  obtain ⟨u, ht, hrunning, -⟩ := hs.running h.stored
  obtain rfl : u = t := mem_unique ht hta
  rcases releaseClaim_live hlive hta (.inl hrunning) with
    ⟨hdue, hen, hrelease⟩ | ⟨hearly, hroom, s', hchain, hrelease⟩ | ⟨hearly, hfull, hrelease⟩
  · exact .inl ⟨hdue, hen, by simp only [release, hcl, hrelease]⟩
  · exact .inr (.inl ⟨hearly, hroom, s', hchain, by
      simp only [release, hcl, hrelease]⟩)
  · exact .inr (.inr ⟨hearly, hfull, by simp only [release, hcl, hrelease]⟩)

end

theorem Scheduler.Sound.wired (hs : s.Sound T) (hactive : s.claims.get? id = some a)
    (hta : s.tasks.get? id = some t) {leaseUntilMs : ℕ} (hpos : 0 < leaseUntilMs)
    (hlt : leaseUntilMs < 2 ^ 64) :
    TaskClaim.Wired T ⟨t, a.generation, a.leaseOwner, leaseUntilMs⟩ := by
  obtain ⟨_, ht, hrunning, -⟩ := hs.running hactive
  obtain rfl := mem_unique ht hta
  exact ⟨hs.deliverable _ _ hta, hs.attempted _ _ hta hrunning,
    (hs.generations _ _ (hs.numbered _ _ hactive)).2, ⟨hpos, hlt⟩, (hs.leases _ _ hactive).2⟩

/-- The renewal of a live token: its new lease, or a clock out of range. -/
theorem renew_live (hs : b.scheduler.Sound T) (h : lease.Live b.scheduler now id a)
    (hvalid : validateLeaseMs dur = .ok ()) (hta : b.scheduler.tasks.get? id = some t) :
    (now + dur < 2 ^ 64 ∧ 0 < now + dur ∧ b.renew T rid lease dur now = (.renewed rid
          (some (ActiveClaim.leaseOf { a with leaseUntilMs := now + dur } t)),
          { b with scheduler := apply b.scheduler (.renewed id (now + dur)) })) ∨
    (2 ^ 64 ≤ now + dur ∧ b.renew T rid lease dur now =
        (schedulerError (some rid) .timeRange, b)) := by
  obtain ⟨c, hcl, rfl, hlive⟩ := h.claim hs.ok
  have howner := (hs.leases _ _ h.stored).2
  have hcall : ClaimCall.Valid ⟨rid, c.leaseOwner, dur, now⟩ := ⟨hlive.leaseOwner ▸ howner, hvalid⟩
  have hpos : 0 < now + dur := leaseUntilMs_pos hcall
  by_cases hlt : now + dur < 2 ^ 64
  · have hchecks : leaseChecks now c.leaseOwner dur = .ok (now + dur) :=
      leaseChecks_ok hcall hlt
    unfold leaseChecks at hchecks
    have hrenew : b.scheduler.renewClaim c now dur =
        (.ok ⟨t, a.generation, a.leaseOwner, now + dur⟩,
          apply b.scheduler (.renewed c.task.info.id (now + dur))) := by
      simp only [renewClaim, hchecks, requireLiveClaim_of hlive, hta]
      rfl
    have hwired := hs.wired h.stored hta hpos hlt
    refine .inl ⟨hlt, hpos, ?_⟩
    simp only [renew, hcl, hrenew, wireLease_of hwired]
    rfl
  · have hchecks : leaseChecks now c.leaseOwner dur = .error .timeRange :=
      leaseChecks_overflow hcall (not_lt.mp hlt)
    unfold leaseChecks at hchecks
    refine .inr ⟨not_lt.mp hlt, ?_⟩
    simp only [renew, hcl, renewClaim, hchecks]

theorem cancel_of (hta : s.tasks.get? id = some t) (hstate : t.state.isTerminal = false) :
    Enabled s (.moved id .canceled) ∧
      s.cancel id = (.ok (t.in .canceled), apply s (.moved id .canceled)) := by
  have hcan : t.state.canTransitionTo .canceled = true := by
    generalize t.state = state at hstate
    cases state <;> simp_all [isTerminal, canTransitionTo]
  refine ⟨⟨t, hta, hcan, by simp, by simp⟩, ?_⟩
  simp only [Scheduler.cancel, hta, hstate, Bool.false_eq_true, if_false]
  rw [transition_of hta hcan (by simp), apply_moved hta]

/-- What a cancel request does to a known task: nothing when it has finished otherwise. -/
theorem cancel_cases (hparse : taskId.parse = .ok id) (hta : b.scheduler.tasks.get? id = some t) :
    (t.state.isTerminal = false ∧ Enabled b.scheduler (.moved id .canceled) ∧
      b.cancel rid taskId = (.canceled rid true,
        ⟨apply b.scheduler (.moved id .canceled), b.outcomes.insert id .canceled⟩)) ∨
    (t.state = .canceled ∧ b.cancel rid taskId =
      (.canceled rid true, { b with outcomes := b.outcomes.insert id .canceled })) ∨
    (t.state.isTerminal = true ∧ t.state ≠ .canceled ∧
      b.cancel rid taskId = (.canceled rid false, b)) := by
  cases hterminal : t.state.isTerminal with
  | false =>
    obtain ⟨hen, hcancel⟩ := cancel_of hta hterminal
    refine .inl ⟨rfl, hen, ?_⟩
    simp only [cancel, hparse, hcancel, Task.in_state, if_true]
  | true =>
    have hcancel : b.scheduler.cancel id = (.ok t, b.scheduler) := by
      simp only [Scheduler.cancel, hta, hterminal, if_true]
    by_cases hcanceled : t.state = .canceled
    · refine .inr (.inl ⟨hcanceled, ?_⟩)
      simp only [cancel, hparse, hcancel, hcanceled, if_true]
    · refine .inr (.inr ⟨rfl, hcanceled, ?_⟩)
      simp only [cancel, hparse, hcancel, if_neg hcanceled]

theorem cancel_unknown (h : ∀ id, taskId.parse = .ok id → b.scheduler.tasks.get? id = none) :
    b.cancel rid taskId = (.canceled rid false, b) := by
  cases hparse : taskId.parse with
  | error => simp only [cancel, hparse]
  | ok id => simp only [cancel, hparse, Scheduler.cancel, h id hparse]

end Requests

end Tysel.Tasks
