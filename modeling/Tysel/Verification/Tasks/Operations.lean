import Tysel.Verification.Tasks.Effects

/-! One specification for each operation on a scheduler whose queue is in order: its result and
the effects it commits. -/

namespace Tysel.Tasks

open List Table TaskState Scheduler

open Tysel.Durable (TaskId checkedAdd)
open Effect (Enabled apply)
open Scheduler (transition enqueue retry peekLoop moved requeued start claim claimWithLease
  requeueLoop)

variable {J : Type} {s : Scheduler J} {id : TaskId} {t : Task J} {now : ℕ} {e : Effect J}
  {s₁ : Scheduler J} {next : TaskState} {ids : List TaskId}

/-! ## Chains -/

theorem Chain.nil (s : Scheduler J) : Chain s [] s := Guarded.Chain.nil s

theorem Chain.one (hen : e.Enabled s) : Chain s [e] (e.apply s) := Guarded.Chain.single hen

variable {es : List (Effect J)}

theorem Chain.append {s₂ s₃ : Scheduler J} {es' : List (Effect J)} (h : Chain s₁ es s₂)
    (h' : Chain s₂ es' s₃) : Chain s₁ (es ++ es') s₃ := by
  induction h with
  | nil => exact h'
  | cons hen _ ih => exact .cons hen (ih h')

variable {s' : Scheduler J} {owner : String} {dur : ℕ}

/-- A task that no effect of a chain names keeps its entry and its claim. -/
theorem Chain.untouched (h : Chain s es s') (hother : ∀ e ∈ es, id ≠ e.id) :
    s'.tasks.get? id = s.tasks.get? id ∧ s'.claims.get? id = s.claims.get? id := by
  induction h with
  | nil => exact ⟨rfl, rfl⟩
  | cons hen _ ih =>
    obtain ⟨htasks, hclaims⟩ := ih fun e he => hother e (mem_cons_of_mem _ he)
    have hne := hother _ (mem_cons_self ..)
    exact ⟨htasks.trans ((apply_tasks hen id).trans (if_neg hne)),
      hclaims.trans ((apply_claims hen id).trans (if_neg hne))⟩

theorem Chain.generations_eq (h : Chain s es s')
    (hother : ∀ e ∈ es, ∀ claim, e ≠ .granted id claim) :
    s'.generations.get? id = s.generations.get? id := by
  induction h with
  | nil => rfl
  | @cons _ _ e _ _ _ ih =>
    rw [ih fun e he => hother e (mem_cons_of_mem _ he)]
    refine (apply_generations _ _ id).trans ?_
    cases e with
    | granted _ claim =>
      refine if_neg fun hid => hother _ (mem_cons_self ..) claim ?_
      rw [hid]
    | _ => rfl

/-- A task that a chain leaves in the queue was there or is named by an effect. -/
theorem Chain.mem_queue (h : Chain s es s') (hid : id ∈ s'.queue) :
    id ∈ s.queue ∨ ∃ e ∈ es, id = e.id := by
  induction h with
  | nil => exact .inl hid
  | cons hen _ ih =>
    rcases ih hid with hid | ⟨e, he, hid⟩
    · rcases mem_apply_queue hen hid with hid | hid
      · exact .inl hid
      · exact .inr ⟨_, mem_cons_self .., hid⟩
    · exact .inr ⟨e, mem_cons_of_mem _ he, hid⟩

/-! ## Transitions -/

theorem transition_of (hta : s.tasks.get? id = some t) (hcan : t.state.canTransitionTo next = true)
    (hroom : next = .queued → s.queue.length < s.capacity) :
    s.transition id next = (.ok (t.in next), s.moved id (t.in next)) := by
  have hfull : ¬(next = .queued ∧ s.capacity ≤ s.queue.length) := fun ⟨hq, hle⟩ => by
    have := hroom hq
    omega
  simp only [transition, hta, if_neg hfull, Task.transition, hcan, if_true]
  rfl

theorem transition_cases (s : Scheduler J) (id : TaskId) (next : TaskState) :
    (∃ e, s.transition id next = (.error e, s)) ∨
      ∃ t, s.tasks.get? id = some t ∧ t.state.canTransitionTo next = true ∧
        (next = .queued → s.queue.length < s.capacity) ∧
        s.transition id next = (.ok (t.in next), s.moved id (t.in next)) := by
  cases hta : s.tasks.get? id with
  | none => exact .inl ⟨.unknown id, by simp [transition, hta]⟩
  | some t =>
    by_cases hfull : next = .queued ∧ s.capacity ≤ s.queue.length
    · exact .inl ⟨.full s.capacity, by simp only [transition, hta, if_pos hfull]⟩
    cases hcan : t.state.canTransitionTo next with
    | false =>
      exact .inl ⟨.invalidTransition ⟨t.info.id, t.state, next⟩, by
        simp only [transition, hta, if_neg hfull, Task.transition, hcan,
          Bool.false_eq_true, if_false]⟩
    | true =>
      have hroom : next = .queued → s.queue.length < s.capacity := fun hq => by
        by_contra hle
        exact hfull ⟨hq, by omega⟩
      exact .inr ⟨t, rfl, hcan, hroom, transition_of hta hcan hroom⟩

theorem enqueue_cases (s : Scheduler J) (t : Task J) : (∃ e, s.enqueue t = (.error e, s)) ∨
      (Enabled s (.admitted (t.in .queued)) ∧
        s.enqueue t = (.ok (), apply s (.admitted (t.in .queued)))) := by
  unfold enqueue
  split
  · exact .inl ⟨_, rfl⟩
  rename_i hnew
  split
  · exact .inl ⟨_, rfl⟩
  unfold Task.transition
  split
  · exact .inl ⟨_, rfl⟩
  rename_i hqueued
  split at hqueued
  · obtain rfl := Except.ok.inj hqueued
    exact .inr ⟨⟨by simpa using hnew, by omega, rfl⟩, rfl⟩
  · cases hqueued

section

variable (hta : s.tasks.get? id = some t)
  (hworking : t.state = .running ∨ t.state = .waitingIo)

include hta hworking

theorem timeout_of : Enabled s (.moved id .timedOut) ∧ s.transition id .timedOut =
      (.ok (t.in .timedOut), apply s (.moved id .timedOut)) := by
  have hcan : t.state.canTransitionTo .timedOut = true := by
    rcases hworking with hstate | hstate <;> rw [hstate] <;> rfl
  refine ⟨⟨t, hta, hcan, by simp, by simp⟩, ?_⟩
  rw [transition_of hta hcan (by simp), apply_moved hta]

theorem retry_of (hroom : s.queue.length < s.capacity) : s.retry id = (.ok (t.in .queued),
        apply (apply s (.moved id .retrying)) (.moved id .queued)) ∧
      Chain s [.moved id .retrying, .moved id .queued]
        (apply (apply s (.moved id .retrying)) (.moved id .queued)) := by
  have hcan : t.state.canTransitionTo .retrying = true := by
    rcases hworking with hstate | hstate <;> rw [hstate] <;> rfl
  have hfirst : Enabled s (.moved id .retrying) := ⟨t, hta, hcan, by simp, by simp⟩
  have htask' : (apply s (.moved id .retrying)).tasks.get? id = some (t.in .retrying) := by
    rw [apply_moved hta]
    exact get?_insert_self ..
  have hroom' : (apply s (.moved id .retrying)).queue.length <
      (apply s (.moved id .retrying)).capacity := by
    rw [apply_moved hta]
    exact hroom
  have hsecond : Enabled (apply s (.moved id .retrying)) (.moved id .queued) :=
    ⟨_, htask', rfl, fun _ => hroom', by simp⟩
  refine ⟨?_, .cons hfirst (.cons hsecond (.nil _))⟩
  rw [retry, transition_of hta hcan (by simp), andThen_ok, ← apply_moved hta,
    transition_of htask' rfl (fun _ => hroom'), apply_moved htask']
  rfl

end

theorem moved_unclaimed (hen : Enabled s (.moved id next)) (hdrops : next.dropsClaim = true) :
    (apply s (.moved id next)).claims.get? id = none :=
  ((apply_claims hen id).trans (if_pos rfl)).trans (if_pos hdrops)

theorem retry_unclaimed (h : Chain s [.moved id .retrying, .moved id .queued] s') :
    s'.claims.get? id = none := by
  cases h with
  | cons _ hrest =>
    cases hrest with
    | cons hsecond hnil =>
      cases hnil
      exact moved_unclaimed hsecond rfl

/-! ## The head of the queue -/

/-- The task at the head of the queue, when its deadline has not been reached. -/
structure Runnable (s : Scheduler J) (now : ℕ) (t : Task J) : Prop where
  queue : ∃ rest, s.queue = t.info.id :: rest
  stored : s.tasks.get? t.info.id = some t
  early : t.deadlineReached now = false

theorem peekRunnable_of (h : Runnable s now t) : s.peekRunnable now = (.ok (some t), s) := by
  obtain ⟨_, hqueue⟩ := h.queue
  simp [peekRunnable, hqueue, peekLoop, h.stored, h.early]

theorem popped_moved {rest : List TaskId} (hqueue : s.queue = id :: rest) :
    moved { s with queue := rest } id (t.in .timedOut) = s.moved id (t.in .timedOut) := by
  have hfilter : (id :: rest).filter (· ≠ id) = rest.filter (· ≠ id) := by simp
  simp only [moved, requeued, Task.in_state, isTerminal, hqueue,
    reduceCtorEq, if_false, if_true, hfilter]

/-- What `peek_runnable` leaves: it has expired overdue heads only. -/
structure Peeked (s : Scheduler J) (now : ℕ) (next : Option (Task J)) (s' : Scheduler J) :
    Prop where
  effects : ∃ es, Chain s es s' ∧ ∀ e ∈ es, ∃ id ∈ s.queue, e = .expired id now
  none : next = none → s'.queue = []
  some : ∀ t, next = some t → Runnable s' now t

theorem peekLoop_spec (fuel : ℕ) (h : s.Ok) (hfuel : s.queue.length ≤ fuel) :
    ∃ next s', peekLoop now fuel s = (.ok next, s') ∧ Peeked s now next s' := by
  induction fuel generalizing s with
  | zero =>
    have hqueue : s.queue = [] := length_eq_zero_iff.mp (by omega)
    exact ⟨none, s, rfl, ⟨[], .nil s, by simp⟩, fun _ => hqueue, by simp⟩
  | succ fuel ih =>
    unfold peekLoop
    cases hqueue : s.queue with
    | nil => exact ⟨none, s, rfl, ⟨[], .nil s, by simp⟩, fun _ => hqueue, by simp⟩
    | cons id rest =>
      obtain ⟨t, hta, hstate⟩ := (h.queued id).mp (by simp [hqueue])
      simp only [hta]
      cases hdue : t.deadlineReached now with
      | false =>
        have hid := h.keyed id t hta
        refine ⟨some t, s, rfl, ⟨[], .nil s, by simp⟩, by simp, ?_⟩
        rintro _ ⟨⟩
        exact ⟨⟨rest, by rw [hqueue, hid]⟩, by rw [hid, hta], hdue⟩
      | true =>
        have hen : Enabled s (.expired id now) := ⟨rest, t, hqueue, hta, hstate, hdue⟩
        have hmoved : transition { s with queue := rest } id .timedOut =
            (.ok (t.in .timedOut), apply s (.expired id now)) := by
          have hcan : t.state.canTransitionTo .timedOut = true := by
            rw [hstate]
            rfl
          have hpopped : tasks { s with queue := rest } = s.tasks := rfl
          rw [transition_of (hpopped ▸ hta) hcan (by simp), popped_moved hqueue, apply_expired hta]
        have hlength : (apply s (.expired id now)).queue.length ≤ fuel := by
          have hle := length_filter_le (fun x => decide (x ≠ id)) rest
          rw [apply_expired hta, ← popped_moved hqueue]
          rw [hqueue, length_cons] at hfuel
          simp only [moved, requeued, Task.in_state, isTerminal, reduceCtorEq, if_false, if_true]
          omega
        obtain ⟨next, s', hloop, ⟨es, hchain, hes⟩, hnone, hsome⟩ := ih (h.apply hen) hlength
        refine ⟨next, s', ?_, ⟨.expired id now :: es, .cons hen hchain, ?_⟩, hnone, hsome⟩
        · simp only [if_true, hmoved, andThen_ok, hloop]
        intro e he
        rcases mem_cons.mp he with rfl | he
        · exact ⟨id, by simp [hqueue], rfl⟩
        · obtain ⟨x, hx, rfl⟩ := hes e he
          rcases mem_apply_queue hen hx with hx | rfl
          · exact ⟨x, hx, rfl⟩
          · exact ⟨_, by simp [hqueue], rfl⟩

theorem peekRunnable_spec (h : s.Ok) (now : ℕ) :
    ∃ next s', s.peekRunnable now = (.ok next, s') ∧ Peeked s now next s' :=
  peekLoop_spec _ h le_rfl

/-! ## Claims -/

theorem Runnable.begun (h : s.Ok) (hrun : Runnable s now t) :
    t.state = .queued ∧ Enabled s (.begun t.info.id) := by
  obtain ⟨rest, hqueue⟩ := hrun.queue
  obtain ⟨u, ht, hstate⟩ := (h.queued t.info.id).mp (by simp [hqueue])
  obtain rfl : u = t := Option.mem_unique ht hrun.stored
  exact ⟨hstate, rest, u, hqueue, ht, hstate⟩

theorem start_of (h : s.Ok) (hrun : Runnable s now t) :
    s.start t.info.id = (.ok (some t.begun), apply s (.begun t.info.id)) := by
  obtain ⟨_, hqueue⟩ := hrun.queue
  have hbegin : t.beginAttempt = .ok t.begun := by
    simp only [Task.beginAttempt, Task.transition, (hrun.begun h).1, canTransitionTo]
    rfl
  simp [start, hqueue, hrun.stored, hbegin, apply_begun hrun.stored]

/-- `claim` expires overdue heads and begins the first runnable task. -/
theorem claim_spec (h : s.Ok) (now : ℕ) :
    ∃ next s₁, s.peekRunnable now = (.ok next, s₁) ∧ Peeked s now next s₁ ∧ s₁.Ok ∧
      s.claim now = match next with
        | none => (.ok none, s₁)
        | some t => (.ok (some t.begun), apply s₁ (.begun t.info.id)) := by
  obtain ⟨next, s₁, hpeek, hpeeked⟩ := peekRunnable_spec h now
  obtain ⟨_, hchain, -⟩ := hpeeked.effects
  have hok := h.chain hchain
  refine ⟨next, s₁, hpeek, hpeeked, hok, ?_⟩
  rw [claim, hpeek, andThen_ok]
  cases next with
  | none => rfl
  | some t => exact start_of hok (hpeeked.some t rfl)

/-- The checks of a lease that come before the queue is looked at. -/
def leaseChecks (now : ℕ) (owner : String) (dur : ℕ) : Except SchedulerError ℕ :=
  validateLease owner dur >>= fun _ => leaseDeadline now dur

theorem nextGeneration_begun : (apply s (.begun t.info.id)).nextGeneration t.info.id =
      s.nextGeneration t.info.id := by
  rw [nextGeneration, apply_generations]
  rfl

theorem tasks_begun (hrun : Runnable s now t) :
    (apply s (.begun t.info.id)).tasks.get? t.info.id = some t.begun := by
  rw [apply_begun hrun.stored]
  exact get?_insert_self ..

section

variable (h : s.Ok) (hrun : Runnable s now t) {leaseUntilMs : ℕ}

include h hrun

theorem granted_chain {claim : ActiveClaim}
    (hgen : s.nextGeneration t.info.id = some claim.generation) :
    Chain s [.begun t.info.id, .granted t.info.id claim]
      (apply (apply s (.begun t.info.id)) (.granted t.info.id claim)) := by
  refine Chain.append (.one (hrun.begun h).2) (.one ⟨⟨t.begun, tasks_begun hrun, rfl⟩, ?_, ?_⟩)
  · rw [apply_begun hrun.stored]
    exact h.unclaimed hrun.stored (hrun.begun h).1
  · rw [nextGeneration_begun, hgen]

theorem claimWithLease_of (hlease : leaseChecks now owner dur = .ok leaseUntilMs)
    {generation : ℕ} (hgen : s.nextGeneration t.info.id = some generation) :
    s.claimWithLease now owner dur = (.ok (some ⟨t.begun, generation, owner, leaseUntilMs⟩),
        apply (apply s (.begun t.info.id))
          (.granted t.info.id ⟨generation, owner, leaseUntilMs⟩)) := by
  unfold leaseChecks at hlease
  simp only [claimWithLease, hlease, claim, peekRunnable_of hrun, andThen_ok,
    start_of h hrun, Task.begun_info, nextGeneration_begun, hgen]
  rfl

/-- A head without a further generation goes back to the end of the queue. -/
theorem claimWithLease_exhausted (hlease : leaseChecks now owner dur = .ok leaseUntilMs)
    (hgen : s.nextGeneration t.info.id = none) :
    ∃ s', s.claimWithLease now owner dur = (.error .generationExhausted, s') ∧
      Chain s [.begun t.info.id, .moved t.info.id .retrying, .moved t.info.id .queued]
        s' := by
  have hbegun := (hrun.begun h).2
  obtain ⟨rest, hqueue⟩ := hrun.queue
  have hbound := h.bounded
  have hlength : (apply s (.begun t.info.id)).queue.length = rest.length := by
    rw [apply_begun hrun.stored, hqueue]
    rfl
  have hcapacity := apply_capacity s (.begun t.info.id)
  obtain ⟨hretry, hmoves⟩ := retry_of (tasks_begun hrun) (.inl rfl) (by
    simp only [hqueue, length_cons] at hbound
    omega)
  refine ⟨_, ?_, .cons hbegun hmoves⟩
  unfold leaseChecks at hlease
  unfold retry at hretry
  simp only [claimWithLease, hlease, claim, peekRunnable_of hrun, andThen_ok,
    start_of h hrun, Task.begun_info, nextGeneration_begun, hgen]
  rw [← andThen_assoc, hretry]
  rfl

end

theorem claimWithLease_refused {e : SchedulerError} (h : leaseChecks now owner dur = .error e) :
    s.claimWithLease now owner dur = (.error e, s) := by
  unfold leaseChecks at h
  simp only [claimWithLease, h]

/-- A claim with a lease is refused at once, or finds the queue empty, or leases the first
runnable task, or finds that its generations are exhausted. -/
theorem claimWithLease_spec (h : s.Ok) (now : ℕ) (owner : String) (dur : ℕ) :
    (∃ e, leaseChecks now owner dur = .error e ∧ s.claimWithLease now owner dur = (.error e, s)) ∨
    ∃ leaseUntilMs next s₁, leaseChecks now owner dur = .ok leaseUntilMs ∧
      s.peekRunnable now = (.ok next, s₁) ∧ Peeked s now next s₁ ∧ s₁.Ok ∧
      s.claimWithLease now owner dur = match next with
        | none => (.ok none, s₁)
        | some _ => s₁.claimWithLease now owner dur := by
  cases hlease : leaseChecks now owner dur with
  | error e =>
    exact .inl ⟨e, rfl, claimWithLease_refused hlease⟩
  | ok leaseUntilMs =>
    obtain ⟨next, s₁, hpeek, hpeeked, hok, hclaim⟩ := claim_spec h now
    refine .inr ⟨leaseUntilMs, next, s₁, rfl, hpeek, hpeeked, hok, ?_⟩
    unfold leaseChecks at hlease
    cases next with
    | none => simp only [claimWithLease, hlease, hclaim, andThen_ok]
    | some t =>
      have hrun := hpeeked.some t rfl
      have hagain : s₁.claim now = s.claim now := by
        rw [hclaim, claim, peekRunnable_of hrun, andThen_ok]
        exact start_of hok hrun
      simp only [claimWithLease, hlease, hagain]

/-! ## Live claims -/

/-- The claim of a task that a token of the generation and the owner names, within its
lease. -/
structure Live (s : Scheduler J) (claim : TaskClaim J) (now : ℕ) (a : ActiveClaim) :
    Prop where
  stored : s.claims.get? claim.task.info.id = some a
  generation : a.generation = claim.generation
  leaseOwner : a.leaseOwner = claim.leaseOwner
  early : now < a.leaseUntilMs

theorem requireLiveClaim_cases (s : Scheduler J) (claim : TaskClaim J) (now : ℕ) :
    (s.requireLiveClaim claim now = .error .leaseLost ∧ ∀ a, ¬Live s claim now a) ∨
      ∃ a, s.requireLiveClaim claim now = .ok a ∧ Live s claim now a := by
  unfold requireLiveClaim
  cases hclaim : s.claims.get? claim.task.info.id with
  | none => exact .inl ⟨rfl, fun a hlive => by
      have hstored := hlive.stored
      simp [hclaim] at hstored⟩
  | some a =>
    dsimp only
    split
    · rename_i hlost
      refine .inl ⟨rfl, fun active' hlive => ?_⟩
      obtain rfl := Option.mem_unique hclaim hlive.stored
      rcases hlost with hgen | howner | _
      · exact hgen hlive.generation
      · exact howner hlive.leaseOwner
      · have := hlive.early
        omega
    · rename_i hlive
      push Not at hlive
      exact .inr ⟨a, rfl, hclaim, hlive.1, hlive.2.1, hlive.2.2⟩

section Claim

variable {claim : TaskClaim J} {a : ActiveClaim}

theorem requireLiveClaim_of (h : Live s claim now a) : s.requireLiveClaim claim now = .ok a := by
  rcases requireLiveClaim_cases s claim now with ⟨-, hnone⟩ | ⟨_, hok, hlive⟩
  · exact absurd h (hnone a)
  · obtain rfl := Option.mem_unique h.stored hlive.stored
    exact hok

theorem releaseClaim_live (h : Live s claim now a) (hta : s.tasks.get? claim.task.info.id = some t)
    (hworking : t.state = .running ∨ t.state = .waitingIo) :
    (t.deadlineReached now = true ∧ Enabled s (.moved claim.task.info.id .timedOut) ∧
      s.releaseClaim claim now =
        (.ok (t.in .timedOut), apply s (.moved claim.task.info.id .timedOut))) ∨
    (t.deadlineReached now = false ∧ s.queue.length < s.capacity ∧
      ∃ s', Chain s [.moved claim.task.info.id .retrying, .moved claim.task.info.id .queued] s' ∧
        s.releaseClaim claim now = (.ok (t.in .queued), s')) ∨
    (t.deadlineReached now = false ∧ s.capacity ≤ s.queue.length ∧
      s.releaseClaim claim now = (.error (.full s.capacity), s)) := by
  simp only [releaseClaim, requireLiveClaim_of h, hta]
  cases t.deadlineReached now with
  | true =>
    obtain ⟨hen, hmoved⟩ := timeout_of hta hworking
    exact .inl ⟨rfl, hen, hmoved⟩
  | false =>
    by_cases hfull : s.capacity ≤ s.queue.length
    · exact .inr (.inr ⟨rfl, hfull, by simp [hfull]⟩)
    · have hroom : s.queue.length < s.capacity := by omega
      obtain ⟨hretry, hmoves⟩ := retry_of hta hworking hroom
      refine .inr (.inl ⟨rfl, hroom, _, hmoves, ?_⟩)
      simp only [Bool.false_eq_true, if_false, if_neg hfull, hretry]

end Claim

/-! ## Requeued claims -/

/-- An effect of requeueing the claims of `ids`: a task whose deadline has been reached times
out, another one goes back to the queue. -/
def Effect.Reclaims (s : Scheduler J) (now : ℕ) (ids : List TaskId) : Effect J → Prop
  | .moved id next => id ∈ ids ∧ (next = .retrying ∨ next = .queued ∨
        next = .timedOut ∧ ∃ t, s.tasks.get? id = some t ∧ t.deadlineReached now = true)
  | _ => False

theorem reclaims_mem (h : e.Reclaims s now ids) : e.id ∈ ids := by
  cases e with
  | moved => exact h.1
  | _ => exact h.elim

theorem reclaims_mono {ids' : List TaskId} (hsub : ∀ x ∈ ids, x ∈ ids')
    (htasks : ∀ x ∈ ids, s₁.tasks.get? x = s.tasks.get? x) (h : e.Reclaims s₁ now ids) :
    e.Reclaims s now ids' := by
  cases e with
  | moved id =>
    obtain ⟨hid, hnext⟩ := h
    rw [htasks id hid] at hnext
    exact ⟨hsub id hid, hnext⟩
  | _ => exact h.elim

/-- What requeueing the claims of `ids` leaves. -/
structure Requeued (s : Scheduler J) (now : ℕ) (ids done : List TaskId) (s' : Scheduler J) :
    Prop where
  effects : ∃ es, Chain s es s' ∧ ∀ e ∈ es, e.Reclaims s now ids
  listed : ∀ id ∈ done, id ∈ ids
  dropped : ∀ id ∈ done, s'.claims.get? id = none

theorem requeue_one (now : ℕ) (h : s.Ok) {a : ActiveClaim} (hclaim : s.claims.get? id = some a)
    (hta : s.tasks.get? id = some t) (ids processed : List TaskId) :
    (∃ es s₁, Chain s es s₁ ∧ (∀ e ∈ es, e.Reclaims s now [id]) ∧ s₁.claims.get? id = none ∧
      requeueLoop now (id :: ids) processed s = requeueLoop now ids (processed ++ [id]) s₁) ∨
    requeueLoop now (id :: ids) processed s = requeueLoop now ids processed s := by
  obtain ⟨u, ht, hworking⟩ := h.claimed id a hclaim
  obtain rfl : u = t := Option.mem_unique ht hta
  rw [requeueLoop]
  simp only [hta]
  cases hdue : u.deadlineReached now with
  | true =>
    obtain ⟨hen, hmoved⟩ := timeout_of hta hworking
    refine .inl ⟨_, _, .one hen, ?_, ?_, by rw [if_pos rfl, hmoved, andThen_ok]⟩
    · rintro _ he
      obtain rfl := mem_singleton.mp he
      exact ⟨by simp, .inr (.inr ⟨rfl, u, hta, hdue⟩)⟩
    · exact moved_unclaimed hen rfl
  | false =>
    rw [if_neg (by simp)]
    by_cases hroom : s.queue.length < s.capacity
    · obtain ⟨hretry, hmoves⟩ := retry_of hta hworking hroom
      refine .inl ⟨_, _, hmoves, ?_, ?_, by rw [if_pos hroom, hretry, andThen_ok]⟩
      · rintro _ he
        simp only [mem_cons, not_mem_nil, or_false] at he
        rcases he with rfl | rfl
        · exact ⟨by simp, .inl rfl⟩
        · exact ⟨by simp, .inr (.inl rfl)⟩
      · exact retry_unclaimed hmoves
    · exact .inr (by rw [if_neg hroom])

theorem requeueLoop_spec (now : ℕ) (ids processed : List TaskId) (h : s.Ok) (hnodup : ids.Nodup)
    (hclaims : ∀ id ∈ ids, (s.claims.get? id).isSome) :
    ∃ done s', requeueLoop now ids processed s = (.ok (processed ++ done), s') ∧
      Requeued s now ids done s' := by
  induction ids generalizing s processed with
  | nil => exact ⟨[], s, by simp [requeueLoop], ⟨[], .nil s, by simp⟩, by simp, by simp⟩
  | cons id ids ih =>
    obtain ⟨hnot, hnodup⟩ := nodup_cons.mp hnodup
    obtain ⟨a, hclaim⟩ := Option.isSome_iff_exists.mp (hclaims id (mem_cons_self ..))
    obtain ⟨_, hta, -⟩ := h.claimed id a hclaim
    rcases requeue_one now h hclaim hta ids processed with
      ⟨es, s₁, hchain, hes, hdropped, hloop⟩ | hloop
    · -- the other claims and their tasks are as before
      have hframe : ∀ x ∈ ids, s₁.tasks.get? x = s.tasks.get? x ∧
          s₁.claims.get? x = s.claims.get? x := fun x hx => hchain.untouched fun e he => by
        rintro rfl
        exact hnot (mem_singleton.mp (reclaims_mem (hes e he)) ▸ hx)
      obtain ⟨done, s', hrest, ⟨es', hchain', hes'⟩, hlisted, hdone⟩ :=
        ih (processed ++ [id]) (h.chain hchain) hnodup fun x hx => by
          rw [(hframe x hx).2]
          exact hclaims x (mem_cons_of_mem _ hx)
      refine ⟨id :: done, s', by rw [hloop, hrest, append_assoc]; rfl,
        ⟨es ++ es', hchain.append hchain', ?_⟩, ?_, ?_⟩
      · intro e he
        rcases mem_append.mp he with he | he
        · exact reclaims_mono (fun x hx => by simp_all) (fun _ _ => rfl) (hes e he)
        · exact reclaims_mono (fun x hx => mem_cons_of_mem _ hx)
            (fun x hx => (hframe x hx).1) (hes' e he)
      · intro x hx
        rcases mem_cons.mp hx with rfl | hx
        · exact mem_cons_self ..
        · exact mem_cons_of_mem _ (hlisted x hx)
      · intro x hx
        rcases mem_cons.mp hx with rfl | hx
        · refine (hchain'.untouched fun e he => ?_).2.trans hdropped
          rintro rfl
          exact hnot (reclaims_mem (hes' e he))
        · exact hdone x hx
    · obtain ⟨done, s', hrest, ⟨es', hchain', hes'⟩, hlisted, hdone⟩ :=
        ih processed h hnodup fun x hx => hclaims x (mem_cons_of_mem _ hx)
      refine ⟨done, s', by rw [hloop, hrest], ⟨es', hchain', fun e he => ?_⟩,
        fun x hx => mem_cons_of_mem _ (hlisted x hx), hdone⟩
      exact reclaims_mono (fun x hx => mem_cons_of_mem _ hx) (fun _ _ => rfl) (hes' e he)

theorem requeueClaims_spec (h : s.Ok) (p : ActiveClaim → Bool) (now limit : ℕ) :
    ∃ ids done s', (∀ id ∈ ids, ∃ a, s.claims.get? id = some a ∧ p a = true) ∧
      s.requeueClaims (s.claimsWhere p) now limit = (.ok done, s') ∧
      Requeued s now ids done s' := by
  have hmem : ∀ id ∈ (s.claimsWhere p).take limit,
      ∃ a, s.claims.get? id = some a ∧ p a = true := fun id hid => by
    simpa only [claimsWhere, mem_insertionSort, mem_map, Prod.exists,
      mem_select, exists_and_right, exists_eq_right] using mem_of_mem_take hid
  have hnodup : (s.claimsWhere p).Nodup := (perm_insertionSort _ _).nodup_iff.mpr nodup_select
  obtain ⟨done, s', hloop, hrequeued⟩ := requeueLoop_spec now
    ((s.claimsWhere p).take limit) [] h (hnodup.sublist (take_sublist ..))
    fun id hid => by
      obtain ⟨_, hactive, -⟩ := hmem id hid
      simp [hactive]
  exact ⟨_, done, s', hmem, hloop, hrequeued⟩

end Tysel.Tasks
