import Tysel.Verification.Tasks.Operations

/-! In a run that uses `transition` to start only tasks that are not queued, the queue holds each
queued task once and no other task. -/

namespace Tysel.Tasks

open List Scheduler

open Tysel.Durable (TaskId)
open Scheduler (replying cancel perform)

variable {J : Type} {s s' : Scheduler J} {es : List (Effect J)}

/-- `transition` leaves the queue alone when a task starts running, so the task must not be
queued. -/
def SchedulerOp.KeepsQueue (s : Scheduler J) : SchedulerOp J → Prop
  | .transition id .running => ∀ t, s.tasks.get? id = some t → t.state ≠ .queued
  | _ => True

/-- The task that would be leased has another generation. -/
def SchedulerOp.HasGeneration (s : Scheduler J) : SchedulerOp J → Prop
  | .claimWithLease now _ _ => ∀ t s₁, s.peekRunnable now = (.ok (some t), s₁) →
      s.nextGeneration t.info.id ≠ none
  | _ => True

/-- An operation commits a chain of effects, and none when it fails. -/
structure Commits {α : Type} (s : Scheduler J) (x : Except SchedulerError α × Scheduler J) :
    Prop where
  chain : ∃ es, Chain s es x.2
  failed : ∀ e, x.1 = .error e → x.2 = s

section Commits

variable {α : Type}

variable {x : Except SchedulerError α × Scheduler J}

theorem Commits.refused (h : ∃ e, x = (.error e, s)) : Commits s x := by
  obtain ⟨-, rfl⟩ := h
  exact ⟨⟨[], .nil s⟩, fun _ _ => rfl⟩

theorem Commits.done {a : α} (h : x = (.ok a, s')) (hchain : Chain s es s') : Commits s x := by
  subst h
  exact ⟨⟨es, hchain⟩, fun e he => by cases he⟩

theorem Commits.replying (h : Commits s x) (f : α → SchedulerReply J) :
    Commits s (replying f x) := by
  refine ⟨h.chain, fun e he => ?_⟩
  cases hx : x.1 with
  | error e' => exact h.failed e' hx
  | ok => simp [Scheduler.replying, hx, Except.map] at he

end Commits

theorem transition_commits (id : TaskId) (next : TaskState)
    (hkeeps : (SchedulerOp.transition id next).KeepsQueue s) :
    Commits s (s.transition id next) := by
  rcases transition_cases s id next with herror | ⟨t, htask, hcan, hroom, hmoved⟩
  · exact .refused herror
  · rw [← apply_moved htask] at hmoved
    refine .done hmoved (.one ⟨t, htask, hcan, hroom, ?_⟩)
    rintro ⟨hqueued, rfl⟩
    exact hkeeps t htask hqueued

theorem claim_commits (h : s.Ok) (now : ℕ) : Commits s (s.claim now) := by
  obtain ⟨next, _, -, hpeeked, hok, hclaim⟩ := claim_spec h now
  obtain ⟨es, hchain, -⟩ := hpeeked.effects
  cases next with
  | none => exact .done hclaim hchain
  | some t =>
    exact .done hclaim (hchain.append (.one ((hpeeked.some t rfl).begun hok).2))

theorem claimWithLease_chain (h : s.Ok) (now : ℕ) (owner : String) (dur : ℕ) :
    ∃ es, Chain s es (s.claimWithLease now owner dur).2 := by
  rcases claimWithLease_spec h now owner dur with
    ⟨e, -, hclaim⟩ | ⟨leaseUntilMs, next, s₁, hlease, -, hpeeked, hok, hclaim⟩
  · rw [hclaim]
    exact ⟨[], .nil s⟩
  obtain ⟨es, hchain, -⟩ := hpeeked.effects
  rw [hclaim]
  cases next with
  | none => exact ⟨es, hchain⟩
  | some t =>
    have hrun := hpeeked.some t rfl
    cases hgen : s₁.nextGeneration t.info.id with
    | none =>
      obtain ⟨s', hrotated, hmoves⟩ := claimWithLease_exhausted hok hrun hlease hgen
      rw [hrotated]
      exact ⟨_, hchain.append hmoves⟩
    | some =>
      rw [claimWithLease_of hok hrun hlease hgen]
      exact ⟨_, hchain.append (granted_chain hok hrun hgen)⟩

theorem Peeked.nextGeneration {now : ℕ} {next : Option (Task J)} {s₁ : Scheduler J}
    (h : Peeked s now next s₁) (id : TaskId) : s₁.nextGeneration id = s.nextGeneration id := by
  obtain ⟨_, hchain, hes⟩ := h.effects
  have hsame : s₁.generations.get? id = s.generations.get? id := by
    refine hchain.generations_eq fun e he => ?_
    obtain ⟨_, -, rfl⟩ := hes e he
    simp
  rw [Scheduler.nextGeneration, hsame]
  rfl

theorem claimWithLease_failed (h : s.Ok) {now dur : ℕ} {owner : String}
    (hgeneration : (SchedulerOp.claimWithLease now owner dur).HasGeneration s)
    {e : SchedulerError} (hfail : (s.claimWithLease now owner dur).1 = .error e) :
    (s.claimWithLease now owner dur).2 = s := by
  rcases claimWithLease_spec h now owner dur with
    ⟨_, -, hclaim⟩ | ⟨_, next, s₁, hlease, hpeek, hpeeked, hok, hclaim⟩
  · rw [hclaim]
  cases next with
  | none =>
    rw [hclaim] at hfail
    cases hfail
  | some t =>
    have hnext := hgeneration t s₁ hpeek
    rw [← hpeeked.nextGeneration] at hnext
    obtain ⟨_, hgen⟩ := Option.ne_none_iff_exists'.mp hnext
    rw [hclaim, claimWithLease_of hok (hpeeked.some t rfl) hlease hgen] at hfail
    cases hfail

theorem renewClaim_commits (h : s.Ok) (c : TaskClaim J) (now dur : ℕ) :
    Commits s (s.renewClaim c now dur) := by
  unfold renewClaim
  split
  · exact .refused ⟨_, rfl⟩
  rcases requireLiveClaim_cases s c now with ⟨hlost, -⟩ | ⟨active, hrequire, hlive⟩
  · rw [hlost]
    exact .refused ⟨_, rfl⟩
  · obtain ⟨_, htask, -⟩ := h.claimed _ _ hlive.stored
    rw [hrequire, htask]
    exact .done rfl (.one (e := .renewed ..) ⟨active, hlive.stored⟩)

theorem finishClaim_commits (s : Scheduler J) (c : TaskClaim J) (now : ℕ)
    (next : TaskState) : Commits s (s.finishClaim c now next) := by
  unfold finishClaim
  split
  · rcases requireLiveClaim_cases s c now with ⟨hlost, -⟩ | ⟨_, hrequire, -⟩
    · rw [hlost]
      exact .refused ⟨_, rfl⟩
    · rw [hrequire]
      exact transition_commits _ next (by cases next <;> trivial)
  · exact .refused ⟨_, rfl⟩

theorem releaseClaim_commits (h : s.Ok) (c : TaskClaim J) (now : ℕ) :
    Commits s (s.releaseClaim c now) := by
  rcases requireLiveClaim_cases s c now with ⟨hlost, -⟩ | ⟨_, -, hlive⟩
  · exact .refused ⟨_, by rw [releaseClaim, hlost]⟩
  obtain ⟨t, htask, hworking⟩ := h.claimed _ _ hlive.stored
  rcases releaseClaim_live hlive htask hworking with
    ⟨-, hen, hmoved⟩ | ⟨-, -, s', hmoves, hmoved⟩ | ⟨-, -, hfull⟩
  · exact .done hmoved (.one hen)
  · exact .done hmoved hmoves
  · exact .refused ⟨_, hfull⟩

theorem requeueClaims_commits (h : s.Ok) (p : ActiveClaim → Bool) (now limit : ℕ) :
    Commits s (s.requeueClaims (s.claimsWhere p) now limit) := by
  obtain ⟨_, _, _, -, hloop, hrequeued⟩ := requeueClaims_spec h p now limit
  obtain ⟨es, hchain, -⟩ := hrequeued.effects
  exact .done hloop hchain

/-- Every operation commits a chain of effects, and none when it fails with a generation to
grant. -/
theorem perform_commits (h : s.Ok) {op : SchedulerOp J} (hkeeps : op.KeepsQueue s) :
    (∃ es, Chain s es (s.perform op).2) ∧
      (op.HasGeneration s → ∀ e, (s.perform op).1 = .error e → (s.perform op).2 = s) := by
  have hcommits {α : Type} {x : Except SchedulerError α × Scheduler J} {f : α → SchedulerReply J}
      (hx : Commits s x) : (∃ es, Chain s es (replying f x).2) ∧ (op.HasGeneration s →
        ∀ e, (replying f x).1 = .error e → (replying f x).2 = s) :=
    ⟨hx.chain, fun _ => (hx.replying f).failed⟩
  cases op with
  | enqueue t =>
    rcases enqueue_cases s t with herror | ⟨hen, hadmitted⟩
    · exact hcommits (.refused herror)
    · exact hcommits (.done hadmitted (.one hen))
  | claim now => exact hcommits (claim_commits h now)
  | peekRunnable now =>
    obtain ⟨_, _, hpeek, hpeeked⟩ := peekRunnable_spec h now
    obtain ⟨es, hchain, -⟩ := hpeeked.effects
    exact hcommits (.done hpeek hchain)
  | claimWithLease now owner dur =>
    refine ⟨claimWithLease_chain h now owner dur, fun hgeneration e he => ?_⟩
    have hfail : ∃ e, (s.claimWithLease now owner dur).1 = .error e := by
      cases hx : (s.claimWithLease now owner dur).1 with
      | error e => exact ⟨e, rfl⟩
      | ok => simp [perform, replying, hx, Except.map] at he
    obtain ⟨_, hfail⟩ := hfail
    exact claimWithLease_failed h hgeneration hfail
  | renewClaim c now dur =>
    exact hcommits (renewClaim_commits h c now dur)
  | finishClaim c now next =>
    exact hcommits (finishClaim_commits s c now next)
  | releaseClaim c now => exact hcommits (releaseClaim_commits h c now)
  | requeueExpired now limit =>
    exact hcommits (requeueClaims_commits h _ now limit)
  | requeueOwnerClaims _ now limit =>
    refine hcommits ?_
    unfold requeueOwnerClaims
    split
    · exact .refused ⟨_, rfl⟩
    · exact requeueClaims_commits h _ now limit
  | transition id next => exact hcommits (transition_commits id next hkeeps)
  | cancel id =>
    refine hcommits ?_
    unfold cancel
    split
    · exact .refused ⟨_, rfl⟩
    · split
      · exact .done rfl (.nil s)
      · exact transition_commits id .canceled trivial

theorem Chain.terminal (h : Chain s es s')
    {id : TaskId} {t : Task J} (htask : s.tasks.get? id = some t)
    (hterminal : t.state.isTerminal) : s'.tasks.get? id = some t := by
  induction h with
  | nil => exact htask
  | cons hen _ ih => exact ih (apply_terminal hen htask hterminal)

theorem Chain.capacity_eq (h : Chain s es s') : s'.capacity = s.capacity := by
  induction h with
  | nil => rfl
  | cons _ _ ih => exact ih.trans (apply_capacity ..)

theorem new_ok {capacity : ℕ} (h : new capacity = .ok s) : s.Ok ∧ s.capacity = capacity := by
  simp only [new, bind_ok, pure_ok] at h
  obtain ⟨-, -, rfl⟩ := h
  exact ⟨⟨by simp, by simp, by simp, by simp, by simp⟩, rfl⟩

theorem run_chain {ops : List (SchedulerOp J)} (h : s.Ok)
    (hkeeps : ∀ e ∈ trace perform s ops, e.input.KeepsQueue e.before) :
    ∃ es, Chain s es (run perform s ops) := by
  induction ops generalizing s with
  | nil => exact ⟨[], .nil s⟩
  | cons _ _ ih =>
    obtain ⟨⟨es, hchain⟩, -⟩ := perform_commits h (hkeeps _ (mem_cons_self ..))
    obtain ⟨es', hchain'⟩ := ih (h.chain hchain) fun e he => hkeeps e (mem_cons_of_mem _ he)
    exact ⟨es ++ es', hchain.append hchain'⟩

/-- What the scheduler promises about its queue, its claims and its failures. -/
theorem queue_holds_queued_tasks {capacity : ℕ} {s₀ : Scheduler J}
    (hnew : new capacity = .ok s₀) (ops later : List (SchedulerOp J))
    (hkeeps : ∀ e ∈ trace perform s₀ (ops ++ later), e.input.KeepsQueue e.before) :
    let s := run perform s₀ ops
    s.queue.Nodup ∧
    (∀ id, id ∈ s.queue ↔ ∃ t, s.tasks.get? id = some t ∧ t.state = .queued) ∧
    s.queue.length ≤ capacity ∧
    (∀ id active, s.claims.get? id = some active →
      ∃ t, s.tasks.get? id = some t ∧ (t.state = .running ∨ t.state = .waitingIo)) ∧
    (∀ id t, s.tasks.get? id = some t → t.state.isTerminal →
      (run perform s₀ (ops ++ later)).tasks.get? id = some t) ∧
    (∀ e ∈ trace perform s₀ ops, e.input.HasGeneration e.before →
      ∀ error, e.output = .error error → e.after = e.before) := by
  obtain ⟨hok, hcapacity⟩ := new_ok hnew
  rw [trace_append] at hkeeps
  have hfirst : ∀ e ∈ trace perform s₀ ops, e.input.KeepsQueue e.before :=
    fun e he => hkeeps e (mem_append_left _ he)
  obtain ⟨es, hchain⟩ := run_chain hok hfirst
  have hrun := hok.chain hchain
  obtain ⟨_, hlater⟩ := run_chain hrun fun e he => hkeeps e (mem_append_right _ he)
  refine ⟨hrun.nodup, hrun.queued, ?_, hrun.claimed, ?_, ?_⟩
  · rw [← hcapacity, ← hchain.capacity_eq]
    exact hrun.bounded
  · intro id t htask hterminal
    rw [run_append]
    exact hlater.terminal htask hterminal
  intro e he hgeneration error herror
  have hkeep : ∀ (s : Scheduler J) op, SchedulerOp.KeepsQueue s op → s.Ok →
      (s.perform op).2.Ok := by
    intro s op hkeeps hok
    obtain ⟨⟨_, hchain⟩, -⟩ := perform_commits hok hkeeps
    exact hok.chain hchain
  obtain ⟨hbefore, hentry⟩ := trace_invariant_of perform _ hkeep hok hfirst e he
  rw [hentry] at herror ⊢
  exact (perform_commits hbefore (hfirst e he)).2 hgeneration error herror

def plainTask (id : TaskId) : Task Unit :=
  Task.new ⟨id, "app", none, none, none⟩ (.agent "agent") none ()

/-- A leased task waits for input, runs again and is cancelled; the last claim fails. -/
def waitingRun : List (SchedulerOp Unit) :=
  [.enqueue (plainTask 1), .enqueue (plainTask 2), .claimWithLease 0 "w" 5,
    .transition 1 .waitingIo, .transition 1 .running, .cancel 1, .claimWithLease 0 "" 5]

theorem queue_holds_waiting_run :
    let s₀ : Scheduler Unit := ⟨2, [], ∅, ∅, ∅⟩
    (run perform s₀ waitingRun).queue = [2] ∧
    (run perform s₀ waitingRun).queue.Nodup ∧
    ∀ e ∈ trace perform s₀ waitingRun, e.input.HasGeneration e.before →
      ∀ error, e.output = .error error → e.after = e.before := by
  have hkeeps : ∀ e ∈ trace perform ⟨2, [], ∅, ∅, ∅⟩
      (waitingRun ++ []), e.input.KeepsQueue e.before := by
    simp only [waitingRun, append_nil, trace_cons, trace_nil, forall_mem_cons]
    refine ⟨trivial, trivial, trivial, trivial, fun t htask => ?_, trivial, trivial, by simp⟩
    obtain rfl := Option.some.inj htask
    decide
  have h := queue_holds_queued_tasks (show new 2 = .ok _ from rfl) waitingRun [] hkeeps
  exact ⟨rfl, h.1, h.2.2.2.2.2⟩

/-- `transition` starts a queued task and leaves its id in the queue; a retry then queues it
twice, and a claim that fails takes the id of the running task out of the queue. -/
theorem started_task_stays_in_queue : ∃ s₀ s : Scheduler Unit, new 2 = .ok s₀ ∧
      s = run perform s₀ [.enqueue (plainTask 1), .transition 1 .running] ∧
      s.queue = [1] ∧ (s.tasks.get? 1).map (fun t => t.state) = some .running ∧
      (∃ e, (s.claim 0).1 = .error e) ∧ (s.claim 0).2.queue = [] ∧
      (run perform s [.transition 1 .retrying, .transition 1 .queued]).queue = [1, 1] :=
  ⟨⟨2, [], ∅, ∅, ∅⟩, _, rfl, rfl, rfl, rfl, ⟨_, rfl⟩, rfl, rfl⟩

end Tysel.Tasks
