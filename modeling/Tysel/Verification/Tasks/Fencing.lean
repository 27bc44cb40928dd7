import Tysel.Verification.Tasks.Queue
import Tysel.Verification.Tasks.Steps

/-! The generations of a task grow with every lease. A token whose claim has been dropped or
replaced never becomes live again, and a task that has finished keeps its outcome. -/

namespace Tysel.Tasks

open List Option WireTaskId Table Except TaskState BrokerEffect Guarded.Chain LeaseToken

open Tysel.Durable (TaskId)
open TaskRpcBroker (perform handle respond)

variable {J : Type} {T : Texts J} {b b' : TaskRpcBroker J} {now : ℕ}

/-! ## Runs of the broker -/

theorem TaskRpcBroker.new_sound {capacity : ℕ} (h : new capacity = .ok b) : b.Sound T := by
  simp only [new, Scheduler.new, bind_ok, pure_ok] at h
  obtain ⟨-, ⟨-, -, rfl⟩, rfl⟩ := h
  exact ⟨⟨⟨by simp, by simp, by simp, by simp, by simp⟩, by simp, by simp, by simp, by simp,
    by simp, by simp⟩, by simp⟩

namespace TaskRpcBroker.Sound

theorem perform (h : b.Sound T) (op : BrokerOp J) : (b.perform T op).2.Sound T := by
  obtain ⟨_, hperformed⟩ := performed h.scheduler op
  exact h.chain hperformed.chain

theorem run (h : b.Sound T) (ops : List (BrokerOp J)) :
    (run (TaskRpcBroker.perform T) b ops).Sound T :=
  run_invariant _ _ h (fun _ op hb => perform hb op) ops

/-- What every effect keeps, every run keeps. -/
theorem run_keeps {P : TaskRpcBroker J → Prop} (hs : b.Sound T) (h : P b)
    (hkeep : ∀ b (e : BrokerEffect J), b.Sound T → P b → e.Enabled T b → P (e.apply b))
    (ops : List (BrokerOp J)) : P (Tysel.run (TaskRpcBroker.perform T) b ops) := by
  have hall := run_invariant (TaskRpcBroker.perform T) b (P := fun b => b.Sound T ∧ P b) ⟨hs, h⟩
    (fun b op hb => by
      obtain ⟨_, hperformed⟩ := performed hb.1.scheduler op
      exact invariant (P := fun b => b.Sound T ∧ P b) (fun _ => True)
        (fun _ _ _ h hen => ⟨h.1.apply hen, hkeep _ _ h.1 h.2 hen⟩) hperformed.chain
        (fun _ _ => trivial) hb) ops
  exact hall.2

end TaskRpcBroker.Sound

/-! ## Generations -/

/-- The leases that the responses of a run have delivered, in order. -/
def grants (tr : List (Entry (TaskRpcBroker J) (BrokerOp J) (BrokerReply J))) :
    List (WireTaskId × ActiveClaim) :=
  tr.flatMap fun e => e.output.leases

/-- The generation of the last lease of a task, zero when there was none. -/
def TaskRpcBroker.lastGeneration (b : TaskRpcBroker J) (id : TaskId) : ℕ :=
  (b.scheduler.generations.get? id).getD 0

variable {id : TaskId} {e : BrokerEffect J} {es : List (BrokerEffect J)} {k : ActiveClaim}

theorem WireTaskId.new_injective {id' : TaskId} (h : new id = new id') : id = id' := by
  have hpa := parse_new id
  rw [h, parse_new] at hpa
  exact (ok.inj hpa).symm

theorem lastGeneration_granted (hen : BrokerEffect.Enabled T b (.quiet (.granted id k))) :
    k.generation = b.lastGeneration id + 1 ∧
      (apply b (.quiet (.granted id k))).lastGeneration id = k.generation := by
  refine ⟨(nextGeneration_spec hen.1.2.2).1, ?_⟩
  simp [apply, Effect.apply, Scheduler.granted, TaskRpcBroker.lastGeneration]

theorem lastGeneration_le_apply (hen : e.Enabled T b) (id : TaskId) :
    b.lastGeneration id ≤ (e.apply b).lastGeneration id := by
  cases e with
  | quiet e =>
    have hgenerations := apply_generations b.scheduler e id
    cases e with
    | granted key =>
      by_cases hid : id = key
      · subst hid
        have := lastGeneration_granted hen
        omega
      · exact (congrArg (·.getD 0) (hgenerations.trans (if_neg hid))).symm.le
    | _ => exact (congrArg (·.getD 0) hgenerations).symm.le
  | finished key next =>
    exact (congrArg (·.getD 0) (apply_generations b.scheduler (.moved key next) id)).symm.le
  | noted => exact le_rfl

theorem lastGeneration_mono (h : BrokerChain T b es b')
    (id : TaskId) : b.lastGeneration id ≤ b'.lastGeneration id := by
  induction h with
  | nil => exact le_rfl
  | cons hen _ ih => exact (lastGeneration_le_apply hen id).trans ih

/-- The leases granted so far: increasing for each task, and none beyond the last
generation. -/
structure Increasing (granted : List (WireTaskId × ActiveClaim)) (b : TaskRpcBroker J) :
    Prop where
  pairwise : granted.Pairwise fun g h => g.1 = h.1 → g.2.generation < h.2.generation
  last : ∀ g ∈ granted, ∃ id, g.1 = .new id ∧ g.2.generation ≤ b.lastGeneration id

theorem Increasing.apply {granted : List (WireTaskId × ActiveClaim)} (h : Increasing granted b)
    (hen : e.Enabled T b) : Increasing (granted ++ e.leased) (e.apply b) := by
  have hkept : ∀ g ∈ granted, ∃ id, g.1 = .new id ∧
      g.2.generation ≤ (e.apply b).lastGeneration id := fun g hg => by
    obtain ⟨id, hid, hle⟩ := h.last g hg
    exact ⟨id, hid, hle.trans (lastGeneration_le_apply hen id)⟩
  by_cases hgrant : ∃ id k, e = .quiet (.granted id k)
  · obtain ⟨id, k, rfl⟩ := hgrant
    obtain ⟨hnext, hlast⟩ := lastGeneration_granted hen
    refine ⟨pairwise_append.mpr ⟨h.pairwise, by simp [leased, Effect.leased], ?_⟩, ?_⟩
    · intro g hg x hx hsame
      obtain rfl := mem_singleton.mp hx
      obtain ⟨id', hid', hle⟩ := h.last g hg
      obtain rfl := new_injective (hid'.symm.trans hsame)
      dsimp only
      omega
    · intro g hg
      rcases mem_append.mp hg with hg | hg
      · exact hkept g hg
      · obtain rfl := mem_singleton.mp hg
        exact ⟨id, rfl, hlast.symm.le⟩
  · have hnone : e.leased = [] := by
      cases e with
      | quiet e =>
        cases e with
        | granted id k => exact absurd ⟨id, k, rfl⟩ hgrant
        | _ => rfl
      | finished | noted => rfl
    rw [hnone, append_nil]
    exact ⟨h.pairwise, hkept⟩

theorem grants_increasing (hs : b.Sound T) (ops : List (BrokerOp J)) :
    Increasing (grants (trace (perform T) b ops))
      (run (perform T) b ops) := by
  have hall := trace_invariant (perform T) b
    (P := fun tr b => b.Sound T ∧ Increasing (grants tr) b)
    ⟨hs, List.Pairwise.nil, by simp [grants]⟩
    (fun tr b op ⟨hb, hinc⟩ => by
      obtain ⟨es, hperformed⟩ := performed hb.scheduler op
      refine ⟨hb.perform op, ?_⟩
      have hgrants : grants (tr ++ [entry (perform T) b op]) = grants tr ++ es.flatMap leased := by
        rw [grants, flatMap_append, ← hperformed.leased]
        simp [grants, entry]
      rw [hgrants]
      exact tracks leased (fun _ => True)
        (fun _ _ _ _ hp hen => hp.apply hen) hperformed.chain (fun _ _ => trivial) hinc) ops
  exact hall.2

/-! ## Outdated tokens -/

/-- The token names a lease of the past: no claim of the task has its generation, and none
will. -/
structure LeaseToken.Outdated (lease : LeaseToken) (b : TaskRpcBroker J) : Prop where
  past : ∀ id, lease.taskId.parse = .ok id → lease.generation ≤ b.lastGeneration id
  dropped : ∀ id a, lease.taskId.parse = .ok id →
    b.scheduler.claims.get? id = some a → a.generation ≠ lease.generation

namespace LeaseToken.Outdated

variable {lease : LeaseToken}

theorem stale (h : lease.Outdated b) (now : ℕ) : lease.Stale b.scheduler now :=
  fun id a hlive => h.dropped id a hlive.parsed hlive.stored hlive.generation

theorem apply (h : lease.Outdated b) (hen : e.Enabled T b) : lease.Outdated (e.apply b) := by
  refine ⟨fun id hid => (h.past id hid).trans (lastGeneration_le_apply hen id), ?_⟩
  intro id a hid hactive
  cases e with
  | quiet =>
    cases apply_claimOrigin hen.1 hactive with
    | kept hold => exact h.dropped id a hid hold
    | granted he =>
      subst he
      have hpast := h.past id hid
      have hnext := (lastGeneration_granted hen).1
      omega
    | renewed old _ _ hold hnew => exact hnew ▸ h.dropped id old hid hold
  | finished =>
    cases apply_claimOrigin hen.1 hactive with
    | kept hold => exact h.dropped id a hid hold
    | granted he | renewed old leaseUntilMs he => cases he
  | noted => exact h.dropped id a hid hactive

theorem chain (h : lease.Outdated b) (hchain : BrokerChain T b es b') : lease.Outdated b' :=
  invariant (P := lease.Outdated) (fun _ => True)
    (fun _ _ _ h hen => Outdated.apply h hen) hchain (fun _ _ => trivial) h

variable (hpa : lease.taskId.parse = .ok id) (hpast : lease.generation ≤ b.lastGeneration id)

include hpa hpast

theorem of_parsed (hdropped : ∀ a, b.scheduler.claims.get? id = some a →
    a.generation ≠ lease.generation) : lease.Outdated b := by
  have hid x (hx : lease.taskId.parse = .ok x) : id = x := ok.inj (hpa.symm.trans hx)
  exact ⟨fun x hx => hid x hx ▸ hpast, fun x a hx => hid x hx ▸ hdropped a⟩

theorem of_unclaimed (hnone : b.scheduler.claims.get? id = none) : lease.Outdated b :=
  .of_parsed hpa hpast fun _ hactive => absurd (hactive.symm.trans hnone) nofun

theorem of_granted (hchain : BrokerChain T b es b')
    (hgrant : .quiet (.granted id k) ∈ es) : lease.Outdated b' := by
  induction hchain with
  | nil => cases hgrant
  | @cons b _ _ _ hen hrest ih =>
    have hle := hpast.trans (lastGeneration_le_apply hen id)
    rcases mem_cons.mp hgrant with rfl | hgrant
    · obtain ⟨_, _⟩ := lastGeneration_granted hen
      refine Outdated.chain (.of_parsed hpa hle fun a hactive => ?_) hrest
      have hclaim := get?_insert_self b.scheduler.claims id k
      obtain rfl := mem_unique hclaim hactive
      omega
    · exact ih hle hgrant

end LeaseToken.Outdated

/-! ## Events that fence a token -/

/-- The step has granted a newer lease of the task, or released, requeued, cancelled or
committed it. -/
inductive Fences (T : Texts J) (b : TaskRpcBroker J) (op : BrokerOp J) (id : TaskId) : Prop
  | granted (k : ActiveClaim) :
      (WireTaskId.new id, k) ∈ (b.perform T op).1.leases → Fences T b op id
  | released (now : ℕ) (ver : UInt16) (rid : UInt64) (lease : LeaseToken) :
      op = .handle now ⟨ver, .release rid lease⟩ → lease.taskId.parse = .ok id →
      (b.perform T op).1 = .response (.new (.released rid true)) → Fences T b op id
  | requeued (ids : List TaskId) :
      (b.perform T op).1 = .requeued (.ok ids) → id ∈ ids → Fences T b op id
  | reclaimed (t : Task J) : (b.perform T op).2.scheduler.tasks.get? id = some t →
      t.state = .queued → Fences T b op id
  | canceled (now : ℕ) (ver : UInt16) (rid : UInt64) (taskId : WireTaskId) :
      op = .handle now ⟨ver, .cancel rid taskId⟩ → taskId.parse = .ok id →
      (b.perform T op).1 = .response (.new (.canceled rid true)) → Fences T b op id
  | committed (now : ℕ) (ver : UInt16) (rid : UInt64) (lease : LeaseToken)
      (o : TaskOutcome J) :
      op = .handle now ⟨ver, .commit rid lease o⟩ →
      lease.taskId.parse = .ok id →
      (b.perform T op).1 = .response (.new (.committed rid true)) → Fences T b op id

theorem handle_answered {env : Envelope J} {response : Message J}
    (h : (b.perform T (.handle now env)).1 = .response (.new response))
    (hanswer : ∀ rid code text, response ≠ .error rid code text) :
    (b.respond T now env.message).1 = response ∧
      (b.perform T (.handle now env)).2 = (b.respond T now env.message).2 := by
  cases hvalid : env.validate T with
  | error =>
    simp only [perform, handle, hvalid, errorResponse,
      errorMessage, BrokerReply.response.injEq, Envelope.new, Envelope.mk.injEq,
      true_and] at h
    exact absurd h.symm (hanswer _ _ _)
  | ok =>
    simp only [perform, handle, hvalid,
      BrokerReply.response.injEq, Envelope.new, Envelope.mk.injEq, true_and] at h ⊢
    exact ⟨h, trivial⟩

section Answered

variable {rid : UInt64} {lease : LeaseToken} {now : ℕ} {id : TaskId}

theorem Retries.unclaimed {t : Task J} {reply : Bool → Message J}
    {timedOut : Table TaskId (TaskOutcome J)} {result : Message J × TaskRpcBroker J}
    (h : Retries b now id t reply timedOut result) (hreply : result.1 ≠ reply false) :
    result.2.scheduler.claims.get? id = none := by
  rcases h with ⟨-, hen, rfl⟩ | ⟨-, -, _, hchain, rfl⟩ | ⟨-, -, rfl⟩
  · exact moved_unclaimed hen rfl
  · exact retry_unclaimed hchain
  · exact absurd rfl hreply

theorem commit_answered (hs : b.scheduler.Sound T) (hpa : lease.taskId.parse = .ok id)
    {o : TaskOutcome J} (h : (b.commit rid lease o now).1 = .committed rid true) :
    (∃ a, lease.Live b.scheduler now id a) ∧
      (b.commit rid lease o now).2.scheduler.claims.get? id = none := by
  rcases live_or_stale hs lease now with ⟨_, a, _, hlive, htask⟩ | hstale
  · obtain rfl := ok.inj (hpa.symm.trans hlive.parsed)
    refine ⟨⟨a, hlive⟩, ?_⟩
    cases htarget : o.target with
    | some =>
      obtain ⟨hen, hcommit⟩ := commit_target rid hs hlive htarget
      rw [hcommit]
      refine moved_unclaimed hen ?_
      unfold TaskOutcome.target at htarget
      split at htarget <;> cases htarget <;> rfl
    | none =>
      exact (commit_retry rid hs hlive htask htarget).unclaimed (by simp [h])
  · rw [commit_stale rid hs hstale o] at h
    cases h

theorem cancel_answered (hs : b.scheduler.Sound T) {taskId : WireTaskId}
    (hpa : taskId.parse = .ok id) (h : (b.cancel rid taskId).1 = .canceled rid true) :
    (b.cancel rid taskId).2.scheduler.claims.get? id = none := by
  cases htask : b.scheduler.tasks.get? id with
  | none =>
    have hcancel : b.cancel rid taskId = (.canceled rid false, b) := by
      refine cancel_unknown rid fun x hx => ?_
      obtain rfl := ok.inj (hpa.symm.trans hx)
      exact htask
    rw [hcancel] at h
    cases h
  | some =>
    rcases cancel_cases rid hpa htask with
      ⟨-, hen, hcancel⟩ | ⟨hstate, hcancel⟩ | ⟨-, -, hcancel⟩
    · rw [hcancel]
      exact moved_unclaimed hen rfl
    · rw [hcancel]
      exact hs.ok.unclaimed_of htask (by simp [hstate])
    · rw [hcancel] at h
      cases h

end Answered

theorem leased_granted (h : (new id, k) ∈ e.leased) : e = .quiet (.granted id k) := by
  cases e with
  | quiet e =>
    cases e with
    | granted =>
      obtain ⟨hkey, rfl⟩ := Prod.mk.inj (mem_singleton.mp h)
      rw [new_injective hkey]
    | _ => cases h
  | finished | noted => cases h

variable {lease : LeaseToken}

theorem Fences.outdated {op : BrokerOp J} (h : Fences T b op id) (hs : b.Sound T)
    (hpa : lease.taskId.parse = .ok id) (hpast : lease.generation ≤ b.lastGeneration id) :
    lease.Outdated (b.perform T op).2 := by
  obtain ⟨_, hperformed⟩ := performed hs.scheduler op
  have hafter := hpast.trans (lastGeneration_mono hperformed.chain id)
  cases h with
  | granted _ hmem =>
    rw [hperformed.leased] at hmem
    obtain ⟨_, he, hleased⟩ := mem_flatMap.mp hmem
    obtain rfl := leased_granted hleased
    exact .of_granted hpa hpast hperformed.chain he
  | released now _ rid token hop htoken hreply =>
    subst hop
    obtain ⟨hanswer, hstate⟩ := handle_answered hreply (by simp)
    refine .of_unclaimed hpa hafter ?_
    rw [hstate]
    change (b.release rid token now).1 = _ at hanswer
    rcases live_or_stale hs.scheduler token now with
      ⟨_, _, _, hlive, htask⟩ | hstale
    · obtain rfl := ok.inj (htoken.symm.trans hlive.parsed)
      exact (release_live rid hs.scheduler hlive htask).unclaimed (by simp [hanswer])
    · rw [release_stale rid hs.scheduler hstale] at hanswer
      cases hanswer
  | requeued _ hreply hmem =>
    exact .of_unclaimed hpa hafter (requeued_unclaimed hs.scheduler.ok hreply hmem)
  | reclaimed _ htask hqueued =>
    exact .of_unclaimed hpa hafter ((hs.perform op).scheduler.ok.unclaimed htask hqueued)
  | canceled _ _ _ _ hop htaskId hreply =>
    subst hop
    obtain ⟨hanswer, hstate⟩ := handle_answered hreply (by simp)
    refine .of_unclaimed hpa hafter ?_
    rw [hstate]
    exact cancel_answered hs.scheduler htaskId hanswer
  | committed _ _ _ _ _ hop htoken hreply =>
    subst hop
    obtain ⟨hanswer, hstate⟩ := handle_answered hreply (by simp)
    refine .of_unclaimed hpa hafter ?_
    rw [hstate]
    exact (commit_answered hs.scheduler htoken hanswer).2

/-! ## Finished tasks -/

structure Settled (b : TaskRpcBroker J) (id : TaskId) (t : Task J) (outcome : TaskOutcome J) :
    Prop where
  stored : b.scheduler.tasks.get? id = some t
  terminal : t.state.isTerminal = true
  outcome : b.outcomes.get? id = some outcome

namespace Settled

variable {id : TaskId} {t : Task J} {o : TaskOutcome J}

theorem apply (h : Settled b id t o) (hs : b.Sound T)
    (hen : e.Enabled T b) : Settled (e.apply b) id t o := by
  cases e with
  | quiet => exact ⟨apply_terminal hen.1 h.stored h.terminal, h.terminal, h.outcome⟩
  | finished key =>
    refine ⟨apply_terminal hen.1 h.stored h.terminal, h.terminal, ?_⟩
    by_cases hid : id = key
    · -- a finished task makes no further transition
      subst hid
      obtain ⟨u, ht, hcan, -⟩ := hen.1
      obtain rfl : u = t := mem_unique ht h.stored
      have hterminal := h.terminal
      generalize u.state = state at hterminal hcan
      cases state <;> simp_all [isTerminal, canTransitionTo]
    · exact (get?_insert_ne hid).trans h.outcome
  | noted key =>
    refine ⟨h.stored, h.terminal, ?_⟩
    by_cases hid : id = key
    · subst hid
      obtain ⟨u, ht, hcanceled⟩ := hen
      obtain rfl : u = t := mem_unique ht h.stored
      obtain ⟨t', ht', -, hfits⟩ := hs.outcomes id o h.outcome
      obtain rfl : t' = u := mem_unique ht' h.stored
      rw [hcanceled] at hfits
      cases o with
      | canceled => exact get?_insert_self ..
      | _ => exact hfits.elim
    · exact (get?_insert_ne hid).trans h.outcome

theorem not_committed (h : Settled b id t o) (hs : b.Sound T)
    (hpa : lease.taskId.parse = .ok id) (now : ℕ) (ver : UInt16) (rid : UInt64)
    (out : TaskOutcome J) : (b.perform T (.handle now ⟨ver, .commit rid lease out⟩)).1 ≠
      .response (.new (.committed rid true)) := by
  intro hreply
  obtain ⟨hanswer, -⟩ := handle_answered hreply (by simp)
  obtain ⟨⟨_, hlive⟩, -⟩ := commit_answered hs.scheduler hpa hanswer
  have hnone : b.scheduler.claims.get? id = none := by
    refine hs.scheduler.ok.unclaimed_of h.stored ?_
    have hterminal := h.terminal
    generalize t.state = state at hterminal
    cases state <;> simp_all [isTerminal]
  exact some_ne_none _ (hlive.stored.symm.trans hnone)

end Settled

theorem final_commit_settles (hs : b.Sound T) {ver : UInt16} {rid : UInt64}
    {o : TaskOutcome J} (hpa : lease.taskId.parse = .ok id) (hfinal : o.Final)
    (hreply : (b.perform T (.handle now ⟨ver, .commit rid lease o⟩)).1 =
      .response (.new (.committed rid true))) : ∃ t stored,
      Settled (b.perform T (.handle now ⟨ver, .commit rid lease o⟩)).2 id t
        stored := by
  obtain ⟨hanswer, hstate⟩ := handle_answered hreply (by simp)
  obtain ⟨⟨_, hlive⟩, -⟩ := commit_answered hs.scheduler hpa hanswer
  obtain ⟨next, htarget, hterminal⟩ := hfinal
  obtain ⟨hen, hcommit⟩ := commit_target rid hs.scheduler hlive htarget
  obtain ⟨t, htask, -⟩ := hen
  rw [if_pos hterminal] at hcommit
  rw [hstate, respond, hcommit]
  refine ⟨t.in next, TaskRpcBroker.storedOutcome next o, ?_, hterminal, get?_insert_self ..⟩
  rw [apply_moved htask]
  exact get?_insert_self ..

/-! ## The fencing of the broker -/

def Message.token : Message J → Option LeaseToken
  | .renew _ lease _ | .release _ lease | .commit _ lease _ => some lease
  | _ => none

/-- The reply to a request with a fenced token. The lease time that a renewal asks for is checked
before the token. -/
def Message.refused (now : ℕ) : Message J → Message J
  | .renew rid _ dur =>
    if now + dur < 2 ^ 64 then .renewed rid none else schedulerError (some rid) .timeRange
  | .release rid _ => .released rid false
  | .commit rid _ _ => .committed rid false
  | message => message

theorem respond_stale (hs : b.scheduler.Sound T) (hstale : lease.Stale b.scheduler now)
    (hknown : lease.generation ≠ 0 → (b.claimFromToken lease).isSome)
    {message : Message J} (htoken : message.token = some lease) :
    (b.respond T now message).2 = b ∧ (message.validate T = .ok () →
      (b.respond T now message).1 = message.refused now) := by
  cases message with
  | renew rid token leaseMs =>
    obtain rfl := some.inj htoken
    rw [respond, renew_stale rid leaseMs hs hstale]
    refine ⟨rfl, fun hvalid => ?_⟩
    simp only [Message.validate, LeaseToken.validate, bind_ok, reject_ok] at hvalid
    obtain ⟨⟨⟩, ⟨⟨⟩, -, ⟨⟩, hgen, howner⟩, hms⟩ := hvalid
    obtain ⟨_, hcl⟩ := isSome_iff_exists.mp (hknown hgen)
    let c : ClaimCall := ⟨rid, token.leaseOwner, leaseMs, now⟩
    rw [hcl, Message.refused]
    split_ifs with hlt
    · rw [leaseChecks_ok (c := c) ⟨howner, hms⟩ hlt]
    · rw [leaseChecks_overflow (c := c) ⟨howner, hms⟩ (not_lt.mp hlt)]
  | release rid =>
    obtain rfl := some.inj htoken
    rw [respond, release_stale rid hs hstale]
    exact ⟨rfl, fun _ => rfl⟩
  | commit rid _ o =>
    obtain rfl := some.inj htoken
    rw [respond, commit_stale rid hs hstale o]
    exact ⟨rfl, fun _ => rfl⟩
  | _ => cases htoken

/-- Fencing over every run: generations grow, a fenced token has no effect any more, and a
final commit is the last one. -/
theorem broker_fencing {capacity : ℕ} {b₀ : TaskRpcBroker J}
    (hnew : TaskRpcBroker.new capacity = .ok b₀) (ops later : List (BrokerOp J)) (op : BrokerOp J) :
    let b := run (perform T) b₀ ops
    let b₂ := run (perform T) b₀ (ops ++ op :: later)
    ((grants (trace (perform T) b₀ (ops ++ op :: later))).Pairwise fun g h =>
      g.1 = h.1 → g.2.generation < h.2.generation) ∧
    (∀ id lease, Fences T b op id → lease.taskId.parse = .ok id →
      (∃ g ∈ grants (trace (perform T) b₀ ops),
        g.1 = lease.taskId ∧ lease.generation ≤ g.2.generation) →
      ∀ now env, env.message.token = some lease → (b₂.handle T now env).2 = b₂ ∧
        (env.validate T = .ok () → (b₂.handle T now env).1 = .new (env.message.refused now)) ∧
        ∀ e, env.validate T = .error e → ∃ code, (b₂.handle T now env).1 =
          errorResponse (requestId env.message) code (e.text T)) ∧
    (∀ id now ver rid lease o, op = .handle now ⟨ver, .commit rid lease o⟩ →
      lease.taskId.parse = .ok id → o.Final →
      (b.perform T op).1 = .response (.new (.committed rid true)) →
      ∃ t stored, Settled (b.perform T op).2 id t stored ∧ Settled b₂ id t stored ∧
        ∀ now ver rid lease o, lease.taskId.parse = .ok id →
          (b₂.perform T (.handle now ⟨ver, .commit rid lease o⟩)).1 ≠
            .response (.new (.committed rid true))) := by
  intro b b₂
  have hsound₀ : b₀.Sound T := TaskRpcBroker.new_sound hnew
  have hs : b.Sound T := hsound₀.run ops
  have hsound₁ : (b.perform T op).2.Sound T := hs.perform op
  have hb₂ : b₂ = run (perform T) (b.perform T op).2 later := by
    rw [show b₂ = run (perform T) b₀ (ops ++ op :: later) from rfl, run_append]
    rfl
  have hsound₂ : b₂.Sound T := hb₂ ▸ hsound₁.run later
  refine ⟨(grants_increasing hsound₀ _).pairwise, ?_, ?_⟩
  · rintro id lease hfences hpa ⟨g, hg, hid, hle⟩ now env htoken
    obtain ⟨id', hid', hlast⟩ := (grants_increasing hsound₀ ops).last g hg
    have hsame : id' = id := by
      rw [← hid, hid', parse_new] at hpa
      exact ok.inj hpa
    have hout := hfences.outdated hs hpa (hle.trans (hsame ▸ hlast))
    have hout₂ : lease.Outdated b₂ :=
      hb₂ ▸ hsound₁.run_keeps hout (fun _ _ _ => Outdated.apply) later
    have hknown (hgen : lease.generation ≠ 0) : (b₂.claimFromToken lease).isSome := by
      have hpast := hout₂.past id hpa
      cases hlast : b₂.scheduler.generations.get? id with
      | none => exact absurd (by simpa [TaskRpcBroker.lastGeneration, hlast] using hpast) hgen
      | some g =>
        simpa [TaskRpcBroker.claimFromToken, hpa] using (hsound₂.scheduler.generations id g hlast).1
    obtain ⟨hsame, hreply⟩ := respond_stale hsound₂.scheduler (hout₂.stale now) hknown htoken
    cases hvalid : env.validate T with
    | error =>
      simp only [handle, hvalid]
      refine ⟨trivial, fun hok => ?_, fun _ he => ⟨_, by rw [error.inj he]⟩⟩
      cases hok
    | ok =>
      obtain ⟨hmessage, hhandle⟩ := handle_valid hvalid b₂ now
      rw [hhandle]
      refine ⟨hsame, fun _ => congrArg Envelope.new (hreply hmessage), fun _ he => ?_⟩
      cases he
  · rintro id now ver rid lease o rfl hpa hfinal hreply
    obtain ⟨t, stored, hsettled⟩ := final_commit_settles hs hpa hfinal hreply
    have hsettled₂ : Settled b₂ id t stored :=
      hb₂ ▸ hsound₁.run_keeps hsettled (fun _ _ hb h => Settled.apply h hb) later
    exact ⟨t, stored, hsettled, hsettled₂, fun now ver rid lease o hpa =>
        hsettled₂.not_committed hsound₂ hpa now ver rid o⟩

def unitTexts : Texts Unit := ⟨fun _ => "null", fun text => text⟩

theorem plainTask_deliverable (id : TaskId) : Deliverable unitTexts (plainTask id) := by
  have htrigger : WireTaskTrigger.validate (.agent "agent") = .ok () := by decide
  have hinput : Text.size "null" ≤ maxTaskInputBytes := by decide
  exact ⟨htrigger, hinput⟩

def plainBroker : TaskRpcBroker Unit :=
  ⟨Scheduler.admitted ⟨1, [], ∅, ∅, ∅⟩ ((plainTask 1).in .queued), ∅⟩

theorem enqueue_plain : perform unitTexts ⟨⟨1, [], ∅, ∅, ∅⟩, ∅⟩ (.enqueue (plainTask 1)) =
      (.enqueued (.ok ()), plainBroker) := by
  rw [perform, enqueue_admits _ rfl (plainTask_deliverable 1) rfl (by decide)]
  rfl

def firstToken : LeaseToken := ⟨.new 1, 1, "w"⟩

/-- Task 1 is claimed by a worker, which may give it back. -/
def claimedRun : List (BrokerOp Unit) :=
  [.enqueue (plainTask 1), .handle 0 (.new (.claim 1 "w" 1000 1))]

theorem released_token_fenced :
    let b₂ := run (perform unitTexts) ⟨⟨1, [], ∅, ∅, ∅⟩, ∅⟩
      (claimedRun ++ .handle 1 (.new (.release 2 firstToken)) ::
        [.handle 1 (.new (.claim 3 "v" 1000 1))])
    (b₂.handle unitTexts 2 (.new (.commit 4 firstToken (.completed ())))).1 =
      .new (.committed 4 false) ∧
    (b₂.handle unitTexts 2 (.new (.commit 4 firstToken (.completed ())))).2 = b₂ := by
  have hreply : ((run (perform unitTexts) ⟨⟨1, [], ∅, ∅, ∅⟩, ∅⟩ claimedRun).handle
      unitTexts 1 (.new (.release 2 firstToken))).1 = .new (.released 2 true) := by
    rw [claimedRun, run_cons, enqueue_plain]
    decide +kernel
  have hgrant : (new 1, ActiveClaim.mk 1 "w" 1000) ∈
      grants (trace (perform unitTexts) ⟨⟨1, [], ∅, ∅, ∅⟩, ∅⟩ claimedRun) := by
    rw [claimedRun, trace_cons, entry, enqueue_plain]
    decide +kernel
  have h := (broker_fencing (show TaskRpcBroker.new 1 = .ok _ from rfl)
    claimedRun [.handle 1 (.new (.claim 3 "v" 1000 1))]
    (.handle 1 (.new (.release 2 firstToken)))).2.1 1 firstToken
    (.released 1 _ 2 firstToken rfl (parse_new 1) (congrArg _ hreply))
    (parse_new 1) ⟨_, hgrant, rfl, le_rfl⟩ 2
    (.new (.commit 4 firstToken (.completed ()))) rfl
  exact ⟨h.2.1 (by decide +kernel), h.1⟩

/-- A renewal beyond the clock's range is refused before its token is looked at. -/
theorem stale_renewal_out_of_range :
    let b := run (perform unitTexts) ⟨⟨1, [], ∅, ∅, ∅⟩, ∅⟩ claimedRun
    let released := b.handle unitTexts 1 (.new (.release 2 firstToken))
    released.1 = .new (.released 2 true) ∧
      (Envelope.new (.renew 3 firstToken 1)).validate unitTexts = .ok () ∧
      (released.2.handle unitTexts (2 ^ 64 - 1) (.new (.renew 3 firstToken 1))).1 =
        .new (.error (some 3) .internal "scheduler clock is outside the supported range") := by
  rw [claimedRun, run_cons, enqueue_plain]
  decide +kernel

end Tysel.Tasks
