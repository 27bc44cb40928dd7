import Mathlib.Data.List.Find
import Tysel.Verification.Tasks.Fencing

/-! The response to a claim request can always be sent. Its leases are the claims that the request
has created, and a runnable task at the head of the queue is leased. -/

namespace Tysel.Tasks

open List WireTaskId Option Envelope ActiveClaim Effect

open Tysel.Durable (TaskId checkedAdd)
open TaskRpcBroker (perform refusal respond release)
open Tysel.Text

variable {J : Type} {T : Texts J} {b : TaskRpcBroker J} {s s' : Scheduler J} {env : Envelope J}
  {es : List (Effect J)} {now : ℕ} {c : ClaimCall}

theorem error_size (rid : Option UInt64) (code : ErrorCode) (text : String) :
    size ((new (.error rid code text : Message J)).json T) ≤ 6 * size text + 150 := by
  have hkeys : size (jsonString "type") = 6 ∧ size (jsonString "error") = 7 ∧
      size (jsonString "request_id") = 12 ∧ size (jsonString "code") = 6 ∧
      size (jsonString "message") = 9 ∧ size (jsonString "version") = 9 := by decide
  have hone : size (toString taskRpcVersion.toNat) = 1 := by decide
  have hid : size (jsonOption (fun id : UInt64 => toString id.toNat) rid) ≤ 20 := by
    cases rid with
    | none => decide
    | some id => exact decimal64_size_le id.toNat_lt
  have hcode : size code.json ≤ 20 := by cases code <;> decide
  have htext := jsonString_size_le text
  simp only [json, Envelope.new, Message.json, jsonObject_size, memberBytes]
  omega

theorem encode_of (hvalid : env.validate T = .ok ()) (hfits : size (env.json T) ≤ maxTaskRpcFrame) :
    encodeMessage T env = .ok (env.json T) := by
  simp only [encodeMessage, hvalid, ok_bind, reject_of_not _ (not_lt.mpr hfits)]
  rfl

theorem error_sendable (rid : Option UInt64) (code : ErrorCode) {text : String}
    (h : size text ≤ maxErrorBytes) : Sendable T (.new (.error rid code text)) := by
  have hvalid : (new (.error rid code text)).validate T = .ok () := by
    simp only [Envelope.validate, Envelope.new, Message.validate, validateError, bind_ok, reject_ok]
    exact ⟨(), by simp, not_lt.mpr h⟩
  have hsize := error_size (T := T) rid code text
  unfold maxErrorBytes at h
  exact ⟨_, encode_of hvalid (by unfold maxTaskRpcFrame; omega)⟩

theorem Sendable.spec (h : Sendable T env) : env.validate T = .ok () ∧
      ∃ text, encodeMessage T env = .ok text ∧ size text ≤ maxTaskRpcFrame := by
  obtain ⟨_, htext⟩ := h
  have hparts := htext
  simp only [encodeMessage, bind_ok, reject_ok, pure_ok] at hparts
  obtain ⟨⟨⟩, hvalid, -, hfits, rfl⟩ := hparts
  exact ⟨hvalid, _, htext, not_lt.mp hfits⟩

variable {id : TaskId} {a : ActiveClaim}

theorem Chain.claim_origin (h : Chain s es s')
    (hrenewed : ∀ e ∈ es, ∀ id leaseUntilMs, e ≠ .renewed id leaseUntilMs)
    (hactive : s'.claims.get? id = some a) :
    s.claims.get? id = some a ∨ .granted id a ∈ es := by
  induction h with
  | nil => exact .inl hactive
  | @cons _ _ e _ hen _ ih =>
    rcases ih (fun e he => hrenewed e (mem_cons_of_mem _ he)) hactive with hkept | hgranted
    · cases apply_claimOrigin hen hkept with
      | kept hold => exact .inl hold
      | granted he => exact .inr (he ▸ mem_cons_self ..)
      | renewed _ leaseUntilMs he =>
        exact absurd he (hrenewed e (mem_cons_self ..) id leaseUntilMs)
    · exact .inr (mem_cons_of_mem _ hgranted)

theorem granted_generation {b' : TaskRpcBroker J} {es : List (BrokerEffect J)}
    (h : BrokerChain T b es b') (hgrant : .quiet (.granted id a) ∈ es) :
    b.lastGeneration id < a.generation := by
  induction h with
  | nil => cases hgrant
  | @cons _ _ _ _ hen _ ih =>
    rcases mem_cons.mp hgrant with rfl | hgrant
    · have hnext := (lastGeneration_granted hen).1
      omega
    · exact (lastGeneration_le_apply hen id).trans_lt (ih hgrant)

theorem mem_leased : (new id, a) ∈ es.flatMap leased ↔ .granted id a ∈ es := by
  rw [mem_flatMap]
  constructor
  · rintro ⟨e, _, hleased⟩
    cases e with
    | granted =>
      obtain ⟨hkey, rfl⟩ := Prod.mk.inj (mem_singleton.mp hleased)
      rwa [new_injective hkey]
    | _ => cases hleased
  · intro he
    exact ⟨_, he, mem_singleton.mpr rfl⟩

section Phases

variable {c : ClaimCall} {limit : UInt16} {ids : List TaskId} {es₁ es₂ : List (Effect J)}
  {s₁ : Scheduler J} {fresh : List (TaskLease J)}

section

variable (h : ClaimPhases T b c limit ids es₁ s₁ fresh es₂)

include h

namespace ClaimPhases

theorem sound (hs : b.Sound T) : s₁.Sound T :=
  hs.scheduler.chain h.chain fun e he => reclaims_wired (h.reclaims e he)

theorem not_renewed :
    ∀ e ∈ es₁ ++ es₂, ∀ id leaseUntilMs, e ≠ .renewed id leaseUntilMs := by
  rintro e he id leaseUntilMs rfl
  rcases mem_append.mp he with he | he
  · exact (h.reclaims _ he).elim
  · exact (h.claimed.fromQueue _ he).elim

/-- The claims that the request has created are those of its leases. -/
theorem created (hs : b.Sound T) (id : TaskId) (a : ActiveClaim) :
    ((c.loop T limit.toNat [] s₁).2.claims.get? id = some a ∧ b.scheduler.claims.get? id ≠ some a) ↔
      (new id, a) ∈ fresh.map TaskLease.claim := by
  have hgranted : .granted id a ∈ es₁ ++ es₂ ↔ (new id, a) ∈ fresh.map TaskLease.claim := by
    rw [h.claimed.granted, mem_leased, mem_append, or_iff_right]
    exact fun he => (h.reclaims _ he).elim
  constructor
  · rintro ⟨hactive, hnew⟩
    rcases h.whole.claim_origin h.not_renewed hactive with hold | hgrant
    · exact absurd hold hnew
    · exact hgranted.mp hgrant
  intro hmem
  refine ⟨?_, fun hold => ?_⟩
  · obtain ⟨lease, hlease, hclaim⟩ := mem_map.mp hmem
    obtain ⟨_, _, hheld⟩ := h.claimed.held lease hlease
    rw [hheld.lease, leaseOf_claim] at hclaim
    obtain ⟨hid, rfl⟩ := Prod.mk.inj hclaim
    rw [← new_injective hid]
    exact hheld.claimed
  · -- the claim had the last generation of its task, and the granted one is larger
    have hlast := hs.scheduler.numbered id a hold
    have hchain : BrokerChain T b ((es₁ ++ es₂).map .quiet) _ := BrokerChain.quiet h.whole h.wired
    have hlt := granted_generation hchain (mem_map_of_mem (hgranted.mpr hmem))
    rw [TaskRpcBroker.lastGeneration, hlast, getD_some] at hlt
    exact absurd hlt (lt_irrefl _)

theorem distinct : (fresh.map fun lease => lease.token.taskId).Nodup := by
  have hchain : BrokerChain T b ((es₁ ++ es₂).map .quiet) _ := BrokerChain.quiet h.whole h.wired
  have hincreasing := Guarded.Chain.tracks BrokerEffect.leased (fun _ => True)
    (fun _ _ _ _ hp hen => hp.apply hen) hchain (fun _ _ => trivial)
    (⟨List.Pairwise.nil, by simp⟩ : Increasing [] b)
  have hfresh : ((es₁ ++ es₂).map BrokerEffect.quiet).flatMap BrokerEffect.leased =
      fresh.map TaskLease.claim := by
    rw [flatMap_map, h.claimed.granted]
    change (es₁ ++ es₂).flatMap Effect.leased = _
    rw [flatMap_append, reclaims_leased h.reclaims, nil_append]
  have hpairwise := hincreasing.pairwise
  rw [nil_append, hfresh, pairwise_map] at hpairwise
  rw [List.Nodup, pairwise_map]
  refine hpairwise.imp_of_mem fun {x y} hx hy hlt hsame => ?_
  obtain ⟨task, _, hheld⟩ := h.claimed.held x hx
  obtain ⟨t', active', hheld'⟩ := h.claimed.held y hy
  have hlt := hlt hsame
  -- both leases are those of the one claim that the task has
  rw [hheld.lease, hheld'.lease, leaseOf_taskId, leaseOf_taskId] at hsame
  rw [hheld.lease, hheld'.lease, leaseOf_claim, leaseOf_claim] at hlt
  have hclaimed' := hheld'.claimed
  rw [← new_injective hsame, hheld.claimed, some.injEq] at hclaimed'
  subst hclaimed'
  exact absurd hlt (lt_irrefl _)

theorem sendable : Sendable T (.new (c.loop T limit.toNat [] s₁).1) := by
  rcases h.claimed.response with ⟨hresponse, hsend⟩ | ⟨-, -, _, hresponse, he⟩
  · rw [hresponse]
    exact hsend.sendable
  · rw [hresponse]
    rcases he with ⟨rfl, -⟩ | rfl
    · exact error_sendable _ _ (by decide)
    · exact error_sendable _ _ (by decide)

end ClaimPhases

end

end Phases

/-- The first queued task that has not reached its deadline. -/
def Scheduler.firstRunnable (s : Scheduler J) (now : ℕ) : Option TaskId :=
  s.queue.find? fun id => (s.tasks.get? id).any fun task => !task.deadlineReached now

/-- The expiry of an overdue head keeps the first runnable task. -/
theorem firstRunnable_expired (h : s.Ok) (hen : Effect.Enabled s (.expired id now)) :
    (apply s (.expired id now)).firstRunnable now = s.firstRunnable now := by
  have htasks := apply_tasks hen
  obtain ⟨rest, task, hqueue, htask, -, hdue⟩ := hen
  have hnodup := h.nodup
  rw [hqueue, nodup_cons] at hnodup
  have hrest : (apply s (.expired id now)).queue = rest := by
    have hfilter : (id :: rest).filter (· ≠ id) = rest := by
      rw [filter_cons_of_neg (by simp), filter_eq_self]
      intro x hx
      have hne : x ≠ id := fun hid => hnodup.1 (hid ▸ hx)
      simpa using hne
    simp only [apply_expired htask, Scheduler.moved, Scheduler.requeued, Task.in_state,
      TaskState.isTerminal, hqueue, reduceCtorEq, if_false, if_true, hfilter]
  rw [Scheduler.firstRunnable, Scheduler.firstRunnable, hrest, hqueue, find?_cons_of_neg]
  · refine find?_congr fun x hx => ?_
    have hne : x ≠ id := fun hid => hnodup.1 (hid ▸ hx)
    rw [htasks x]
    exact congrArg _ (if_neg hne)
  · simp [htask, hdue]

theorem firstRunnable_chain (h : Chain s es s') (hok : s.Ok)
    (hes : ∀ e ∈ es, ∃ id, e = .expired id now) :
    s'.firstRunnable now = s.firstRunnable now := by
  induction h with
  | nil => rfl
  | @cons _ _ e _ hen _ ih =>
    rw [ih (hok.apply hen) fun e he => hes e (mem_cons_of_mem _ he)]
    obtain ⟨_, rfl⟩ := hes e (mem_cons_self ..)
    exact firstRunnable_expired hok hen

theorem peek_firstRunnable (h : s.Ok) (now : ℕ) :
    ∃ next s', s.peekRunnable now = (.ok next, s') ∧ Peeked s now next s' ∧
      s.firstRunnable now = next.map (·.info.id) := by
  obtain ⟨next, s', hpeek, hpeeked⟩ := peekRunnable_spec h now
  obtain ⟨_, hchain, hes⟩ := hpeeked.effects
  refine ⟨next, s', hpeek, hpeeked, ?_⟩
  rw [← firstRunnable_chain hchain h fun e he => (hes e he).imp fun _ => And.right]
  cases next with
  | none =>
    rw [Scheduler.firstRunnable, hpeeked.none rfl]
    rfl
  | some task =>
    have hrun := hpeeked.some task rfl
    obtain ⟨_, hqueue⟩ := hrun.queue
    rw [Scheduler.firstRunnable, hqueue, find?_cons_of_pos (by simp [hrun.stored, hrun.early])]
    rfl

theorem loop_first (h : s.Sound T) (hvalid : c.Valid) (hfirst : s.firstRunnable c.nowMs = some id)
    (hgeneration : (s.generations.get? id).getD 0 < 2 ^ 64 - 1) (hlt : c.leaseUntilMs < 2 ^ 64) :
    ∃ task g s', task.info.id = id ∧ (c.granted task g).Wired T ∧
      SendableLeases T c.requestId [c.leaseOf task g] ∧ s'.Sound T ∧
      ∀ turns, c.loop T (turns + 1) [] s = c.loop T turns [c.leaseOf task g] s' := by
  obtain ⟨_, s', hpeek, hpeeked, hnext⟩ := peek_firstRunnable h.ok c.nowMs
  obtain ⟨task, rfl, rfl⟩ := map_eq_some_iff.mp (hnext.symm.trans hfirst)
  obtain ⟨es, hclaimed⟩ := hpeeked.claimed (SendableLeases.nil T c.requestId)
  have hs := h.chain hclaimed.chain hclaimed.wired
  have hrun := hpeeked.some task rfl
  have hdeliver := hs.deliverable _ _ hrun.stored
  have hsame : s'.generations.get? task.info.id = s.generations.get? task.info.id := by
    obtain ⟨_, hchain, hes⟩ := hpeeked.effects
    refine hchain.generations_eq fun e he claim hgranted => ?_
    obtain ⟨_, -, hx⟩ := hes e he
    cases hx.symm.trans hgranted
  obtain ⟨g, hgen⟩ : ∃ g, s'.nextGeneration task.info.id = some g :=
    ⟨_, if_pos (by rw [hsame]; omega)⟩
  rcases refusal_cases hdeliver (hrun.begun hs.ok).1 hvalid
    (SendableLeases.nil T c.requestId) (by simp [maxClaimBatch]) with ⟨hnone, hpreview⟩ | ⟨-, hne⟩
  · have hwired := granted_wired hdeliver hvalid hlt hgen
    have hpush : SendableLeases T c.requestId ([] ++ [c.leaseOf task g]) := hpreview.push hwired
    have hgrant := hrun.claimed hs.ok hvalid hlt hgen hpush
    exact ⟨task, g, _, rfl, hwired, hpush, hs.chain hgrant.chain hgrant.wired,
      fun turns => loop_leased hs.ok hpeek hrun hdeliver hnone hvalid hlt hgen⟩
  · exact absurd rfl hne

structure Delivered (call : ClaimCall) (before after : Scheduler J) (leases : List (TaskLease J)) :
    Prop where
  count : leases.length ≤ maxClaimBatch
  distinct : (leases.map fun lease => lease.token.taskId).Nodup
  held : ∀ lease ∈ leases, ∃ task a, lease.Held after task a ∧
    a.leaseOwner = call.workerId ∧ a.leaseUntilMs = call.leaseUntilMs
  created : ∀ id a, (after.claims.get? id = some a ∧
    before.claims.get? id ≠ some a) ↔ (WireTaskId.new id, a) ∈ leases.map TaskLease.claim

theorem ClaimPhases.delivered {limit : UInt16} {ids : List TaskId} {es₁ es₂ : List (Effect J)}
    {s₁ : Scheduler J} {fresh : List (TaskLease J)}
    (h : ClaimPhases T b c limit ids es₁ s₁ fresh es₂) (hs : b.Sound T)
    (hcount : fresh.length ≤ maxClaimBatch) :
    Delivered c b.scheduler (c.loop T limit.toNat [] s₁).2 fresh := by
  refine ⟨hcount, h.distinct, fun lease hlease => ?_, h.created hs⟩
  obtain ⟨task, a, hheld⟩ := h.claimed.held lease hlease
  have hmem : (new task.info.id, a) ∈ fresh.map TaskLease.claim := by
    refine mem_map.mpr ⟨lease, hlease, ?_⟩
    rw [hheld.lease, leaseOf_claim]
  rw [h.claimed.granted, mem_leased] at hmem
  exact ⟨task, a, hheld, h.claimed.owned _ _ hmem⟩

/-- No claim is lost on the wire, and the first runnable task is leased. -/
theorem claim_delivery {capacity : ℕ} {b₀ : TaskRpcBroker J}
    (hnew : TaskRpcBroker.new capacity = .ok b₀) (ops : List (BrokerOp J)) (call : ClaimCall)
    (limit : UInt16)
    (hvalid : (Envelope.new (.claim call.requestId call.workerId call.leaseMs limit :
      Message J)).validate T = .ok ()) :
    let b := run (perform T) b₀ ops
    let reply := b.handle T call.nowMs
      (.new (.claim call.requestId call.workerId call.leaseMs limit))
    let requeued := (b.scheduler.requeueExpired call.nowMs limit.toNat).2
    (reply.1.validate T = .ok () ∧
      ∃ text, encodeMessage T reply.1 = .ok text ∧ size text ≤ maxTaskRpcFrame) ∧
    ((∃ leases, reply.1.message = .claimed call.requestId leases ∧
        Delivered call b.scheduler reply.2.scheduler leases) ∨
      (∃ code text, reply.1.message = .error (some call.requestId) code text ∧
        ∀ id a, reply.2.scheduler.claims.get? id = some a → b.scheduler.claims.get? id = some a)) ∧
    (∀ id, requeued.firstRunnable call.nowMs = some id →
      (requeued.generations.get? id).getD 0 < 2 ^ 64 - 1 →
      call.nowMs + call.leaseMs < 2 ^ 64 →
      ∃ lease rest, reply.1.message = .claimed call.requestId (lease :: rest) ∧
        lease.token.taskId = .new id) := by
  intro b reply requeued
  have hs : b.Sound T := (TaskRpcBroker.new_sound hnew).run ops
  obtain ⟨hcall, hpos, hlimit⟩ : call.Valid ∧ limit ≠ 0 ∧ limit.toNat ≤ maxClaimBatch := by
    simp only [Envelope.validate, Envelope.new, Message.validate, bind_ok, reject_ok] at hvalid
    obtain ⟨-, -, ⟨⟩, hworker, ⟨⟩, hms, hbounds⟩ := hvalid
    rw [not_or] at hbounds
    exact ⟨⟨hworker, hms⟩, hbounds.1, not_lt.mp hbounds.2⟩
  obtain ⟨ids, es₁, s₁, fresh, es₂, h⟩ := claim_phases hs.scheduler hcall hlimit
  have hreply : reply = (.new (call.loop T limit.toNat [] s₁).1,
      { b with scheduler := (call.loop T limit.toNat [] s₁).2 }) := by
    have hrespond : b.respond T call.nowMs (new (.claim call.requestId call.workerId
        call.leaseMs limit)).message = _ := h.response
    rw [show reply = _ from (handle_valid hvalid b call.nowMs).2, hrespond]
  rw [hreply]
  refine ⟨h.sendable.spec, ?_, fun id hfirst hgeneration hlt => ?_⟩
  · rcases h.claimed.response with ⟨hresponse, hsend⟩ | ⟨-, hnil, e, hresponse, -⟩
    · exact .inl ⟨fresh, hresponse, h.delivered hs (by simpa using hsend.count)⟩
    refine .inr ⟨_, _, hresponse, fun id a hactive => ?_⟩
    by_contra hnew
    have hmem := (h.created hs id a).mp ⟨hactive, hnew⟩
    rw [hnil] at hmem
    cases hmem
  have hs₁ : requeued = s₁ := h.requeued
  rw [hs₁] at hfirst hgeneration
  obtain ⟨turns, hturns⟩ : ∃ turns, limit.toNat = turns + 1 :=
    Nat.exists_eq_succ_of_ne_zero fun hzero => hpos (UInt16.toNat_inj.mp hzero)
  obtain ⟨_, _, _, rfl, -, hsend, hsound', hloop⟩ :=
    loop_first (h.sound hs) hcall hfirst hgeneration hlt
  obtain ⟨fresh, es, hrest⟩ := loop_claimed turns hsound' hcall (by simp; omega) hsend
  rw [hturns, hloop]
  rcases hrest.response with ⟨hresponse, -⟩ | ⟨hnil, -⟩
  · exact ⟨_, fresh, hresponse, rfl⟩
  · cases hnil

theorem run_plain : run (perform unitTexts) ⟨⟨1, [], ∅, ∅, ∅⟩, ∅⟩
    [.enqueue (plainTask 1)] = plainBroker := by
  rw [run_cons, enqueue_plain, run_nil]

theorem claim_delivery_plain :
    let b := run (perform unitTexts) ⟨⟨1, [], ∅, ∅, ∅⟩, ∅⟩ [.enqueue (plainTask 1)]
    let call : ClaimCall := ⟨1, "w", 1000, 0⟩
    let reply := b.handle unitTexts call.nowMs
      (.new (.claim call.requestId call.workerId call.leaseMs 1))
    ∃ lease rest, reply.1.message = .claimed call.requestId (lease :: rest) ∧
      lease.token.taskId = .new 1 := by
  refine (claim_delivery (show TaskRpcBroker.new 1 = .ok _ from rfl)
    [.enqueue (plainTask 1)] ⟨1, "w", 1000, 0⟩ 1 (by decide +kernel)).2.2 1 ?_ ?_ (by decide)
  · rw [run_plain]
    rfl
  · rw [run_plain]
    decide

namespace Waiting

def task (attempt : UInt32) : Task Unit := { (plainTask 1).in .queued with attempt }

def broker (attempt : UInt32) (gens : Table TaskId ℕ) : TaskRpcBroker Unit :=
  ⟨⟨1, [1], (∅ : Table TaskId (Task Unit)).insert 1 (task attempt), ∅, gens⟩, ∅⟩

def leased (attempt : UInt32) (gens : Table TaskId ℕ) (n : ℕ) : TaskRpcBroker Unit :=
  ⟨apply (apply (broker attempt gens).scheduler (.begun 1)) (.granted 1 ⟨n + 1, "w", 1000⟩), ∅⟩

def call : ClaimCall := ⟨1, "w", 1000, 0⟩

theorem call_valid : call.Valid := ⟨by decide, by decide⟩

variable {attempt : UInt32} {gens : Table TaskId ℕ} {n : ℕ}

theorem runnable : Runnable (broker attempt gens).scheduler 0 (task attempt) :=
  ⟨⟨[], rfl⟩, rfl, rfl⟩

theorem deliverable : Deliverable unitTexts (task attempt) :=
  ⟨(plainTask_deliverable 1).1, (plainTask_deliverable 1).2⟩

theorem not_refused : refusal unitTexts 1 "w" [] (task attempt) = none := by
  rcases refusal_cases deliverable rfl call_valid (.nil unitTexts 1) (by decide) with
    ⟨hnone, -⟩ | ⟨-, hne⟩
  · exact hnone
  · exact absurd rfl hne

theorem handle_claim : (broker attempt gens).handle unitTexts 0
    (.new (.claim 1 "w" 1000 1)) =
      (.new (call.loop unitTexts 1 [] (broker attempt gens).scheduler).1,
        ⟨(call.loop unitTexts 1 [] (broker attempt gens).scheduler).2, ∅⟩) := by
  rfl

theorem claim_leases (hok : (broker attempt gens).scheduler.Ok)
    (h : (gens.get? 1).getD 0 = n) (hn : n + 1 < 2 ^ 64) :
    ((broker attempt gens).perform unitTexts
      (.handle 0 (.new (.claim 1 "w" 1000 1)))).2 = leased attempt gens n := by
  have hgen : (broker attempt gens).scheduler.nextGeneration 1 = some (n + 1) := by
    have hlast : ((broker attempt gens).scheduler.generations.get? 1).getD 0 = n := h
    rw [Scheduler.nextGeneration, hlast, checkedAdd, if_pos hn]
  have hloop : call.loop unitTexts (0 + 1) [] (broker attempt gens).scheduler = _ :=
    loop_leased hok (peekRunnable_of runnable) runnable deliverable not_refused call_valid
      (by decide) hgen
  rw [perform, handle_claim, hloop]
  rfl

theorem release_queues : ((leased attempt gens n).perform unitTexts
      (.handle 0 (.new (.release 2 ⟨.new 1, n + 1, "w"⟩)))).2 =
      broker (Task.nextAttempt attempt) (gens.insert 1 (n + 1)) := by
  have hvalid : (new (.release 2 ⟨.new 1, n + 1, "w"⟩)).validate unitTexts = .ok () := by
    simp only [Envelope.validate, Envelope.new, Message.validate, LeaseToken.validate,
      new_valid, bind_ok, reject_ok]
    exact ⟨(), by simp, (), trivial, (), by simp, by decide⟩
  have hclaim : (leased attempt gens n).claimFromToken ⟨.new 1, n + 1, "w"⟩ =
      some ⟨(task attempt).begun, n + 1, "w", 0⟩ := by
    simp only [TaskRpcBroker.claimFromToken, parse_new]
    rfl
  have hlive : Live (leased attempt gens n).scheduler
      ⟨(task attempt).begun, n + 1, "w", 0⟩ 0 ⟨n + 1, "w", 1000⟩ :=
    ⟨rfl, rfl, rfl, Nat.succ_pos 999⟩
  rw [perform, (handle_valid hvalid _ 0).2]
  simp only [Envelope.new, respond, release, hclaim,
    Scheduler.releaseClaim, requireLiveClaim_of hlive]
  rfl

theorem ok_of_run {ops : List (BrokerOp Unit)}
    (h : run (perform unitTexts) ⟨⟨1, [], ∅, ∅, ∅⟩, ∅⟩ ops = broker attempt gens) :
    (broker attempt gens).scheduler.Ok := by
  have hs := (TaskRpcBroker.new_sound (T := unitTexts)
    (show TaskRpcBroker.new 1 = .ok ⟨⟨1, [], ∅, ∅, ∅⟩, ∅⟩ from rfl)).run ops
  rw [h] at hs
  exact hs.scheduler.ok

theorem reached (n : ℕ) (hn : n < 2 ^ 64) : ∃ ops attempt gens,
    run (perform unitTexts) ⟨⟨1, [], ∅, ∅, ∅⟩, ∅⟩ ops =
      broker attempt gens ∧ (gens.get? 1).getD 0 = n := by
  induction n with
  | zero => exact ⟨[.enqueue (plainTask 1)], _, ∅, run_plain, rfl⟩
  | succ n ih =>
    obtain ⟨ops, attempt, gens, hrun, hlast⟩ := ih (by omega)
    refine ⟨ops ++ [.handle 0 (.new (.claim 1 "w" 1000 1)),
      .handle 0 (.new (.release 2 ⟨.new 1, n + 1, "w"⟩))], Task.nextAttempt attempt,
      gens.insert 1 (n + 1), ?_, by simp⟩
    rw [run_append, hrun, run_cons, run_cons, run_nil,
      claim_leases (ok_of_run hrun) hlast hn, release_queues]

theorem claim_exhausted (hok : (broker attempt gens).scheduler.Ok)
    (h : (gens.get? 1).getD 0 = 2 ^ 64 - 1) :
    ((broker attempt gens).handle unitTexts 0 (.new (.claim 1 "w" 1000 1))).1 =
      .new (.error (some 1) .internal "task claim generation is exhausted") := by
  have hgen : (broker attempt gens).scheduler.nextGeneration 1 = none := by
    have hlast : ((broker attempt gens).scheduler.generations.get? 1).getD 0 = 2 ^ 64 - 1 := h
    rw [Scheduler.nextGeneration, hlast]
    exact if_neg (by norm_num)
  obtain ⟨_, hclaim, -⟩ := claimWithLease_exhausted hok runnable
    (leaseChecks_ok call_valid (by decide)) hgen
  have hloop : call.loop unitTexts (0 + 1) [] (broker attempt gens).scheduler = _ :=
    loop_failed (peekRunnable_of runnable) not_refused hclaim
  rw [handle_claim, hloop]
  rfl

end Waiting

/-- A task that has been leased as often as generations can count is not leased again. -/
theorem exhausted_generation_not_leased :
    ∃ ops : List (BrokerOp Unit), let b := run (perform unitTexts) ⟨⟨1, [], ∅, ∅, ∅⟩, ∅⟩ ops
      (b.scheduler.requeueExpired 0 1).2.firstRunnable 0 = some 1 ∧
      (b.handle unitTexts 0 (.new (.claim 1 "w" 1000 1))).1 =
        .new (.error (some 1) .internal "task claim generation is exhausted") := by
  obtain ⟨ops, _, _, hrun, hlast⟩ := Waiting.reached (2 ^ 64 - 1) (by norm_num)
  refine ⟨ops, ?_⟩
  rw [hrun]
  exact ⟨rfl, Waiting.claim_exhausted (Waiting.ok_of_run hrun) hlast⟩

end Tysel.Tasks
