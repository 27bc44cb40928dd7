import Tysel.Shared.Exclusive
import Tysel.Algorithm.Tasks.Connections
import Tysel.Verification.Tasks.Fencing

/-! A worker id is held by one connection at a time, from the moment a first hello takes it until
the end of the connection removes it. What a connection sends or leaves behind changes claims
of its own id, queued tasks and expired claims only. -/

namespace Tysel.Tasks

open Option Table Function TaskRpcBroker Connection TaskRpcServer

open Tysel.Durable (TaskId)
open TaskRpcServer (put receive dispatch remove disconnect)
open TaskRpcSession (registering)

variable {J : Type} {T : Texts J} {b b' : TaskRpcBroker J} {sv : TaskRpcServer J} {id : TaskId}

/-- Nothing about the task has changed. -/
structure Untouched (b b' : TaskRpcBroker J) (id : TaskId) : Prop where
  tasks : b'.scheduler.tasks.get? id = b.scheduler.tasks.get? id
  claims : b'.scheduler.claims.get? id = b.scheduler.claims.get? id
  outcomes : b'.outcomes.get? id = b.outcomes.get? id

theorem Untouched.refl (b : TaskRpcBroker J) (id : TaskId) : Untouched b b id := ⟨rfl, rfl, rfl⟩

theorem apply_untouched {e : BrokerEffect J} (hen : e.Enabled T b) (hother : id ≠ e.id) :
    Untouched b (e.apply b) id := by
  cases e with
  | quiet =>
    exact ⟨(apply_tasks hen.1 id).trans (if_neg hother),
      (apply_claims hen.1 id).trans (if_neg hother), rfl⟩
  | finished =>
    exact ⟨(apply_tasks hen.1 id).trans (if_neg hother),
      (apply_claims hen.1 id).trans (if_neg hother), get?_insert_ne hother⟩
  | noted => exact ⟨rfl, rfl, get?_insert_ne hother⟩

theorem chain_untouched {es : List (BrokerEffect J)} (h : BrokerChain T b es b')
    (hother : ∀ e ∈ es, id ≠ e.id) : Untouched b b' id := by
  induction h with
  | nil b => exact .refl b id
  | @cons _ _ e _ hen _ ih =>
    have hhead := apply_untouched hen (hother e (List.mem_cons_self ..))
    have htail := ih fun e he => hother e (List.mem_cons_of_mem _ he)
    exact ⟨htail.tasks.trans hhead.tasks, htail.claims.trans hhead.claims,
      htail.outcomes.trans hhead.outcomes⟩

theorem perform_untouched (hsound : b.Sound T) (op : BrokerOp J) (h : ¬ op.Touches b id) :
    Untouched b (b.perform T op).2 id := by
  obtain ⟨_, hperformed⟩ := performed hsound.scheduler op
  refine chain_untouched hperformed.chain fun e he hid => ?_
  exact h (hid ▸ hperformed.touches e he)

/-- A request of one worker is not about the unexpired claim of another. -/
theorem matches_not_touches (hsound : b.Sound T) {wid : String} {message : Message J}
    (hmatches : workerRequestMatches wid message = true) {a : ActiveClaim}
    (hactive : b.scheduler.claims.get? id = some a) (howner : a.leaseOwner ≠ wid)
    {now : ℕ} (hlive : now < a.leaseUntilMs) : ¬ message.Touches b.scheduler now id := by
  -- a token names the owner of the claim that it is live for
  have htoken : ∀ lease : LeaseToken, lease.leaseOwner = wid →
      ¬ ∃ claim, lease.Live b.scheduler now id claim := by
    rintro _ hlease ⟨_, hclaim⟩
    obtain rfl := mem_unique hclaim.stored hactive
    exact howner (hclaim.leaseOwner.trans hlease)
  cases message with
  | claim =>
    rintro (hqueue | ⟨_, hclaim, hexpired⟩)
    · obtain ⟨task, htask, hqueued⟩ := (hsound.scheduler.ok.queued id).mp hqueue
      obtain ⟨t, ht, hrunning, -⟩ := hsound.scheduler.running hactive
      obtain rfl := mem_unique ht htask
      rw [hqueued] at hrunning
      cases hrunning
    · obtain rfl := mem_unique hclaim hactive
      exact absurd hexpired (not_le.mpr hlive)
  | renew requestId lease | release requestId lease | commit requestId lease =>
    exact htoken lease (by simpa [workerRequestMatches] using hmatches)
  | _ => cases hmatches

section Sessions

variable {σ : TaskRpcSession} {wid : String} {now : ℕ} {env : Envelope J}

theorem handle_unregistered (hw : σ.workerId = none) :
    (σ.handle T b now env).2.2 = b ∧ ((∀ wid, env.message ≠ .hello wid) → σ.handle T b now env =
          (errorResponse (requestId env.message) .invalidRequest
            "TaskRPC hello must be the first message", σ, b)) := by
  unfold TaskRpcSession.handle
  simp only [hw]
  split
  · rename_i wid hhello
    refine ⟨?_, fun hother => absurd hhello (hother wid)⟩
    cases hvalid : env.validate T with
    | error => simp only [handle, hvalid]
    | ok =>
      rw [(handle_valid hvalid b now).2, hhello]
      rfl
  · exact ⟨rfl, fun _ => rfl⟩

end Sessions

/-- The worker id that a connection holds: a first hello has taken it before the session knows
it, and it is given back last. -/
def Connection.holds (c : Connection J) : Option String :=
  match c.phase with
  | .dispatching req => c.session.workerId <|> c.session.registering req.message
  | .leaving wid => wid
  | .reading | .closing => c.session.workerId

theorem holds_dispatching (σ : TaskRpcSession) (req : Envelope J) :
    holds ⟨σ, .dispatching req⟩ = (σ.workerId <|> σ.registering req.message) := rfl

def TaskRpcServer.holder (sv : TaskRpcServer J) (id : ℕ) : Option String :=
  (sv.connections.get? id).bind holds

theorem holder_put (sv : TaskRpcServer J) (id : ℕ) (σ : TaskRpcSession)
    (phase : Phase J) : (sv.put id σ phase).holder = update sv.holder id (holds ⟨σ, phase⟩) := by
  funext x
  by_cases hx : x = id
  · subst hx
    rw [update_self, holder, put, get?_insert_self]
    rfl
  · rw [update_of_ne hx, holder, put, get?_insert_ne hx]
    rfl

structure TaskRpcServer.Ok (T : Texts J) (sv : TaskRpcServer J) : Prop where
  broker : sv.broker.Sound T
  exclusive : Exclusive sv.activeWorkers sv.holder
  valid : ∀ id σ req, sv.connections.get? id = some ⟨σ, .dispatching req⟩ → req.validate T = .ok ()
  left : ∀ id σ wid, sv.connections.get? id = some ⟨σ, .leaving wid⟩ → σ.workerId = none

namespace TaskRpcServer.Ok

variable {id : ℕ} {σ : TaskRpcSession} {phase : Phase J}

theorem new (h : b.Sound T) : (new b).Ok T :=
  ⟨h, .empty, by simp [TaskRpcServer.new], by simp [TaskRpcServer.new]⟩

theorem holder_eq {c : Connection J} (hget : sv.connections.get? id = some c) :
    sv.holder id = c.holds := by
  rw [holder, hget]
  rfl

theorem holder_erase (sv : TaskRpcServer J) (id : ℕ) (wid : Option String) :
    (sv.remove id wid).holder = update sv.holder id none := by
  funext x
  change (get? (sv.connections.erase id) x).bind holds = _
  by_cases hx : x = id
  · subst hx
    rw [update_self, get?_erase_self]
    rfl
  · rw [update_of_ne hx, get?_erase_ne hx]
    rfl

section

variable (h : sv.Ok T)

include h

theorem put {a : Finset String} (hbroker : b.Sound T)
    (hexclusive : Exclusive a (update sv.holder id (Connection.holds ⟨σ, phase⟩)))
    (hvalid : ∀ req, phase = .dispatching req → req.validate T = .ok ())
    (hleft : ∀ wid, phase = .leaving wid → σ.workerId = none) : Ok T
      { sv.put id σ phase with broker := b, activeWorkers := a } := by
  refine ⟨hbroker, ?_, ?_, ?_⟩
  · rw [← holder_put] at hexclusive
    exact hexclusive
  · intro x s req hget
    rcases get?_insert_eq_some.mp hget with ⟨-, heq⟩ | ⟨-, hget⟩
    · obtain ⟨-, hphase⟩ := Connection.mk.inj heq
      exact hvalid req hphase
    · exact h.valid x s req hget
  · intro x s wid hget
    rcases get?_insert_eq_some.mp hget with ⟨-, heq⟩ | ⟨-, hget⟩
    · obtain ⟨hsession, hphase⟩ := Connection.mk.inj heq
      exact hsession ▸ hleft wid hphase
    · exact h.left x s wid hget

theorem keep (hbroker : b.Sound T) (hsame : holds ⟨σ, phase⟩ = sv.holder id)
    (hvalid : ∀ req, phase = .dispatching req → req.validate T = .ok ())
    (hleft : ∀ wid, phase = .leaving wid → σ.workerId = none) :
    Ok T { sv.put id σ phase with broker := b } := by
  refine h.put hbroker ?_ hvalid hleft
  rw [hsame, update_eq_self]
  exact h.exclusive

theorem receive (hget : sv.connections.get? id = some ⟨σ, .reading⟩)
    (env : Envelope J) : (sv.receive T id σ env).2.Ok T := by
  have hholds : sv.holder id = σ.workerId := holder_eq hget
  have hrequest (hvalid : env.validate T = .ok ()) : ∀ req,
      Phase.dispatching env = .dispatching req → req.validate T = .ok () := by
    rintro _ ⟨⟩
    exact hvalid
  fun_cases TaskRpcServer.receive T sv id σ env with
  | case1 => exact h.keep h.broker hholds.symm (by simp) (by simp)
  | case2 _ hvalid hnone =>
    refine h.keep h.broker ?_ (hrequest hvalid) (by simp)
    rw [hholds, holds_dispatching, hnone]
    cases σ.workerId <;> rfl
  | case3 => exact h
  | case4 _ hvalid _ hregister hnew =>
    have hfree : σ.workerId = none := by
      unfold registering at hregister
      split at hregister
      · assumption
      · cases hregister
    refine h.put h.broker ?_ (hrequest hvalid) (by simp)
    rw [holds_dispatching, hregister, hfree]
    exact h.exclusive.acquire (hholds.trans hfree) hnew

theorem dispatch {env : Envelope J}
    (hget : sv.connections.get? id = some ⟨σ, .dispatching env⟩) (now : ℕ) :
    (sv.dispatch T id σ env now).2.Ok T := by
  have hvalid := h.valid id σ env hget
  have hbroker : (σ.handle T sv.broker now env).2.2.Sound T := by
    have hhandled := h.broker.perform (.handle now env)
    unfold TaskRpcSession.handle
    split
    · split
      · exact hhandled
      · exact h.broker
    · split
      · exact hhandled
      · exact h.broker
  refine h.keep hbroker ?_ (by simp) (by simp)
  rw [holder_eq hget]
  change (σ.handle T sv.broker now env).2.1.workerId = (σ.workerId <|> σ.registering env.message)
  unfold TaskRpcSession.handle registering
  cases hw : σ.workerId with
  | some =>
    dsimp only
    split <;> exact hw
  | none =>
    cases env.message <;> simp [hvalid, hw]

theorem disconnect (hget : sv.connections.get? id = some ⟨σ, .closing⟩) (now : ℕ) :
    (sv.disconnect id σ now).Ok T := by
  have hbroker : (σ.disconnect sv.broker now).2.2.Sound T := by
    unfold TaskRpcSession.disconnect
    cases σ.workerId with
    | none => exact h.broker
    | some wid => exact h.broker.perform (.disconnectWorker wid now)
  refine h.keep hbroker (holder_eq hget).symm (by simp) ?_
  intro wid _
  unfold TaskRpcSession.disconnect
  cases hw : σ.workerId with
  | none => exact hw
  | some => rfl

theorem remove {wid : Option String} (hget : sv.connections.get? id = some ⟨σ, .leaving wid⟩) :
    (sv.remove id wid).Ok T := by
  have hholds : sv.holder id = wid := holder_eq hget
  refine ⟨h.broker, ?_, fun x s req hc => h.valid x s req
    (get?_erase_eq_some.mp hc).2, fun x s w hc => h.left x s w
    (get?_erase_eq_some.mp hc).2⟩
  rw [holder_erase]
  cases wid with
  | none =>
    have hsame : update sv.holder id none = sv.holder := by
      rw [← hholds, update_eq_self]
    rw [hsame]
    exact h.exclusive
  | some => exact h.exclusive.release hholds

theorem perform (op : ServerOp J) : (sv.perform T op).2.Ok T := by
  fun_cases TaskRpcServer.perform T sv op with
  | case1 _ hnone =>
    refine h.keep h.broker ?_ (by simp) (by simp)
    rw [holder, hnone]
    rfl
  | case3 _ env _ hget => exact h.receive hget env
  | case5 _ now _ _ hget => exact h.dispatch hget now
  | case7 _ _ hget => exact h.keep h.broker (holder_eq hget).symm (by simp) (by simp)
  | case9 _ now _ hget => exact h.disconnect hget now
  | case11 _ _ _ hget => exact h.remove hget
  | case13 op => exact ⟨h.broker.perform op, h.exclusive, h.valid, h.left⟩
  | _ => exact h

theorem run (ops : List (ServerOp J)) : (run (TaskRpcServer.perform T) sv ops).Ok T :=
  run_invariant _ _ h (fun _ op hserver => TaskRpcServer.Ok.perform hserver op) ops

end

end TaskRpcServer.Ok

def ServerOp.connection : ServerOp J → Option ℕ
  | .accept id | .receive id _ | .dispatch id _ | .close id | .disconnect id _ | .remove id =>
    some id
  | .broker _ => none

/-- The lease has not expired when the step uses the broker. -/
def ServerOp.Before (a : ActiveClaim) : ServerOp J → Prop
  | .dispatch _ now | .disconnect _ now => now < a.leaseUntilMs
  | _ => True

/-- A hello as the first request registers its worker id. -/
def TaskRpcServer.Registers (T : Texts J) (sv : TaskRpcServer J) (wid : String) : Prop :=
  ∀ id env now, sv.connections.get? id = some ⟨.new, .reading⟩ →
    env.message = .hello wid → env.validate T = .ok () →
    let received := sv.perform T (.receive id env)
    let registered := received.2.perform T (.dispatch id now)
    registered.1 = some (.new .ready) ∧
      registered.2.connections.get? id = some ⟨⟨some wid⟩, .reading⟩

section Steps

variable {op : ServerOp J} {id : ℕ} {σ : TaskRpcSession} {phase : Phase J}
  {wid : String}

theorem receive_activeWorkers (T : Texts J) (id : ℕ) {env : Envelope J}
    (hother : ∀ wid, env.message ≠ .hello wid) :
    (sv.perform T (.receive id env)).2.activeWorkers = sv.activeWorkers := by
  have hnone : ∀ σ : TaskRpcSession, σ.registering env.message = none := by
    intro σ
    unfold registering
    split
    · rename_i wid hhello _
      exact absurd hhello (hother wid)
    · rfl
  simp only [TaskRpcServer.perform]
  split
  · simp only [receive, hnone]
    split <;> rfl
  · rfl

theorem step_broker (T : Texts J) (hop : op.connection = some id)
    (hget : sv.connections.get? id = some ⟨σ, phase⟩) :
    (sv.perform T op).2.broker = sv.broker ∨
    (∃ now env, op = .dispatch id now ∧ phase = .dispatching env ∧
      (sv.perform T op).2.broker = (σ.handle T sv.broker now env).2.2) ∨
    (∃ now, op = .disconnect id now ∧
      (sv.perform T op).2.broker = (σ.disconnect sv.broker now).2.2) := by
  fun_cases perform T sv op with
  | case3 x env s => exact .inl (by fun_cases receive T sv x s env <;> rfl)
  | case5 _ now _ env hs =>
    obtain rfl := some.inj hop
    obtain ⟨rfl, rfl⟩ := mk.inj (some.inj (hget.symm.trans hs))
    exact .inr (.inl ⟨now, env, rfl, rfl, rfl⟩)
  | case9 _ now _ hs =>
    obtain rfl := some.inj hop
    obtain ⟨rfl, -⟩ := mk.inj (some.inj (hget.symm.trans hs))
    exact .inr (.inr ⟨now, rfl, rfl⟩)
  | case13 => cases hop
  | _ => exact .inl rfl

theorem step_unregistered (hop : op.connection = some id)
    (hget : sv.connections.get? id = some ⟨σ, phase⟩)
    (hw : σ.workerId = none) : (sv.perform T op).2.broker = sv.broker := by
  rcases step_broker T hop hget with hsame | ⟨now, env, rfl, -, hstep⟩ | ⟨now, rfl, hstep⟩
  · exact hsame
  · rw [hstep]
    exact (handle_unregistered hw).1
  · rw [hstep]
    simp only [TaskRpcSession.disconnect, hw]

theorem registers_of (hfree : wid ∉ sv.activeWorkers) : sv.Registers T wid := by
  intro x env now hget hhello hvalid
  have hregister : TaskRpcSession.new.registering env.message = some wid := by
    rw [hhello]
    rfl
  have hreceive : sv.perform T (.receive x env) = (none, { sv.put x .new (.dispatching env) with
        activeWorkers := insert wid sv.activeWorkers }) := by
    simp only [TaskRpcServer.perform, hget, receive, hvalid, hregister, if_neg hfree]
  have hget' : get? (sv.connections.insert x ⟨.new, .dispatching env⟩) x =
      some ⟨.new, .dispatching env⟩ := get?_insert_self ..
  simp only [hreceive]
  simp only [TaskRpcServer.perform, put, hget', dispatch, TaskRpcSession.handle,
    show new.workerId = none from rfl, hhello, hvalid, if_true,
    (handle_valid hvalid sv.broker now).2]
  exact ⟨rfl, get?_insert_self ..⟩

theorem registered_holds (h : sv.Ok T) {c : Connection J}
    (hget : sv.connections.get? id = some c) (hw : c.session.workerId = some wid) :
    sv.holder id = some wid := by
  obtain ⟨σ, phase⟩ := c
  rw [Ok.holder_eq hget]
  cases phase with
  | dispatching =>
    rw [holds_dispatching, show σ.workerId = some wid from hw]
    rfl
  | leaving left => exact absurd (hw.symm.trans (h.left id σ left hget)) (by simp)
  | reading | closing => exact hw

end Steps

/-- Worker ids are exclusive, connections are isolated from the claims of other workers, only
a hello counts before registration, and an id can be registered once no connection holds it. -/
theorem connections_isolated {capacity : ℕ} {b₀ : TaskRpcBroker J}
    (hnew : TaskRpcBroker.new capacity = .ok b₀) (ops : List (ServerOp J)) :
    let sv := run (TaskRpcServer.perform T) (.new b₀) ops
    (∀ id id' c c' wid, sv.connections.get? id = some c →
      sv.connections.get? id' = some c' → c.session.workerId = some wid →
      c'.session.workerId = some wid → id = id') ∧
    (∀ op id c wid, op.connection = some id → sv.connections.get? id = some c →
      c.session.workerId = some wid →
      ∀ task a, sv.broker.scheduler.claims.get? task = some a → a.leaseOwner ≠ wid → op.Before a →
        Untouched sv.broker (sv.perform T op).2.broker task) ∧
    (∀ id c, sv.connections.get? id = some c → c.session.workerId = none →
      (∀ op, op.connection = some id → (sv.perform T op).2.broker = sv.broker) ∧
      (∀ env, (∀ wid, env.message ≠ .hello wid) →
        (sv.perform T (.receive id env)).2.activeWorkers = sv.activeWorkers) ∧
      (∀ now env, c.phase = .dispatching env → (∀ wid, env.message ≠ .hello wid) →
        sv.perform T (.dispatch id now) =
          (some (errorResponse (requestId env.message) .invalidRequest
            "TaskRPC hello must be the first message"), sv.put id c.session .reading))) ∧
    (∀ id σ now wid, sv.connections.get? id = some ⟨σ, .reading⟩ → σ.workerId = some wid →
      (run (TaskRpcServer.perform T) sv [.close id, .disconnect id now]).connections.get? id =
        some ⟨⟨none⟩, .leaving (some wid)⟩) ∧
    (∀ id σ wid, sv.connections.get? id = some ⟨σ, .leaving (some wid)⟩ →
      ∀ id', (sv.perform T (.remove id)).2.holder id' ≠ some wid) ∧
    (∀ wid, (∀ id, sv.holder id ≠ some wid) → sv.Registers T wid) := by
  intro sv
  have hok : sv.Ok T := (TaskRpcServer.Ok.new (new_sound hnew)).run ops
  refine ⟨?_, ?_, ?_, ?_, ?_, ?_⟩
  · intro id id' c c' wid hget hget' hw hworker'
    exact hok.exclusive.unique wid id id' (registered_holds hok hget hw)
      (registered_holds hok hget' hworker')
  · rintro _ _ ⟨_, _⟩ wid hop hget hw _ _ hactive howner hbefore
    dsimp only at hw
    rcases step_broker T hop hget with
      hsame | ⟨now, env, rfl, -, hstep⟩ | ⟨now, rfl, hstep⟩
    · rw [hsame]
      exact .refl _ _
    · rw [hstep, TaskRpcSession.handle]
      simp only [hw]
      split
      · rename_i hmatches
        exact perform_untouched hok.broker (.handle now env)
          (matches_not_touches hok.broker hmatches hactive howner hbefore)
      · exact .refl _ _
    · rw [hstep, TaskRpcSession.disconnect]
      simp only [hw]
      refine perform_untouched hok.broker (.disconnectWorker wid now) ?_
      rintro ⟨_, hclaim, hmine⟩
      obtain rfl := mem_unique hclaim hactive
      exact howner hmine
  · rintro id ⟨_, _⟩ hget hw
    refine ⟨fun op hop => step_unregistered hop hget hw,
      fun env hother => receive_activeWorkers T id hother, ?_⟩
    rintro now env rfl hother
    simp only [TaskRpcServer.perform, hget, dispatch, (handle_unregistered hw).2 hother]
    rfl
  · intro id σ now wid hget hw
    have hclose : sv.perform T (.close id) = (none, sv.put id σ .closing) := by
      simp only [TaskRpcServer.perform, hget]
    have hclosing : (sv.put id σ .closing).connections.get? id =
        some ⟨σ, .closing⟩ := get?_insert_self ..
    have hdisconnect : (sv.put id σ .closing).perform T (.disconnect id now) =
        (none, (sv.put id σ .closing).disconnect id σ now) := by
      simp only [TaskRpcServer.perform, hclosing]
    simp only [run_cons, run_nil, hclose, hdisconnect, disconnect, TaskRpcSession.disconnect, hw]
    exact get?_insert_self ..
  · intro id σ wid hget id' hheld
    have hin := ((hok.perform (.remove id)).exclusive.held wid).mpr ⟨id', hheld⟩
    simp only [TaskRpcServer.perform, hget, remove] at hin
    exact Finset.notMem_erase wid _ hin
  · intro wid hfree
    refine registers_of fun hin => ?_
    obtain ⟨id, hheld⟩ := (hok.exclusive.held wid).mp hin
    exact hfree id hheld

/-- Two workers connect; the first one claims task 1 and the second one asks for a task. -/
def connectedRun : List (ServerOp Unit) :=
  [.accept 0, .accept 1, .receive 0 (.new (.hello "w")), .dispatch 0 0,
    .receive 1 (.new (.hello "v")), .dispatch 1 0, .receive 0 (.new (.claim 1 "w" 1000 1)),
    .dispatch 0 0, .receive 1 (.new (.claim 1 "v" 1000 1))]

theorem second_worker_isolated :
    let sv := run (TaskRpcServer.perform unitTexts) (.new ⟨⟨1, [], ∅, ∅, ∅⟩, ∅⟩)
      (.broker (.enqueue (plainTask 1)) :: connectedRun)
    sv.broker.scheduler.claims.get? 1 = some ⟨1, "w", 1000⟩ ∧
      Untouched sv.broker (sv.perform unitTexts (.dispatch 1 5)).2.broker 1 := by
  refine ⟨?_, (connections_isolated (show new 1 = .ok _ from rfl)
    (.broker (.enqueue (plainTask 1)) :: connectedRun)).2.1 (.dispatch 1 5) 1
    ⟨⟨some "v"⟩, .dispatching (.new (.claim 1 "v" 1000 1))⟩ "v" rfl ?_ rfl 1 ⟨1, "w", 1000⟩ ?_
    (by decide) (Nat.le_of_ble_eq_true rfl)⟩
  all_goals decide +kernel

end Tysel.Tasks
