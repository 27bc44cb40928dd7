import Tysel.Verification.Tasks.Operations
import Tysel.Verification.Tasks.Wire

/-! The broker changes its scheduler by the scheduler's effects and records the outcome of a task
together with its last transition. The invariant below is what its requests rely on. -/

namespace Tysel.Tasks

open Table Option Effect

open Tysel.Durable (TaskId checkedAdd)

variable {J : Type} {T : Texts J}

/-- What the broker has checked before it lets the scheduler commit an effect. It moves tasks
only into these states without an outcome. -/
def Effect.Wired (T : Texts J) : Effect J → Prop
  | .admitted t => Deliverable T t
  | .granted _ claim => (0 < claim.leaseUntilMs ∧ claim.leaseUntilMs < 2 ^ 64) ∧
      validateWorkerId claim.leaseOwner = .ok ()
  | .renewed _ leaseUntilMs => 0 < leaseUntilMs ∧ leaseUntilMs < 2 ^ 64
  | .moved _ next => next ≠ .waitingIo ∧ next ≠ .running
  | .expired _ _ | .begun _ => True

/-- The scheduler of a broker: every task can be delivered, and every claim carries the last
generation of its task. -/
structure Scheduler.Sound (T : Texts J) (s : Scheduler J) : Prop where
  ok : s.Ok
  deliverable : ∀ id t, s.tasks.get? id = some t → Deliverable T t
  noWaiting : ∀ id t, s.tasks.get? id = some t → t.state ≠ .waitingIo
  attempted : ∀ id t, s.tasks.get? id = some t → t.state = .running → t.attempt ≠ 0
  numbered : ∀ id a, s.claims.get? id = some a → s.generations.get? id = some a.generation
  generations : ∀ id g, s.generations.get? id = some g →
    (s.tasks.get? id).isSome ∧ 0 < g ∧ g < 2 ^ 64
  leases : ∀ id a, s.claims.get? id = some a → (0 < a.leaseUntilMs ∧ a.leaseUntilMs < 2 ^ 64) ∧
      validateWorkerId a.leaseOwner = .ok ()

theorem nextGeneration_spec {s : Scheduler J} {id : TaskId} {g : ℕ}
    (h : s.nextGeneration id = some g) :
    g = (s.generations.get? id).getD 0 + 1 ∧ g < 2 ^ 64 := by
  obtain ⟨hlt, rfl⟩ := Durable.checkedAdd_eq_some.mp h
  exact ⟨rfl, hlt⟩

namespace Scheduler.Sound

variable {s : Scheduler J} {e : Effect J} {id : TaskId}

section

variable (h : s.Sound T) (hen : e.Enabled s)

include h hen

theorem apply_tasks (hwi : e.Wired T) {t : Task J} (ht : (e.apply s).tasks.get? id = some t) :
    Deliverable T t ∧ t.state ≠ .waitingIo ∧ (t.state = .running → t.attempt ≠ 0) := by
  cases apply_origin hen ht with
  | kept hold =>
    exact ⟨h.deliverable id t hold, h.noWaiting id t hold, h.attempted id t hold⟩
  | admitted he =>
    subst he
    have hstate : t.state = .queued := hen.2.2
    exact ⟨hwi, by simp [hstate], by simp [hstate]⟩
  | expired old _ _ hold hnew =>
    subst hnew
    exact ⟨(h.deliverable id old hold).of_eq rfl rfl, by simp, by simp⟩
  | begun old _ hold hnew =>
    subst hnew
    exact ⟨(h.deliverable id old hold).of_eq rfl rfl, by simp,
      fun _ => nextAttempt_ne_zero old.attempt⟩
  | moved old _ he hold hnew =>
    subst he hnew
    exact ⟨(h.deliverable id old hold).of_eq rfl rfl, hwi.1, fun hrun => absurd hrun hwi.2⟩

theorem apply_claims (hwi : e.Wired T) {a : ActiveClaim}
    (hactive : (e.apply s).claims.get? id = some a) :
    (e.apply s).generations.get? id = some a.generation ∧
      (0 < a.leaseUntilMs ∧ a.leaseUntilMs < 2 ^ 64) ∧
      validateWorkerId a.leaseOwner = .ok () := by
  rw [apply_generations]
  cases apply_claimOrigin hen hactive with
  | kept hold =>
    refine ⟨?_, h.leases id a hold⟩
    cases e with
    | granted _ claim =>
      -- a task with a claim is not granted another one
      refine (if_neg ?_).trans (h.numbered id a hold)
      rintro rfl
      exact some_ne_none _ (hold.symm.trans hen.2.1)
    | _ => exact h.numbered id a hold
  | granted he =>
    subst he
    exact ⟨if_pos rfl, hwi⟩
  | renewed old _ he hold hnew =>
    subst he hnew
    exact ⟨h.numbered id old hold, hwi, (h.leases id old hold).2⟩

theorem apply_generation {g : ℕ} (hgeneration : (e.apply s).generations.get? id = some g) :
    ((e.apply s).tasks.get? id).isSome ∧ 0 < g ∧ g < 2 ^ 64 := by
  rw [apply_generations] at hgeneration
  have hkept (hold : s.generations.get? id = some g) :=
    (h.generations id g hold).imp_left (apply_known hen)
  cases e with
  | granted =>
    dsimp only at hgeneration
    split at hgeneration
    next hid =>
      obtain rfl := some.inj hgeneration
      obtain ⟨_, _⟩ := nextGeneration_spec hen.2.2
      obtain ⟨_, ht, -⟩ := hen.1
      exact ⟨apply_known hen (by rw [hid, ht]; rfl), by omega, by omega⟩
    next => exact hkept hgeneration
  | _ => exact hkept hgeneration

theorem apply (hwi : e.Wired T) : (e.apply s).Sound T where
  ok := h.ok.apply hen
  deliverable _ _ ht := (h.apply_tasks hen hwi ht).1
  noWaiting _ _ ht := (h.apply_tasks hen hwi ht).2.1
  attempted _ _ ht := (h.apply_tasks hen hwi ht).2.2
  numbered _ _ hactive := (h.apply_claims hen hwi hactive).1
  generations _ _ hgeneration := h.apply_generation hen hgeneration
  leases _ _ hactive := (h.apply_claims hen hwi hactive).2

end

theorem chain {s' : Scheduler J} {es : List (Effect J)} (h : s.Sound T) (hchain : Chain s es s')
    (hwi : ∀ e ∈ es, e.Wired T) : s'.Sound T :=
  Guarded.Chain.invariant (P := Scheduler.Sound T) (Wired T)
    (fun _ _ hwi h hen => Scheduler.Sound.apply h hen hwi) hchain hwi h

theorem running (h : s.Sound T) {a : ActiveClaim} (hactive : s.claims.get? id = some a) :
    ∃ t, s.tasks.get? id = some t ∧ t.state = .running ∧ t.info.id = id := by
  obtain ⟨t, ht, hrunning | hwaiting⟩ := h.ok.claimed id a hactive
  · exact ⟨t, ht, hrunning, h.ok.keyed id t ht⟩
  · exact absurd hwaiting (h.noWaiting id t ht)

end Scheduler.Sound

def TaskOutcome.Fits : TaskState → TaskOutcome J → Prop
  | .completed, .completed _ | .failed, .failed _ _ | .canceled, .canceled
  | .timedOut, .timedOut => True
  | _, _ => False

/-- `finished` is the last transition of a task with its outcome; `noted` stores the outcome of
a canceled task again. -/
inductive BrokerEffect (J : Type) where
  | quiet (e : Effect J)
  | finished (id : TaskId) (next : TaskState) (o : TaskOutcome J)
  | noted (id : TaskId)

namespace BrokerEffect

def id : BrokerEffect J → TaskId
  | .quiet e => e.id
  | .finished id _ _ | .noted id => id

def Enabled (T : Texts J) (b : TaskRpcBroker J) : BrokerEffect J → Prop
  | .quiet e => e.Enabled b.scheduler ∧ e.Wired T
  | .finished id next o => (moved id next).Enabled b.scheduler ∧
      next.isTerminal = true ∧ o.Fits next
  | .noted id => ∃ t, b.scheduler.tasks.get? id = some t ∧ t.state = .canceled

def apply (b : TaskRpcBroker J) : BrokerEffect J → TaskRpcBroker J
  | .quiet e => { b with scheduler := e.apply b.scheduler }
  | .finished id next o =>
    ⟨(moved id next).apply b.scheduler, b.outcomes.insert id o⟩
  | .noted id => { b with outcomes := b.outcomes.insert id .canceled }

end BrokerEffect

def brokerSystem (T : Texts J) : Guarded (TaskRpcBroker J) (BrokerEffect J) :=
  ⟨BrokerEffect.Enabled T, BrokerEffect.apply⟩

abbrev BrokerChain (T : Texts J) (b : TaskRpcBroker J) (es : List (BrokerEffect J))
    (b' : TaskRpcBroker J) : Prop :=
  (brokerSystem T).Chain b es b'

theorem BrokerChain.quiet {b : TaskRpcBroker J} {es : List (Effect J)} {s' : Scheduler J}
    (h : Chain b.scheduler es s') (hwi : ∀ e ∈ es, e.Wired T) :
    BrokerChain T b (es.map .quiet) { b with scheduler := s' } := by
  obtain ⟨s, outcomes⟩ := b
  dsimp only at h
  induction h with
  | nil => exact .nil _
  | @cons s _ e _ hen _ ih =>
    have hhead : BrokerEffect.Enabled T ⟨s, outcomes⟩ (.quiet e) :=
      ⟨hen, hwi e (List.mem_cons_self ..)⟩
    exact .cons hhead (ih fun e he => hwi e (List.mem_cons_of_mem _ he))

structure TaskRpcBroker.Sound (T : Texts J) (b : TaskRpcBroker J) : Prop where
  scheduler : b.scheduler.Sound T
  outcomes : ∀ id o, b.outcomes.get? id = some o →
    ∃ t, b.scheduler.tasks.get? id = some t ∧ t.state.isTerminal = true ∧ o.Fits t.state

namespace TaskRpcBroker.Sound

variable {b : TaskRpcBroker J}

theorem apply (h : b.Sound T) {e : BrokerEffect J} (hen : e.Enabled T b) : (e.apply b).Sound T := by
  cases e with
  | quiet =>
    refine ⟨h.scheduler.apply hen.1 hen.2, fun id o hout => ?_⟩
    obtain ⟨t, ht, hterminal, hfits⟩ := h.outcomes id o hout
    exact ⟨t, apply_terminal hen.1 ht hterminal, hterminal, hfits⟩
  | finished key next o =>
    obtain ⟨hmoved, hterminal, hfits⟩ := hen
    refine ⟨h.scheduler.apply hmoved ?_, fun id out hout => ?_⟩
    · cases next <;> simp_all [TaskState.isTerminal, Wired]
    have hout' : get? (b.outcomes.insert key o) id = some out := hout
    rw [get?_insert] at hout'
    split at hout'
    · rename_i hid
      subst hid
      obtain rfl := some.inj hout'
      obtain ⟨t, ht, -⟩ := hmoved
      refine ⟨t.in next, ?_, hterminal, hfits⟩
      change ((moved id next).apply b.scheduler).tasks.get? id = _
      rw [apply_moved ht]
      exact get?_insert_self ..
    · obtain ⟨t, ht, hdone, hout⟩ := h.outcomes id out hout'
      exact ⟨t, apply_terminal hmoved ht hdone, hdone, hout⟩
  | noted key =>
    refine ⟨h.scheduler, fun id out hout => ?_⟩
    have hout' : get? (b.outcomes.insert key .canceled) id = some out := hout
    rw [get?_insert] at hout'
    split at hout'
    · rename_i hid
      subst hid
      obtain rfl := some.inj hout'
      obtain ⟨t, ht, hstate⟩ := hen
      exact ⟨t, ht, by rw [hstate]; rfl, by rw [hstate]; trivial⟩
    · exact h.outcomes id out hout'

theorem chain {b' : TaskRpcBroker J} {es : List (BrokerEffect J)} (h : b.Sound T)
    (hchain : BrokerChain T b es b') : b'.Sound T :=
  Guarded.Chain.invariant (P := TaskRpcBroker.Sound T) (fun _ => True)
    (fun _ _ _ h hen => TaskRpcBroker.Sound.apply h hen) hchain (fun _ _ => trivial) h

end TaskRpcBroker.Sound

end Tysel.Tasks
