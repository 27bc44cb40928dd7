import Tysel.Shared.Guarded
import Tysel.Algorithm.Tasks.Scheduler

/-! Every operation of the scheduler is a sequence of a few atomic effects. The invariant of the
queue is proved once for each effect. -/

namespace Tysel.Tasks

open List Option Table TaskState Scheduler

open Tysel.Durable (TaskId)
open Scheduler (admitted moved granted renewed requeued)

variable {J : Type}

/-- The queue holds exactly the queued tasks, and only working tasks are claimed. -/
structure Scheduler.Ok (s : Scheduler J) : Prop where
  keyed : ∀ id t, s.tasks.get? id = some t → t.info.id = id
  nodup : s.queue.Nodup
  queued : ∀ id, id ∈ s.queue ↔ ∃ t, s.tasks.get? id = some t ∧ t.state = .queued
  bounded : s.queue.length ≤ s.capacity
  claimed : ∀ id a, s.claims.get? id = some a →
    ∃ t, s.tasks.get? id = some t ∧ (t.state = .running ∨ t.state = .waitingIo)

def Task.in (t : Task J) (next : TaskState) : Task J := { t with state := next }

def Task.begun (t : Task J) : Task J :=
  { t with state := .running, attempt := Task.nextAttempt t.attempt }

inductive Effect (J : Type) where
  | admitted (t : Task J)
  | expired (id : TaskId) (now : ℕ)
  | begun (id : TaskId)
  | granted (id : TaskId) (c : ActiveClaim)
  | renewed (id : TaskId) (leaseUntilMs : ℕ)
  | moved (id : TaskId) (next : TaskState)

namespace Effect

def id : Effect J → TaskId
  | .admitted t => t.info.id
  | .expired id _ | .begun id | .granted id _ | .renewed id _ | .moved id _ => id

/-- What the operation that commits the effect has established. The effect `moved` is a
transition of a task that is not queued, or one that ends a queued task. -/
def Enabled (s : Scheduler J) : Effect J → Prop
  | .admitted t =>
    s.tasks.get? t.info.id = none ∧ s.queue.length < s.capacity ∧ t.state = .queued
  | .expired id now => ∃ rest t, s.queue = id :: rest ∧ s.tasks.get? id = some t ∧
      t.state = .queued ∧ t.deadlineReached now = true
  | .begun id => ∃ rest t, s.queue = id :: rest ∧ s.tasks.get? id = some t ∧ t.state = .queued
  | .granted id c => (∃ t, s.tasks.get? id = some t ∧ t.state = .running) ∧
      s.claims.get? id = none ∧ s.nextGeneration id = some c.generation
  | .renewed id _ => ∃ a, s.claims.get? id = some a
  | .moved id next => ∃ t, s.tasks.get? id = some t ∧
      t.state.canTransitionTo next = true ∧ (next = .queued → s.queue.length < s.capacity) ∧
      ¬(t.state = .queued ∧ next = .running)

def apply (s : Scheduler J) : Effect J → Scheduler J
  | .admitted t => s.admitted t
  | .expired id _ =>
    match s.tasks.get? id with
    | some t => s.moved id (t.in .timedOut)
    | none => s
  | .begun id =>
    match s.tasks.get? id with
    | some t => { s with queue := s.queue.tail, tasks := s.tasks.insert id t.begun }
    | none => s
  | .granted id c => s.granted id c
  | .renewed id leaseUntilMs => s.renewed id leaseUntilMs
  | .moved id next =>
    match s.tasks.get? id with
    | some t => s.moved id (t.in next)
    | none => s

end Effect

def schedulerSystem (J : Type) : Guarded (Scheduler J) (Effect J) := ⟨Effect.Enabled, Effect.apply⟩

abbrev Chain (s : Scheduler J) (es : List (Effect J)) (s' : Scheduler J) : Prop :=
  (schedulerSystem J).Chain s es s'

/-! ## What an effect does to a task -/

variable {s : Scheduler J} {t : Task J} {id : TaskId}

section

variable (h : s.tasks.get? id = some t)

include h

theorem apply_moved (next : TaskState) :
    Effect.apply s (.moved id next) = s.moved id (t.in next) := by
  simp [Effect.apply, h]

theorem apply_expired (now : ℕ) :
    Effect.apply s (.expired id now) = s.moved id (t.in .timedOut) := by
  simp [Effect.apply, h]

theorem apply_begun : Effect.apply s (.begun id) =
      { s with queue := s.queue.tail, tasks := s.tasks.insert id t.begun } := by
  simp [Effect.apply, h]

end

def Effect.taskAfter (t : Option (Task J)) : Effect J → Option (Task J)
  | .admitted new => some new
  | .expired _ _ => t.map fun t => t.in .timedOut
  | .begun _ => t.map Task.begun
  | .moved _ next => t.map fun t => t.in next
  | .granted _ _ | .renewed _ _ => t

variable {e : Effect J} {next : TaskState}

theorem apply_tasks (hen : e.Enabled s) (id : TaskId) : (e.apply s).tasks.get? id =
      if id = e.id then e.taskAfter (s.tasks.get? id) else s.tasks.get? id := by
  by_cases hid : id = e.id
  · subst hid
    cases e with
    | admitted => simp [Effect.apply, admitted, Effect.id, Effect.taskAfter]
    | expired =>
      obtain ⟨rest, t, -, hta, -, -⟩ := hen
      simp [apply_expired hta, moved, Effect.id, hta, Effect.taskAfter]
    | begun =>
      obtain ⟨rest, t, -, hta, -⟩ := hen
      simp [apply_begun hta, Effect.id, hta, Effect.taskAfter]
    | granted =>
      simp [Effect.apply, granted, Effect.id, Effect.taskAfter]
    | renewed =>
      simp [Effect.apply, renewed, Effect.id, Effect.taskAfter]
    | moved =>
      obtain ⟨_, hta, -⟩ := hen
      simp [apply_moved hta, moved, Effect.id, hta, Effect.taskAfter]
  · rw [if_neg hid]
    cases e with
    | admitted => exact get?_insert_ne hid
    | granted | renewed => rfl
    | _ =>
      simp only [Effect.apply]
      split
      · exact get?_insert_ne hid
      · rfl

theorem apply_known (hen : e.Enabled s) {id : TaskId} (h : (s.tasks.get? id).isSome) :
    ((e.apply s).tasks.get? id).isSome := by
  rw [apply_tasks hen]
  split
  · obtain ⟨_, ht⟩ := isSome_iff_exists.mp h
    rw [ht]
    cases e <;> rfl
  · exact h

def Effect.claimAfter (a : Option ActiveClaim) : Effect J → Option ActiveClaim
  | .granted _ c => some c
  | .renewed _ leaseUntilMs => a.map fun a => { a with leaseUntilMs }
  | .expired _ _ => none
  | .moved _ next => if next.dropsClaim then none else a
  | _ => a

theorem apply_claims (hen : e.Enabled s) (id : TaskId) : (e.apply s).claims.get? id =
      if id = e.id then e.claimAfter (s.claims.get? id) else s.claims.get? id := by
  have hmoved : ∀ t key, (s.moved key t).claims.get? id =
      if id = key then if t.state.dropsClaim then none else s.claims.get? id
      else s.claims.get? id := by
    intro t key
    unfold moved
    cases t.state.dropsClaim <;> simp [get?_erase]
  cases e with
  | admitted => simp [Effect.apply, admitted, Effect.claimAfter]
  | expired =>
    obtain ⟨rest, t, -, hta, -, -⟩ := hen
    rw [apply_expired hta, hmoved]
    rfl
  | begun =>
    obtain ⟨_, _, -, hta, -⟩ := hen
    simp [apply_begun hta, Effect.claimAfter]
  | granted => exact get?_insert ..
  | renewed id' leaseUntilMs =>
    by_cases hid : id = id'
    · subst hid
      simp [Effect.apply, renewed, Effect.id, Effect.claimAfter]
    · rw [if_neg (show id ≠ Effect.id (.renewed id' leaseUntilMs) from hid)]
      exact get?_modify_ne _ _ hid
  | moved =>
    obtain ⟨_, hta, -⟩ := hen
    rw [apply_moved hta, hmoved]
    rfl

inductive Effect.ClaimOrigin (s : Scheduler J) (id : TaskId) (a : ActiveClaim) (e : Effect J) : Prop
  | kept : s.claims.get? id = some a → ClaimOrigin s id a e
  | granted : e = .granted id a → ClaimOrigin s id a e
  | renewed (old : ActiveClaim) (leaseUntilMs : ℕ) : e = .renewed id leaseUntilMs →
      s.claims.get? id = some old → a = { old with leaseUntilMs } → ClaimOrigin s id a e

theorem apply_claimOrigin (hen : e.Enabled s) {a : ActiveClaim}
    (h : (e.apply s).claims.get? id = some a) : e.ClaimOrigin s id a := by
  rw [apply_claims hen] at h
  split at h
  · rename_i hid
    subst hid
    cases e with
    | admitted => exact .kept h
    | expired => cases h
    | begun => exact .kept h
    | granted _ c =>
      obtain rfl : c = a := some.inj h
      exact .granted rfl
    | renewed _ leaseUntilMs =>
      obtain ⟨old, hold, rfl⟩ := map_eq_some_iff.mp h
      exact .renewed old leaseUntilMs rfl hold rfl
    | moved =>
      simp only [Effect.claimAfter] at h
      split at h
      · cases h
      · exact .kept h
  · exact .kept h

theorem apply_generations (s : Scheduler J) (e : Effect J) (id : TaskId) :
    (e.apply s).generations.get? id = match e with
      | .granted key c => if id = key then some c.generation else s.generations.get? id
      | _ => s.generations.get? id := by
  cases e with
  | admitted => rfl
  | granted => exact get?_insert ..
  | renewed => rfl
  | _ =>
    simp only [Effect.apply]
    split <;> rfl

theorem apply_capacity (s : Scheduler J) (e : Effect J) : (e.apply s).capacity = s.capacity := by
  cases e with
  | admitted | granted | renewed => rfl
  | _ =>
    simp only [Effect.apply]
    split <;> rfl

theorem mem_requeued {queue : List TaskId} (id : TaskId) (next : TaskState) {x : TaskId}
    (h : x ∈ requeued queue id next) : x ∈ queue ∨ x = id := by
  unfold requeued at h
  split at h
  · simpa using h
  · split at h
    · exact .inl (mem_of_mem_filter h)
    · exact .inl h

theorem mem_apply_queue (hen : e.Enabled s) {x : TaskId} (h : x ∈ (e.apply s).queue) :
    x ∈ s.queue ∨ x = e.id := by
  cases e with
  | admitted => simpa [Effect.apply, admitted, Effect.id] using h
  | expired id =>
    obtain ⟨_, _, -, hta, -, -⟩ := hen
    rw [apply_expired hta] at h
    exact mem_requeued id .timedOut h
  | begun =>
    obtain ⟨_, _, -, hta, -⟩ := hen
    rw [apply_begun hta] at h
    exact .inl (mem_of_mem_tail h)
  | granted | renewed => exact .inl h
  | moved id next =>
    obtain ⟨_, hta, -⟩ := hen
    rw [apply_moved hta] at h
    exact mem_requeued id next h

/-- Where the task under a key comes from. -/
inductive Effect.Origin (s : Scheduler J) (id : TaskId) (t : Task J) (e : Effect J) : Prop
  | kept : s.tasks.get? id = some t → Origin s id t e
  | admitted : e = .admitted t → id = t.info.id → Origin s id t e
  | expired (old : Task J) (now : ℕ) : e = .expired id now → s.tasks.get? id = some old →
      t = old.in .timedOut → Origin s id t e
  | begun (old : Task J) : e = .begun id → s.tasks.get? id = some old → t = old.begun →
      Origin s id t e
  | moved (old : Task J) (next : TaskState) : e = .moved id next → s.tasks.get? id = some old →
      t = old.in next → Origin s id t e

theorem apply_origin (hen : e.Enabled s) (h : (e.apply s).tasks.get? id = some t) :
    e.Origin s id t := by
  rw [apply_tasks hen] at h
  split at h
  · rename_i hid
    subst hid
    cases e with
    | admitted new =>
      obtain rfl : new = t := some.inj h
      exact .admitted rfl rfl
    | expired _ now =>
      obtain ⟨old, hold, rfl⟩ := map_eq_some_iff.mp h
      exact .expired old now rfl hold rfl
    | begun =>
      obtain ⟨old, hold, rfl⟩ := map_eq_some_iff.mp h
      exact .begun old rfl hold rfl
    | granted | renewed => exact .kept h
    | moved _ next =>
      obtain ⟨old, hold, rfl⟩ := map_eq_some_iff.mp h
      exact .moved old next rfl hold rfl
  · exact .kept h

theorem apply_terminal (hen : e.Enabled s) (hta : s.tasks.get? id = some t)
    (hterminal : t.state.isTerminal) : (e.apply s).tasks.get? id = some t := by
  have hqueued : t.state ≠ .queued := by
    rintro hst
    simp [hst, isTerminal] at hterminal
  rw [apply_tasks hen]
  split
  · rename_i hid
    subst hid
    cases e with
    | admitted new =>
      have hnone : s.tasks.get? new.info.id = none := hen.1
      rw [show s.tasks.get? new.info.id = some t from hta] at hnone
      cases hnone
    | expired =>
      obtain ⟨-, u, -, ht, hst, -⟩ := hen
      obtain rfl : u = t := mem_unique ht hta
      exact absurd hst hqueued
    | begun =>
      obtain ⟨-, u, -, ht, hst⟩ := hen
      obtain rfl : u = t := mem_unique ht hta
      exact absurd hst hqueued
    | granted | renewed => exact hta
    | moved =>
      obtain ⟨u, ht, hcan, -⟩ := hen
      obtain rfl : u = t := mem_unique ht hta
      exact absurd hcan (by
        generalize u.state = state at hterminal ⊢
        cases state <;> simp_all [isTerminal, canTransitionTo])
  · exact hta

/-! ## The invariant -/

section

variable (t : Task J)

@[simp] theorem Task.in_info (next : TaskState) : (t.in next).info = t.info := rfl

@[simp] theorem Task.in_state (next : TaskState) : (t.in next).state = next :=
  rfl

@[simp] theorem Task.begun_state : t.begun.state = .running := rfl

@[simp] theorem Task.begun_info : t.begun.info = t.info := rfl

end

namespace Scheduler.Ok

variable {s : Scheduler J}

variable {t : Task J}

section

variable (h : s.Ok)

include h

section

variable (hta : s.tasks.get? id = some t)

include hta

theorem not_mem (hst : t.state ≠ .queued) : id ∉ s.queue := by
  intro hmem
  obtain ⟨u, ht, hqueued⟩ := (h.queued id).mp hmem
  obtain rfl : u = t := mem_unique ht hta
  exact hst hqueued

theorem unclaimed_of (hst : t.state ≠ .running ∧ t.state ≠ .waitingIo) :
    s.claims.get? id = none := by
  cases hclaim : s.claims.get? id with
  | none => rfl
  | some a =>
    obtain ⟨u, ht, hworking⟩ := h.claimed id a hclaim
    obtain rfl : u = t := mem_unique ht hta
    rcases hworking with hworking | hworking
    · exact absurd hworking hst.1
    · exact absurd hworking hst.2

theorem unclaimed (hst : t.state = .queued) : s.claims.get? id = none :=
  h.unclaimed_of hta (by simp [hst])

theorem requeued_mem (hcan : t.state.canTransitionTo next = true)
    (hnot : ¬(t.state = .queued ∧ next = .running)) : (requeued s.queue id next).Nodup ∧
      (∀ x, x ∈ requeued s.queue id next ↔ if x = id then next = .queued else x ∈ s.queue) := by
  unfold requeued
  by_cases hqueued : next = .queued
  · subst hqueued
    have hmem : id ∉ s.queue := h.not_mem hta fun hst => by
      simp [hst, canTransitionTo] at hcan
    refine ⟨nodup_append.mpr ⟨h.nodup, by simp, ?_⟩, fun x => ?_⟩
    · rintro _ ha _ hb rfl
      exact hmem (mem_singleton.mp hb ▸ ha)
    · by_cases hx : x = id <;> simp [hx, hmem]
  simp only [if_neg hqueued]
  by_cases hterminal : next.isTerminal
  · simp only [hterminal, if_true]
    refine ⟨h.nodup.filter _, fun x => ?_⟩
    by_cases hx : x = id <;> simp [hx, hqueued]
  have hmem : id ∉ s.queue := h.not_mem hta fun hst => by
    cases next <;> simp_all [canTransitionTo, isTerminal]
  simp only [hterminal, Bool.false_eq_true, if_false]
  refine ⟨h.nodup, fun x => ?_⟩
  by_cases hx : x = id <;> simp [hx, hqueued, hmem]

end

theorem requeued_length (id : TaskId) (hroom : next = .queued → s.queue.length < s.capacity) :
    (requeued s.queue id next).length ≤ s.capacity := by
  have := h.bounded
  have := length_filter_le (fun x => decide (x ≠ id)) s.queue
  unfold requeued
  split
  · have := hroom ‹_›
    simp only [length_append, length_singleton]
    omega
  · split <;> omega

theorem moved (hta : s.tasks.get? id = some t) (hcan : t.state.canTransitionTo next = true)
    (hroom : next = .queued → s.queue.length < s.capacity)
    (hnot : ¬(t.state = .queued ∧ next = .running)) : (s.moved id (t.in next)).Ok := by
  obtain ⟨hnodup, hmem⟩ := h.requeued_mem hta hcan hnot
  have htasks : ∀ x, (s.moved id (t.in next)).tasks.get? x =
      if x = id then some (t.in next) else s.tasks.get? x := fun x => get?_insert ..
  refine ⟨?_, hnodup, ?_, h.requeued_length id hroom, ?_⟩
  · intro x u ht
    rcases get?_insert_eq_some.mp ht with ⟨rfl, rfl⟩ | ⟨-, ht⟩
    · rw [Task.in_info, h.keyed _ t hta]
    · exact h.keyed x u ht
  · intro x
    rw [htasks]
    change x ∈ requeued s.queue id next ↔ _
    rw [hmem]
    by_cases hx : x = id
    · simp [hx]
    · simp [hx, h.queued]
  intro x a hactive
  rw [htasks]
  by_cases hx : x = id
  · subst hx
    refine ⟨t.in next, if_pos rfl, ?_⟩
    by_cases hdrop : next.dropsClaim
    · simp [moved, hdrop] at hactive
    · cases next <;> simp_all [dropsClaim, isTerminal, canTransitionTo]
  · have hsame : s.claims.get? x = some a := by
      unfold Scheduler.moved at hactive
      split at hactive
      · rwa [get?_erase_ne hx] at hactive
      · exact hactive
    rw [if_neg hx]
    exact h.claimed x a hsame

theorem admitted (hnew : s.tasks.get? t.info.id = none) (hroom : s.queue.length < s.capacity)
    (hst : t.state = .queued) : (s.admitted t).Ok := by
  have htasks : ∀ x, (s.admitted t).tasks.get? x =
      if x = t.info.id then some t else s.tasks.get? x := fun x => get?_insert ..
  have hmem : t.info.id ∉ s.queue := fun hmem => by
    obtain ⟨_, ht, -⟩ := (h.queued _).mp hmem
    simp [hnew] at ht
  refine ⟨?_, ?_, ?_, ?_, ?_⟩
  · intro x u ht
    rcases get?_insert_eq_some.mp ht with ⟨rfl, rfl⟩ | ⟨-, ht⟩
    · rfl
    · exact h.keyed x u ht
  · refine nodup_append.mpr ⟨h.nodup, by simp, ?_⟩
    rintro _ ha _ hb rfl
    exact hmem (mem_singleton.mp hb ▸ ha)
  · intro x
    rw [htasks]
    change x ∈ s.queue ++ [t.info.id] ↔ _
    by_cases hx : x = t.info.id
    · simp [hx, hst]
    · simp [hx, h.queued]
  · change (s.queue ++ [t.info.id]).length ≤ s.capacity
    simp only [length_append, length_singleton]
    omega
  · intro x a hactive
    obtain ⟨u, ht, hworking⟩ := h.claimed x a hactive
    refine ⟨u, ?_, hworking⟩
    rw [htasks, if_neg ?_, ht]
    rintro rfl
    simp [hnew] at ht

theorem begun {rest : List TaskId} (hqueue : s.queue = id :: rest)
    (hta : s.tasks.get? id = some t) (hst : t.state = .queued) :
    Ok { s with queue := s.queue.tail, tasks := s.tasks.insert id t.begun } := by
  have hnodup := h.nodup
  rw [hqueue, nodup_cons] at hnodup
  have hclaim := h.unclaimed hta hst
  have hbound := h.bounded
  refine ⟨?_, ?_, ?_, ?_, ?_⟩
  · intro x u ht
    rcases get?_insert_eq_some.mp ht with ⟨rfl, rfl⟩ | ⟨-, ht⟩
    · rw [Task.begun_info, h.keyed _ t hta]
    · exact h.keyed x u ht
  · rw [hqueue]
    exact hnodup.2
  · intro x
    have hx := h.queued x
    rw [hqueue] at hx ⊢
    by_cases hid : x = id
    · subst hid
      simp [hnodup.1]
    · simpa [hid] using hx
  · simp only [length_tail]
    omega
  · intro x a hactive
    obtain ⟨u, ht, hworking⟩ := h.claimed x a hactive
    refine ⟨u, ?_, hworking⟩
    rw [get?_insert, if_neg ?_, ht]
    rintro rfl
    simp [hclaim] at hactive

theorem claims {claims : Table TaskId ActiveClaim} {generations : Table TaskId ℕ}
    (hclaims : ∀ id a, claims.get? id = some a →
      ∃ t, s.tasks.get? id = some t ∧ (t.state = .running ∨ t.state = .waitingIo)) :
    Ok { s with claims, generations } :=
  ⟨h.keyed, h.nodup, h.queued, h.bounded, hclaims⟩

theorem apply (hen : e.Enabled s) : (e.apply s).Ok := by
  cases e with
  | admitted => exact h.admitted hen.1 hen.2.1 hen.2.2
  | expired =>
    obtain ⟨_, _, -, hta, hst, -⟩ := hen
    rw [apply_expired hta]
    exact h.moved hta (by rw [hst]; rfl) (by simp) (by simp)
  | begun =>
    obtain ⟨_, _, hqueue, hta, hst⟩ := hen
    rw [apply_begun hta]
    exact h.begun hqueue hta hst
  | granted =>
    obtain ⟨⟨t, hta, hst⟩, -, -⟩ := hen
    refine h.claims fun x a hactive => ?_
    rcases get?_insert_eq_some.mp hactive with ⟨rfl, -⟩ | ⟨-, hactive⟩
    · exact ⟨t, hta, .inl hst⟩
    · exact h.claimed x a hactive
  | renewed =>
    refine h.claims fun x a hactive => ?_
    rcases get?_modify_eq_some.mp hactive with ⟨rfl, old, hold, -⟩ | ⟨-, hactive⟩
    · exact h.claimed _ old hold
    · exact h.claimed x a hactive
  | moved =>
    obtain ⟨_, hta, hcan, hroom, hnot⟩ := hen
    rw [apply_moved hta]
    exact h.moved hta hcan hroom hnot

theorem chain {s' : Scheduler J} {es : List (Effect J)} (hchain : Chain s es s') : s'.Ok :=
  Guarded.Chain.invariant (P := Ok) (fun _ => True)
    (fun _ _ _ hok hen => Ok.apply hok hen) hchain (fun _ _ => trivial) h

end

end Scheduler.Ok

end Tysel.Tasks
