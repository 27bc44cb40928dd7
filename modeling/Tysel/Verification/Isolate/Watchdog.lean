import Tysel.Algorithm.Isolate.Watchdog

/-! # The watchdog kills the overdue operation -/

namespace Tysel.Isolate

namespace Watchdog

variable {w : Watchdog} {op : Operation} {s : State} {killed : Bool}

def State.Disarmed (s : State) : Prop := s.deadline = none ∧ s.cancelled = none

def State.Watched (s : State) (killed : Bool) (op : Operation) : Prop :=
  s = ⟨some op.deadline, op.cancelled, none⟩ ∧ killed = false ∨
    s.Disarmed ∧ s.reason.isSome ∧ killed

/-- A flag that is set when `finish` is called is set when `finish` loads it. -/
def Ok (w : Watchdog) : Prop :=
  (∀ call, w.held = some (call, true) → w.state.cancelled.any w.flags) ∧
  match w.phase with
  | .idle => w.state.Disarmed ∧ ¬ w.held.any (·.1)
  | .arming op =>
    if w.held.any (·.1) then w.state.Watched w.killed op else w.state.Disarmed ∧ w.killed = false
  | .armed op => w.state.Watched w.killed op ∧ ¬ w.held.any (·.1)
  | .dropping op none _ => w.state.Watched w.killed op
  | .finishing op overdue => w.state.Watched w.killed op ∧ (overdue → op.deadline ≤ w.now ∨
      op.cancelled.any w.flags ∧ (w.held = some (true, false) → w.state.Disarmed))
  | .dropping _ (some r) overdue =>
    w.state.Disarmed ∧ (r.isSome ↔ w.killed) ∧ (overdue → r.isSome)

section

variable {loaded : Bool} {now : ℕ}

theorem State.Disarmed.interrupt (h : s.Disarmed) (hloaded : loaded → s.cancelled.isSome) :
    s.interrupt loaded now = (false, s) := by
  have hload : loaded = false := Bool.eq_false_iff.mpr fun h' => by simp [h.2] at hloaded; grind
  simp [State.interrupt, hload, h.1]

/-- An operation that `interrupt` finds is watched after it, or the child was killed for it. -/
theorem State.Watched.interrupt (h : s.Watched killed op) (hloaded : loaded → s.cancelled.isSome) :
    (s.interrupt loaded now).2.Watched (killed || (s.interrupt loaded now).1) op := by
  cases h with
  | inl h =>
    unfold State.interrupt
    by_cases hload : loaded
    · simp [hload, State.Watched, State.Disarmed]
    · by_cases hdue : s.deadline.any (· ≤ now)
      · simp [hload, hdue, State.Watched, State.Disarmed]
      · rw [if_neg hload, if_neg hdue, Bool.or_false]
        exact .inl h
  | inr h =>
    rw [h.1.interrupt hloaded, Bool.or_false]
    exact .inr h

theorem State.Watched.reason_iff (h : s.Watched killed op) : s.reason.isSome ↔ killed := by
  cases h with
  | inl h => simp [h.1, h.2]
  | inr h => simp [h.2]

theorem State.interrupt_due (h : loaded ∨ s.deadline.any (· ≤ now)) :
    (s.interrupt loaded now).1 := by
  by_cases hload : loaded
  · simp [State.interrupt, hload]
  · simp [State.interrupt, hload, h.resolve_left hload]

end

theorem Ok.later (h : w.Ok) {now : ℕ} {flags : ℕ → Bool} (hnow : w.now ≤ now)
    (hflags : ∀ c : Option ℕ, c.any w.flags → c.any flags) :
    ({ w with now := now, flags := flags } : Watchdog).Ok := by
  refine ⟨fun call hheld => hflags _ (h.1 call hheld), ?_⟩
  have hph := h.2
  rcases hp : w.phase with _ | _ | _ | _ | ⟨_, _ | _, _⟩ <;> simp only [hp] at hph ⊢
  case finishing op overdue =>
    exact ⟨hph.1, fun h => (hph.2 h).imp hnow.trans' (And.imp_left (hflags _))⟩
  all_goals exact hph

/-- `arm` finds no operation, and `finish` and `drop` find it armed. -/
theorem Ok.called (h : w.Ok) (ev : Event)
    (hcall : ev matches .arm _ | .finish | .drop) : (w.step ev).2.Ok := by
  have hph := h.2
  rcases hp : w.phase with _ | _ | _ | _ | _ <;> cases ev <;>
    simp only [step, hp, Bool.false_eq_true] at hph hcall ⊢ <;> try exact h
  case idle.arm op => exact ⟨h.1, by simpa [hph.2] using hph.1⟩
  case armed.finish op =>
    refine ⟨h.1, hph.1, fun hdue => ?_⟩
    simp only [Operation.overdue, Bool.or_eq_true, decide_eq_true_eq] at hdue
    exact hdue.imp_right fun hflag => ⟨hflag, fun (hheld : w.held = _) => by simp [hheld] at hph⟩
  case armed.drop op => exact ⟨h.1, hph.1⟩

theorem Ok.lock (h : w.Ok) (call : Bool) : (w.step (.lock call)).2.Ok := by
  have hph := h.2
  cases hheld : w.held with
  | some => rcases hp : w.phase <;> cases call <;> simpa only [step, hp, hheld] using h
  | none =>
    have hload (call' : Bool) (h' : some (call, w.state.cancelled.any w.flags) =
        some (call', true)) : w.state.cancelled.any w.flags := by simp_all
    rcases hp : w.phase with _ | op | op | ⟨op, overdue⟩ | ⟨_, _ | _, _⟩ <;> cases call <;>
      simp only [step, hp, hheld, load] at hph ⊢ <;>
      try exact h
    case arming.true => exact ⟨fun call' h' => by simp_all, .inl ⟨rfl, hph.2⟩⟩
    case finishing.true =>
      refine ⟨hload, hph.1, fun hdue => (hph.2 hdue).imp_right fun hflag => ⟨hflag.1, ?_⟩⟩
      intro hnot
      cases hph.1 with
      | inl hwatched => simp_all
      | inr hkilled => exact hkilled.1
    all_goals exact ⟨hload, by simpa using hph⟩

theorem Ok.unlock (h : w.Ok) : (w.step .unlock).2.Ok := by
  have hph := h.2
  cases hheld : w.held with
  | none => simpa [step, hheld] using h
  | some held =>
    obtain ⟨call, loaded⟩ := held
    have hloaded (hload : loaded = true) : w.state.cancelled.isSome := by
      have hany := h.1 call (hload ▸ hheld)
      cases hc : w.state.cancelled <;> simp [hc] at hany ⊢
    have hwatched (op) (h : w.state.Watched w.killed op) :
        (w.state.interrupt loaded w.now).2.Watched
          (w.killed || (w.state.interrupt loaded w.now).1) op := h.interrupt hloaded
    rcases hp : w.phase with _ | op | op | ⟨op, overdue⟩ | ⟨_, _ | _, _⟩ <;> cases call <;>
      simp only [step, hp, hheld, leave, Ok] at hph ⊢
    all_goals refine ⟨nofun, ?_⟩
    case idle.false => exact ⟨by simpa [hph.1.interrupt hloaded] using hph.1, by simp⟩
    case idle.true => simp at hph
    case arming.false =>
      rw [hph.1.interrupt hloaded]
      simpa using hph
    case arming.true => exact ⟨hwatched op hph, by simp⟩
    case armed.false => exact ⟨hwatched op hph.1, by simp⟩
    case armed.true => simp at hph
    case finishing.false =>
      exact ⟨hwatched op hph.1, fun hdue => (hph.2 hdue).imp_right fun h => ⟨h.1, nofun⟩⟩
    case finishing.true =>
      refine ⟨⟨rfl, rfl⟩, (hwatched op hph.1).reason_iff, fun hdue => ?_⟩
      rw [(hwatched op hph.1).reason_iff, Bool.or_eq_true]
      cases hph.1 with
      | inl hstate =>
        refine .inr (State.interrupt_due ?_)
        rw [hstate.1]
        rcases hph.2 hdue with hdeadline | ⟨_, hdisarmed⟩
        · exact .inr (by simpa using hdeadline)
        · cases loaded with
          | true => exact .inl rfl
          | false => simp [State.Disarmed, hstate.1] at hdisarmed
      | inr hkilled => exact .inl hkilled.2.2
    case dropping.none.false => exact hwatched _ hph
    case dropping.some.false => simpa [hph.1.interrupt hloaded] using hph
    all_goals exact ⟨⟨rfl, rfl⟩, by simp⟩

theorem Ok.step (h : w.Ok) (ev : Event) : (w.step ev).2.Ok := by
  cases ev with
  | tick span => exact h.later (Nat.le_add_right ..) fun _ => id
  | cancel flag => exact h.later le_rfl fun c => by cases c <;> simp +contextual
  | arm _ | finish | drop => exact h.called _ rfl
  | lock call => exact h.lock call
  | unlock => exact h.unlock

theorem Ok.watched (h : w.Ok) (harmed : ¬ w.state.Disarmed) :
    ∃ op, w.phase.op? = some op ∧ w.state = ⟨some op.deadline, op.cancelled, none⟩ := by
  have hph := h.2
  have hstate {op killed} (hwatched : w.state.Watched killed op) :
      w.state = ⟨some op.deadline, op.cancelled, none⟩ := by
    rcases hwatched with hstate | hkilled
    · exact hstate.1
    · exact absurd hkilled.1 harmed
  rcases hp : w.phase with _ | op | op | ⟨op, _⟩ | ⟨op, _ | _, _⟩ <;> simp only [hp] at hph
  case arming =>
    split at hph
    · exact ⟨op, rfl, hstate hph⟩
    · exact absurd hph.1 harmed
  case armed | finishing => exact ⟨op, rfl, hstate hph.1⟩
  case dropping.none => exact ⟨op, rfl, hstate hph⟩
  all_goals exact absurd hph.1 harmed

/-- `interrupt` kills the child for what it finds in the state. -/
theorem Ok.kills (h : w.Ok) {ev : Event} (hkills : (w.step ev).1) :
    ¬ w.state.Disarmed ∧ ∃ op, w.phase.op? = some op ∧ op.overdue w.now w.flags := by
  have hdue : w.state.cancelled.any w.flags ∨ w.state.deadline.any (· ≤ w.now) := by
    revert hkills
    fun_cases Watchdog.step w ev <;> grind [Ok, State.interrupt]
  have harmed : ¬ w.state.Disarmed := fun hd => by simp [hd.1, hd.2] at hdue
  obtain ⟨op, hop, hstate⟩ := h.watched harmed
  refine ⟨harmed, op, hop, ?_⟩
  simpa [hstate, Operation.overdue, or_comm] using hdue

/-- How a call leaves its region under the lock. -/
def Phase.Leaves : Phase → Phase → Prop
  | .arming op, after => after = .armed op
  | .finishing op overdue, after =>
    ∃ r, after = .dropping op (some r) overdue ∧ (overdue → r.isSome)
  | .dropping _ _ _, after => after = .idle
  | _, _ => False

theorem Ok.leaves (h : w.Ok) (hheld : w.held.any (·.1)) :
    w.phase.Leaves (w.step .unlock).2.phase := by
  have hph := h.2
  have hafter := h.unlock.2
  cases hlock : w.held with
  | none => simp [hlock] at hheld
  | some held =>
    obtain ⟨call, loaded⟩ := held
    obtain rfl : call = true := by simpa [hlock] using hheld
    cases hp : w.phase with
    | idle | armed => simp [hp, hlock] at hph
    | arming | dropping => simp [Watchdog.step, hp, hlock, leave, Phase.Leaves]
    | finishing op overdue =>
      simp only [Watchdog.step, hp, hlock, leave, if_true] at hafter ⊢
      exact ⟨_, rfl, hafter.2.2⟩

/-- The child is killed for the operation that is there, and only if that is overdue. When
`finish` has its result, there is one iff the child was killed, and there is one for an operation
that was overdue when `finish` was called. A call that asks for a free lock gets it, and goes on
when it gives it back. -/
theorem watchdog_kills_overdue (now : ℕ) (flags : ℕ → Bool) (events : List Event) :
    ∀ e ∈ trace step ⟨now, flags, {}, .idle, none, false⟩ events,
      (e.output → ∃ op, e.before.phase.op? = some op ∧ op.overdue e.before.now e.before.flags) ∧
      (∀ op r overdue, e.before.phase = .dropping op (some r) overdue →
        e.output = false ∧ (r.isSome ↔ e.before.killed) ∧ (overdue → r.isSome)) ∧
      (e.input = .lock true → e.before.held = none → e.after.held.any (·.1) ∨
        e.before.phase = .idle ∨ ∃ op, e.before.phase = .armed op) ∧
      (e.input = .unlock → e.before.held.any (·.1) → e.before.phase.Leaves e.after.phase) := by
  intro e he
  obtain ⟨hok, heq⟩ := trace_invariant_of step _ (P := Ok) (C := fun _ _ => True)
    (fun w ev _ h => h.step ev) (by simp [Ok, State.Disarmed]) (fun _ _ => trivial) e he
  have houtput : e.output = (e.before.step e.input).1 := by rw [heq]; rfl
  have hafter : e.after = (e.before.step e.input).2 := by rw [heq]; rfl
  rw [houtput, hafter]
  refine ⟨fun hkills => (hok.kills hkills).2, fun op r overdue hph => ?_, ?_, ?_⟩
  · have hdone := hok.2
    simp only [hph] at hdone
    exact ⟨Bool.eq_false_iff.mpr fun hkills => (hok.kills hkills).1 hdone.1, hdone.2⟩
  · intro hinput hheld
    cases hp : e.before.phase <;> simp [hinput, step, hp, hheld, load]
  · intro hinput hheld
    rw [hinput]
    exact hok.leaves hheld

/-- The operation expires and `finish` is called before the thread wakes up. -/
theorem expired_operation_killed :
    let e := (trace step ⟨0, fun _ => false, {}, .idle, none, false⟩
      [.arm ⟨5, none⟩, .lock true, .unlock, .tick 5, .finish, .lock true, .unlock]).getLast nofun
    e.output ∧ (∃ op, e.before.phase.op? = some op ∧ op.overdue e.before.now e.before.flags) ∧
      e.before.phase.Leaves e.after.phase :=
  have h := watchdog_kills_overdue _ _ _ _ (List.getLast_mem _)
  ⟨rfl, h.1 rfl, h.2.2.2 rfl rfl⟩

end Watchdog

end Tysel.Isolate
