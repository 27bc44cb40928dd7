import Tysel.Algorithm.Release.Lock

/-! A process that holds the lock has its file at the path, as long as no process recovers a lock
whose file a holder has replaced since it was read. -/

namespace Tysel.Release

open Option Phase

variable {P : Type}

/-- The process has the lock, from the link to the drop. -/
def Phase.Holds (phase : Phase P) : Prop := phase = .linked ∨ phase = .holding

instance [DecidableEq P] (phase : Phase P) : Decidable phase.Holds :=
  inferInstanceAs (Decidable (phase = .linked ∨ phase = .holding))

namespace LockState

variable {s : LockState P} {p : P} {op : LockOp} {phase : Phase P} {input : P × LockOp}

structure Guarded (s : LockState P) : Prop where
  held : ∀ p, (s.phase p).Holds → s.lock = some p
  stale : ∀ p owner, s.phase p = .removing owner → s.phase owner = .dead

/-- The lock file that a recovery removes is the one that it has read, or nobody holds it. -/
def Unreplaced (s : LockState P) (input : P × LockOp) : Prop :=
  input.2 = .recover → ∀ owner, s.phase input.1 = .removing owner →
    ∀ q ∈ s.lock, (s.phase q).Holds → q = owner

theorem initial_guarded : (initial P).Guarded := ⟨by simp [initial, Holds], by simp [initial]⟩

theorem Guarded.alone (h : s.Guarded) (hp : (s.phase p).Holds) {q : P} (hq : (s.phase q).Holds) :
    q = p :=
  some.inj ((h.held q hq).symm.trans (h.held p hp))

/-- What an operation of a process may do: the lock file of a holder goes with its drop alone. -/
structure Allowed (s : LockState P) (p : P) (op : LockOp) (r : Phase P × Option P) : Prop where
  kept : ∀ q, (s.phase q).Holds → r.2 = some q ∨ q = p ∧ op = .drop
  held : r.1.Holds → r.2 = some p
  stale : ∀ owner, r.1 = .removing owner → s.phase owner = .dead

theorem Guarded.quiet (h : s.Guarded) (hfree : ¬ phase.Holds)
    (hstale : ∀ owner, phase = .removing owner → s.phase owner = .dead) :
    s.Allowed p op (phase, s.lock) :=
  ⟨fun q hq => .inl (h.held q hq), fun hholds => absurd hholds hfree, hstale⟩

variable [DecidableEq P]

theorem Guarded.move (h : s.Guarded) {lock : Option P} (hlive : s.phase p ≠ .dead)
    (hlock : ∀ q ≠ p, (s.phase q).Holds → lock = some q) (hheld : phase.Holds → lock = some p)
    (hstale : ∀ owner, phase = .removing owner → s.phase owner = .dead) :
    Guarded ⟨lock, Function.update s.phase p phase⟩ := by
  constructor
  · intro q hq
    by_cases hqp : q = p
    · subst hqp
      exact hheld (by simpa using hq)
    · exact hlock q hqp (by simpa [hqp] using hq)
  intro q owner hq
  have hdead : s.phase owner = .dead := by
    by_cases hqp : q = p
    · subst hqp
      exact hstale owner (by simpa using hq)
    · exact h.stale q owner (by simpa [hqp] using hq)
  have hne : owner ≠ p := fun heq => hlive (heq ▸ hdead)
  simpa [hne] using hdead

theorem Guarded.allowed (h : s.Guarded) {r : Phase P × Option P} (hcond : s.Unreplaced (p, op))
    (haf : s.after p op = some r) : s.phase p ≠ .dead ∧ s.Allowed p op r := by
  unfold after at haf
  split at haf <;> rename_i hphase
  · obtain rfl := some.inj haf
    exact ⟨by simp [hphase], h.quiet (by simp [Holds]) (by simp)⟩
  · refine ⟨by simp [hphase], ?_⟩
    split at haf <;> rename_i hlock <;> obtain rfl := some.inj haf
    · exact ⟨fun q hq => absurd (h.held q hq) (by simp [hlock]), fun _ => rfl, by simp⟩
    · exact h.quiet (by simp [Holds]) (by simp)
  · obtain rfl := some.inj haf
    exact ⟨by simp [hphase], h.quiet (by simp [Holds]) (by simp)⟩
  · refine ⟨by simp [hphase], ?_⟩
    split at haf <;> obtain rfl := some.inj haf <;>
      exact h.quiet (by simp [Holds]) (by simp)
  · refine ⟨by simp [hphase], ?_⟩
    split at haf <;> rename_i halive <;> obtain rfl := some.inj haf
    · exact h.quiet (by simp [Holds]) (by simp)
    · refine h.quiet (by simp [Holds]) fun other hother => ?_
      obtain rfl := removing.inj hother
      exact not_not.mp (not_or.mp halive).1
  · rename_i owner
    obtain rfl := some.inj haf
    refine ⟨by simp [hphase], fun q hq => ?_, by simp [Holds], by simp⟩
    -- the file that is removed belongs to a process that had died when it was tested
    obtain rfl := hcond rfl owner hphase q (h.held q hq) hq
    rw [h.stale p q hphase] at hq
    simp [Holds] at hq
  · obtain rfl := some.inj haf
    exact ⟨by simp [hphase], fun q hq => .inl (h.held q hq), fun _ => h.held p (.inl hphase),
      by simp⟩
  · obtain rfl := some.inj haf
    exact ⟨by simp [hphase], h.quiet (by simp [Holds]) (by simp)⟩
  · obtain rfl := some.inj haf
    exact ⟨by simp [hphase], fun q hq => .inr ⟨h.alone (.inr hphase) hq, rfl⟩,
      by simp [Holds], by simp⟩
  · cases haf
  · obtain rfl := some.inj haf
    exact ⟨hphase, h.quiet (by simp [Holds]) (by simp)⟩
  · cases haf

theorem Guarded.step (h : s.Guarded) (hcond : s.Unreplaced input) : (s.step input).2.Guarded := by
  cases haf : s.after input.1 input.2 with
  | none => rwa [LockState.step, haf]
  | some =>
    obtain ⟨hlive, hallowed⟩ := h.allowed hcond haf
    rw [LockState.step, haf]
    refine h.move hlive (fun q hne hq => ?_) hallowed.held hallowed.stale
    exact (hallowed.kept q hq).resolve_right fun heq => hne heq.1

theorem Guarded.kept (h : s.Guarded) (hcond : s.Unreplaced input) {q : P} (hq : (s.phase q).Holds) :
    (s.step input).2.lock = some q ∨ input = (q, .drop) := by
  cases haf : s.after input.1 input.2 with
  | none =>
    rw [LockState.step, haf]
    exact .inl (h.held q hq)
  | some =>
    rw [LockState.step, haf]
    exact ((h.allowed hcond haf).2.kept q hq).imp_right fun heq => Prod.ext heq.1.symm heq.2

end LockState

open LockState

/-- At no time do two processes hold the lock, and the lock file of a holder is removed by its
drop alone. -/
theorem lock_exclusive [DecidableEq P] (ops : List (P × LockOp))
    (hsteps : ∀ e ∈ trace step (initial P) ops, e.before.Unreplaced e.input) :
    (∀ p q, ((run step (initial P) ops).phase p).Holds →
      ((run step (initial P) ops).phase q).Holds → p = q) ∧
    ∀ e ∈ trace step (initial P) ops, ∀ q, (e.before.phase q).Holds →
      e.after.lock = some q ∨ e.input = (q, .drop) := by
  have hkeep : ∀ (s : LockState P) input, s.Unreplaced input → s.Guarded →
      (s.step input).2.Guarded := fun s input hcond h => h.step hcond
  constructor
  · intro p q hp hq
    exact (run_invariant_of _ _ hkeep initial_guarded hsteps).alone hq hp
  · intro e he q hq
    obtain ⟨hguarded, hentry⟩ := trace_invariant_of _ _ hkeep initial_guarded hsteps e he
    rw [hentry]
    exact hguarded.kept (hsteps e he) hq

/-- Process 0 dies with the lock, and process 1 recovers it. -/
def recovery : List (Fin 3 × LockOp) :=
  [(0, .create), (0, .link), (0, .clean), (0, .die), (1, .create), (1, .link), (1, .read),
    (1, .test false), (1, .recover), (1, .link), (1, .clean)]

theorem lock_exclusive_recovery : ((run step (initial (Fin 3)) recovery).phase 1).Holds ∧
      ∀ q, ((run step (initial (Fin 3)) recovery).phase q).Holds → 1 = q :=
  ⟨by decide, fun q => (lock_exclusive recovery (by unfold Unreplaced; decide)).1 1 q (by decide)⟩

/-- Processes 1 and 2 both find the lock of process 0 stale. Process 2 then removes the file of
process 1. -/
def doubleRecovery : List (Fin 3 × LockOp) :=
  [(0, .create), (0, .link), (0, .clean), (0, .die), (1, .create), (1, .link), (1, .read),
    (2, .create), (2, .link), (2, .read), (1, .test false), (2, .test false), (1, .recover),
    (1, .link), (1, .clean), (2, .recover), (2, .link), (2, .clean)]

theorem double_recovery_not_exclusive :
    (run step (initial (Fin 3)) doubleRecovery).phase 1 = .holding ∧
      (run step (initial (Fin 3)) doubleRecovery).phase 2 = .holding := by
  decide

end Tysel.Release
