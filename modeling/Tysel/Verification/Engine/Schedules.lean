import Tysel.Verification.Engine.Advance

/-! Runners of one task are opened, advanced and dropped in any order while other parties call the
store. A schedule whose host calls meet the conditions keeps every runner in step, and the
stored history only grows at its end. -/

namespace Tysel.Engine

open Tysel.Durable List DurableSession Effect Machine

variable {V P J : Type} {S : Crates J} {js : Js V} {p : Program V P} {t : TaskId}
  {op : Op J} {w : Runs V P J} {db : Db} {store : Option ExecutionClaim}
  {claim : Option WakeupClaim} {σ : DurableSession J}

/-- The history of the task is that of an uninterrupted run, and every runner is in step. -/
structure Runs.Aligned (js : Js V) (p : Program V P) (t : TaskId) (w : Runs V P J) :
    Prop where
  opened : w.db.Opened
  history : ∀ u, w.db.HistoryOk u
  whole : ∃ m, uninterrupted js p (w.db.eventsOf t) = some m
  runners : ∀ x ∈ w.runners, x.Aligned js p t (w.db.eventsOf t)

section

variable (hallowed : allowed p t op = true)

include hallowed

theorem appends_allowed {u : TaskId} {kind : EventKind} (hop : op.appends? = some (u, kind)) :
    u ≠ t := by
  cases op <;> simp_all [Op.appends?, allowed]

theorem polls_allowed {u : TaskId} (hop : op.polls? = some u) : u ≠ t := by
  cases op <;> simp_all [Op.polls?, allowed]

theorem admits_allowed (hop : op.admits? = some t) : p.takesInput = true := by
  cases op <;> simp_all [Op.admits?, allowed]

/-- An effect of an allowed call leaves the history of the task alone, or is the admission that
records its input. -/
theorem effect_events {e : Effect} (hist : db.HistoryOk t) (hen : e.Enabled S db)
    (hfrom : e.From op) (hprune : e ≠ .prune t) : (e.apply db).eventsOf t = db.eventsOf t ∨
      p.takesInput = true ∧ db.eventsOf t = [] ∧
        ∃ row, row.kind = .step ∧ row.eventKey = taskInputKey ∧
          (e.apply db).eventsOf t = [row] := by
  have hevents := eventsOf_apply db hprune
  cases e with
  | append =>
    have hne := appends_allowed hallowed hfrom.arguments
    left
    simpa [appended, hne] using hevents
  | consume =>
    have hne := polls_allowed hallowed hfrom.arguments
    left
    simpa [appended, hne] using hevents
  | admitModule _ _ ev =>
    obtain ⟨happ, rfl, hsequence, hkind, -⟩ := hen
    by_cases htask : ev.taskId = t
    · right
      subst htask
      have hnil : db.eventsOf ev.taskId = [] := by
        rw [← length_eq_zero_iff, ← hist.nextSequence, ← happ.sequence, hsequence]
      refine ⟨admits_allowed hallowed hfrom.arguments.1, hnil, ev, hkind, hfrom.arguments.2, ?_⟩
      simpa [appended, hnil] using hevents
    · left
      simpa [appended, htask] using hevents
  | _ =>
    left
    simpa [appended] using hevents

omit hallowed in
theorem uninterrupted_input {row : EventRow} (hinput : p.takesInput = true)
    (hkind : row.kind = .step) (hkey : row.eventKey = taskInputKey) :
    ∃ m, uninterrupted js p [row] = some m := by
  unfold Program.takesInput at hinput
  split at hinput
  · rename_i json hcode
    have hasking : ((start p).awake js p).phase = .asking (.input json) (.resume ⟨p.main, []⟩) := by
      simp [start, enter, hcode, awake]
    rw [← nil_append [row], uninterrupted_concat]
    exact ⟨_, consume_asking hasking hkind hkey⟩
  · cases hinput

theorem call_events (hopen : db.Opened) (hist : ∀ u, db.HistoryOk u)
    (hwhole : ∃ m, uninterrupted js p (db.eventsOf t) = some m) :
    (∀ u, (call S db op).2.HistoryOk u) ∧
      (∃ m, uninterrupted js p ((call S db op).2.eventsOf t) = some m) ∧
      db.eventsOf t <+: (call S db op).2.eventsOf t := by
  obtain ⟨es, hes⟩ := call_committed S hopen op
  have hprune : ∀ e ∈ es, e ≠ .prune t := by
    rintro e he rfl
    have hinput : op.isPrune = true := ((hes.prunes t).mp he).1
    cases op <;> simp_all [Op.isPrune, allowed]
  refine Guarded.Chain.invariant
    (P := fun s => (∀ u, s.HistoryOk u) ∧ (∃ m, uninterrupted js p (s.eventsOf t) = some m) ∧
      db.eventsOf t <+: s.eventsOf t)
    (fun e => e.From op ∧ e ≠ .prune t) ?_ hes.chain
    (fun e he => ⟨hes.origin e he, hprune e he⟩) ⟨hist, hwhole, prefix_refl _⟩
  rintro s e ⟨hfrom, hne⟩ ⟨hist', hwhole', hgrow⟩ hen
  refine ⟨fun u => (hist' u).apply hen, ?_⟩
  rcases effect_events hallowed (hist' t) hen hfrom hne with hsame |
    ⟨hinput, hnil, row, hkind, hkey, hrow⟩
  · exact ⟨hsame ▸ hwhole', hsame ▸ hgrow⟩
  · refine ⟨hrow ▸ uninterrupted_input hinput hkind hkey, ?_⟩
    rw [hnil] at hgrow
    rw [prefix_nil.mp hgrow]
    exact nil_prefix

end

theorem load_replaying (hist : db.HistoryOk t) (h : load S db store t claim = .ok σ) :
    Replaying t (db.eventsOf t) σ ∧ σ.passed = 0 := by
  have hload := load_loaded h
  obtain ⟨hrows, -⟩ := loadHistory_rows hist hload.history
  have hlength : σ.replay.events.length = (db.eventsOf t).length := by
    simpa using congrArg length hrows
  have hnext : σ.nextSequence = σ.replay.events.length := by
    rw [hlength, ← hist.nextSequence]
    exact sequenceAfter_loaded hist hload.history hload.sequence
  refine ⟨⟨hload.ofTask, ?_, fun _ => hnext, hnext.ge, (hnext.trans hlength).le, ?_⟩, ?_⟩
  · rw [hlength, take_length]
    exact hrows
  · intro _ token htoken hkind
    have hactive := hload.token
    rw [htoken] at hactive
    cases claim with
    | none => simp [activeToken] at hactive
    | some =>
      simp only [activeToken, bind_ok, pure_ok, Option.some.injEq] at hactive
      obtain ⟨_, hwakeup, rfl⟩ := hactive
      obtain ⟨hsequence, -, ⟨-, hn, -⟩ | ⟨hsignal, -⟩⟩ := wakeupToken_cases hwakeup
      · rw [hsequence, ← hn, hnext]
      · simp [hkind] at hsignal
  · by_cases hend : σ.Exhausted
    · rw [passed_of_exhausted hend, hnext]
      rw [DurableSession.Exhausted, hload.position] at hend
      exact Nat.le_zero.mp hend
    · rw [passed_of_pending hend, hload.position]

theorem load_aligned (hist : db.HistoryOk t) (h : load S db store t claim = .ok σ) :
    (⟨σ, start p⟩ : Runner V P J).Aligned js p t (db.eventsOf t) := by
  obtain ⟨hreplaying, hpassed⟩ := load_replaying hist h
  refine ⟨hreplaying, ?_, start p, ?_, .self (enter_entered ..).awake⟩
  · intro frame hframe
    rw [start, (enter_entered ..).openFrames] at hframe
    cases hframe
  · rw [hpassed, take_zero]
    rfl

namespace Runs

/-- Every event of a schedule meets a condition on the state it happens in. -/
def Along (S : Crates J) (js : Js V) (p : Program V P) (t : TaskId)
    (ok : Runs V P J → Event V J → Prop) : Runs V P J → List (Event V J) → Prop
  | _, [] => True
  | w, ev :: events =>
    ok w ev ∧ Along S js p t ok (w.step S js p t ev) events

/-- The host call hands out what it records, an exception that no event records ends the
function that sees it, and no attempt that is recorded has called `retry`. -/
def Replayable (S : Crates J) (js : Js V) (p : Program V P) (w : Runs V P J) : Event V J → Prop
  | .advance i turn => ∀ x, w.runners[i]? = some x →
      x.JsonStable S js turn w.db ∧ x.Uncaught js p turn ∧ x.Unnested
  | _ => True

theorem start_aligned : (start : Runs V P J).Aligned js p t where
  opened := Db.fresh_opened
  history := Db.fresh_historyOk
  whole := ⟨Machine.start p, rfl⟩
  runners _ hx := absurd hx not_mem_nil

theorem Aligned.step {ev : Event V J} (h : w.Aligned js p t) (hok : w.Replayable S js p ev) :
    (w.step S js p t ev).Aligned js p t ∧
      w.db.eventsOf t <+: (w.step S js p t ev).db.eventsOf t := by
  cases ev with
  | store op =>
    unfold Runs.step
    dsimp only
    split
    · rename_i hallowed
      obtain ⟨hist, hwhole, hgrow⟩ := call_events hallowed h.opened h.history h.whole
      exact ⟨⟨call_opened S h.opened op, hist, hwhole, fun x hx => (h.runners x hx).grow hgrow⟩,
        hgrow⟩
    · exact ⟨h, prefix_refl _⟩
  | load =>
    unfold Runs.step
    dsimp only
    split
    · rename_i hload
      refine ⟨⟨h.opened, h.history, h.whole, ?_⟩, prefix_refl _⟩
      intro x hx
      rcases mem_append.mp hx with hx | hx
      · exact h.runners x hx
      · obtain rfl := mem_singleton.mp hx
        exact load_aligned (h.history t) hload
    · exact ⟨h, prefix_refl _⟩
  | advance _ turn =>
    unfold Runs.step
    dsimp only
    split
    · rename_i x hx
      obtain ⟨hstable, huncaught, hunnested⟩ := hok x hx
      have hadv : Advanced S js p t w.db (x.advance S js p turn w.db) :=
        advance_advanced h.history h.whole (h.runners x (mem_of_getElem? hx)) hstable
          huncaught hunnested
      refine ⟨⟨hadv.store.opened h.opened, hadv.store.history h.history, hadv.whole, ?_⟩,
        hadv.grows⟩
      intro y hy
      rcases mem_or_eq_of_mem_set hy with hy | rfl
      · exact (h.runners y hy).grow hadv.grows
      · exact hadv.aligned
    · exact ⟨h, prefix_refl _⟩
  | crash =>
    exact ⟨⟨h.opened, h.history, h.whole,
      fun x hx => h.runners x (mem_of_mem_eraseIdx hx)⟩, prefix_refl _⟩

theorem after_append (past future : List (Event V J)) : after S js p t (past ++ future) =
      future.foldl (step S js p t) (after S js p t past) := by
  simp [after]

theorem Along.append {ok : Runs V P J → Event V J → Prop}
    {past future : List (Event V J)} (h : Along S js p t ok w (past ++ future)) :
    Along S js p t ok w past ∧ Along S js p t ok (past.foldl (step S js p t) w) future := by
  induction past generalizing w with
  | nil => exact ⟨trivial, h⟩
  | cons _ _ ih =>
    obtain ⟨hpast, hfuture⟩ := ih h.2
    exact ⟨⟨h.1, hpast⟩, hfuture⟩

variable {events : List (Event V J)}

theorem Aligned.run (h : w.Aligned js p t) (hok : Along S js p t (Replayable S js p) w events) :
    (events.foldl (Runs.step S js p t) w).Aligned js p t ∧
      w.db.eventsOf t <+: (events.foldl (Runs.step S js p t) w).db.eventsOf t := by
  induction events generalizing w with
  | nil => exact ⟨h, prefix_refl _⟩
  | cons _ _ ih =>
    obtain ⟨hstep, hgrow⟩ := h.step hok.1
    obtain ⟨hrun, hgrow'⟩ := ih hstep hok.2
    exact ⟨hrun, hgrow.trans hgrow'⟩

theorem after_aligned (hok : Along S js p t (Replayable S js p) start events) :
    (after S js p t events).Aligned js p t :=
  (start_aligned.run hok).1

end Runs

instance [DecidableEq V] (js : Js V) (v : V) : Decidable (js.Stable v) :=
  decidable_of_iff ((js.stringify v).any fun text => js.parse text = v)
    (by simp [Js.Stable, Option.any_eq_true])

instance [DecidableEq V] (js : Js V) (r : Except V V) : Decidable (js.OutcomeStable r) :=
  decidable_of_iff
    ((js.stringify (js.outcome r)).any fun text =>
      js.replayed (js.parse text) = js.verdict r)
    (by simp [Js.OutcomeStable, Option.any_eq_true])

def Runner.checkStable [DecidableEq V] (S : Crates J) (js : Js V) (turn : Turn V) (db : Db)
    (x : Runner V P J) : Bool :=
  match x.machine.phase with
  | .calling (.step _) _ | .calling (.effect _) _ =>
    match turn.callback with
    | .ok v => decide (js.stringify v = none ∨ js.Stable v)
    | .error _ => true
  | .calling .now _ => decide (js.Stable (js.number turn.nowMs))
  | .calling .random _ => decide (js.Stable turn.random)
  | .calling (.signal name _) _ =>
    (db.oldestSignal x.session.taskId name).all fun row =>
      (S.fromStr row.payload).all fun v =>
        decide (js.parse (S.toStr v) = js.parse row.payload)
  | .recording _ r => decide (js.OutcomeStable r)
  | _ => true

theorem Runner.checkStable_iff [DecidableEq V] (S : Crates J) (js : Js V) (turn : Turn V) (db : Db)
    (x : Runner V P J) : x.checkStable S js turn db = true ↔ x.JsonStable S js turn db := by
  have hcallback : (match turn.callback with
      | .ok v => decide (js.stringify v = none ∨ js.Stable v)
      | .error _ => true) = true ↔
      ∀ v, turn.callback = .ok v → js.stringify v = none ∨ js.Stable v := by
    cases turn.callback <;> simp
  unfold Runner.checkStable Runner.JsonStable
  cases x.machine.phase with
  | calling b =>
    cases b with
    | step | effect => exact hcallback
    | now | random => exact decide_eq_true_iff
    | signal =>
      simp only [Option.all_eq_true, decide_eq_true_eq]
      exact ⟨fun h row v hrow => h row hrow v, fun h row hrow v => h row v hrow⟩
    | _ => simp
  | recording => exact decide_eq_true_iff
  | _ => simp

instance [DecidableEq V] (S : Crates J) (js : Js V) (turn : Turn V) (db : Db) (x : Runner V P J) :
    Decidable (x.JsonStable S js turn db) :=
  decidable_of_iff _ (x.checkStable_iff S js turn db)

instance Runs.decidableAlong (S : Crates J) (js : Js V) (p : Program V P) (t : TaskId)
    (ok : Runs V P J → Event V J → Prop) [∀ w ev, Decidable (ok w ev)] :
    (w : Runs V P J) → (events : List (Event V J)) → Decidable (Runs.Along S js p t ok w events)
  | _, [] => isTrue trivial
  | w, ev :: events =>
    have := decidableAlong S js p t ok (w.step S js p t ev) events
    inferInstanceAs (Decidable (ok w ev ∧ Runs.Along S js p t ok (w.step S js p t ev) events))

end Tysel.Engine
