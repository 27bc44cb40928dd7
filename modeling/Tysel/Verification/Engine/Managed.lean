import Tysel.Verification.Durable.Orphans
import Tysel.Verification.Durable.Due

/-! Managed execution admits modules and neither unregisters nor prunes them, and every time it
stores has passed the conversion to an SQL integer. A store that only such effects have
changed returns every due task. -/

namespace Tysel.Durable

open Option Table Db Effect

variable {J : Type} {S : Crates J} {db db' : Db} {t : TaskId}

/-! ## Parked tasks

What the tables say about a task between two of its boundaries: a wait is at the next
sequence, a wakeup beside a wait is the wakeup of that wait, and a wait without a wakeup has
no pending signal. A suspended task has something to resume it. -/

structure Db.Parked (db : Db) (t : TaskId) : Prop where
  unclaimed : db.executions.get? t = none → db.wakeups.get? t = none ∧ db.signalWaits.get? t = none
  waitAt : ∀ q, db.signalWaits.get? t = some q → q.sequence = db.nextSequence t
  wakeAt : ∀ w q, db.wakeups.get? t = some w → db.signalWaits.get? t = some q →
    w.sequence = db.nextSequence t
  quiet : ∀ q, db.signalWaits.get? t = some q → db.wakeups.get? t = none →
    db.oldestSignal t q.signalName = none
  suspended : ∀ r, db.executions.get? t = some r → r.state = .suspended →
    (db.wakeups.get? t).isSome ∨ (db.signalWaits.get? t).isSome

theorem Db.Parked.of_idle (hwake : db.wakeups.get? t = none) (hwait : db.signalWaits.get? t = none)
    (hst : ∀ r, db.executions.get? t = some r → r.state ≠ .suspended) : db.Parked t where
  unclaimed _ := ⟨hwake, hwait⟩
  waitAt q hq := absurd (hq.symm.trans hwait) (by simp)
  wakeAt w q hw := absurd (hw.symm.trans hwake) (by simp)
  quiet q hq := absurd (hq.symm.trans hwait) (by simp)
  suspended r hr hs := absurd hs (hst r hr)

theorem Db.Parked.of_no_wait (hwait : db.signalWaits.get? t = none)
    (hclaimed : db.executions.get? t ≠ none)
    (hst : ∀ r, db.executions.get? t = some r → r.state ≠ .suspended) : db.Parked t where
  unclaimed hx := absurd hx hclaimed
  waitAt q hq := absurd (hq.symm.trans hwait) (by simp)
  wakeAt w q _ hq := absurd (hq.symm.trans hwait) (by simp)
  quiet q hq := absurd (hq.symm.trans hwait) (by simp)
  suspended r hr hs := absurd hs (hst r hr)

theorem nextSequence_congr (h : db'.eventsOf t = db.eventsOf t) :
    db'.nextSequence t = db.nextSequence t := by
  simp only [nextSequence, h]

/-- An effect that keeps the wait, the history and the inbox of a task, the sequence of its
wakeup and the presence of its execution row, and suspends it only with a reason to resume. -/
theorem Db.Parked.of_kept (h : db.Parked t)
    (hexec : db'.executions.get? t = none → db.executions.get? t = none)
    (hwake : (db'.wakeups.get? t).map WakeupRow.sequence =
      (db.wakeups.get? t).map WakeupRow.sequence)
    (hwait : db'.signalWaits.get? t = db.signalWaits.get? t)
    (hevents : db'.eventsOf t = db.eventsOf t) (hinbox : db'.inboxOf t = db.inboxOf t)
    (hsuspended : ∀ r, db'.executions.get? t = some r → r.state = .suspended →
      (db.wakeups.get? t).isSome ∨ (db.signalWaits.get? t).isSome) : db'.Parked t := by
  have hnone : db'.wakeups.get? t = none ↔ db.wakeups.get? t = none := by
    rw [← map_eq_none_iff, hwake, map_eq_none_iff]
  have hsome : (db'.wakeups.get? t).isSome = (db.wakeups.get? t).isSome := by
    simpa using congrArg isSome hwake
  refine ⟨?_, ?_, ?_, ?_, ?_⟩
  · intro hx
    obtain ⟨hw, hq⟩ := h.unclaimed (hexec hx)
    exact ⟨hnone.mpr hw, hwait.trans hq⟩
  · intro q hq
    rw [nextSequence_congr hevents]
    exact h.waitAt q (hwait ▸ hq)
  · intro w q hw hq
    rw [hw, map_some] at hwake
    obtain ⟨w₀, hw₀, hseq⟩ := map_eq_some_iff.mp hwake.symm
    rw [nextSequence_congr hevents, ← hseq]
    exact h.wakeAt w₀ q hw₀ (hwait ▸ hq)
  · intro q hq hw
    rw [oldestSignal, hinbox]
    exact h.quiet q (hwait ▸ hq) (hnone.mp hw)
  · intro r hr hs
    rw [hsome, hwait]
    exact hsuspended r hr hs

theorem inboxOf_frame (hinbox : db.InboxOk) {e : Effect} (hen : e.Enabled S db)
    (h : t ≠ e.task) : (e.apply db).inboxOf t = db.inboxOf t := by
  have hrows := apply_signalInbox db e
  unfold inboxOf
  cases e with
  | signal row =>
    rw [hrows, List.filter_append, List.filter_cons_of_neg, List.filter_nil, List.append_nil]
    simpa using show row.taskId ≠ t from Ne.symm h
  | consume row =>
    obtain ⟨-, hold, -⟩ := hen
    obtain ⟨hmem, hqueued, -⟩ := oldestSignal_mem hold
    refine hinbox.numbered.filter_delete_of_not hmem ?_
    simpa [hqueued] using show row.taskId ≠ t from Ne.symm h
  | prune =>
    rw [hrows]
    exact filter_filter_ne (fun _ => of_decide_eq_true) h _
  | _ => rw [hrows]

theorem Db.Parked.frame (h : db.Parked t) (hinbox : db.InboxOk) {e : Effect}
    (hen : e.Enabled S db) (htask : t ≠ e.task) : (e.apply db).Parked t := by
  have hsame := sameRows_apply hen htask
  refine h.of_kept (by rw [hsame.execution]; exact id) (by rw [hsame.wakeup]) hsame.wait
    hsame.events (inboxOf_frame hinbox hen htask) ?_
  intro r hr hs
  exact h.suspended r (hsame.execution ▸ hr) hs

/-! ## Effects on the task itself -/

theorem Db.Parked.admitModule (h : db.Parked t) {p : ProgramRow} {event : EventRow}
    {key hash : String} (hen : Enabled S db (.admitModule t p event key hash)) :
    (apply db (.admitModule t p event key hash)).Parked t := by
  obtain ⟨hwake, hwait⟩ := h.unclaimed hen.2.2.2.2.1
  refine .of_idle hwake hwait fun r hr => ?_
  rw [apply_executions, get?_insert_self] at hr
  obtain rfl := some.inj hr
  simp

theorem Db.Parked.claim {c : ExecutionClaim} (h : db.Parked c.taskId) :
    (apply db (.claim c)).Parked c.taskId := by
  refine h.of_kept ?_ ?_ (by rw [apply_signalWaits]) rfl rfl ?_
  · rw [apply_executions, get?_insert_self]
    exact fun hx => absurd hx (by simp)
  · rw [apply_wakeups, get?_modify_self, map_map]
    rfl
  · intro r hr hs
    rw [apply_executions, get?_insert_self] at hr
    obtain rfl := some.inj hr
    cases hs

theorem Db.Parked.release {c : ExecutionClaim} {failed : Bool} (h : db.Parked c.taskId)
    (hresume : failed = false →
      (db.wakeups.get? c.taskId).isSome ∨ (db.signalWaits.get? c.taskId).isSome) :
    (apply db (.release c failed)).Parked c.taskId := by
  refine h.of_kept ?_ ?_ (by rw [apply_signalWaits]) rfl rfl ?_
  · rw [apply_executions, get?_modify_self]
    exact map_eq_none_iff.mp
  · rw [apply_wakeups, get?_modify_self, map_map]
    rfl
  intro r hr hs
  rw [apply_executions, get?_modify_self] at hr
  obtain ⟨_, -, rfl⟩ := map_eq_some_iff.mp hr
  cases failed with
  | false => exact hresume rfl
  | true => cases hs

theorem Db.Parked.complete {row : CompletionRow} {p : ProgramRow}
    (hen : Enabled S db (.complete t row p)) :
    (apply db (.complete t row p)).Parked t := by
  obtain ⟨-, -, -, hpend, -⟩ := hen
  simp only [pending, Bool.or_eq_false_iff, isSome_eq_false_iff, isNone_iff_eq_none] at hpend
  refine .of_idle hpend.1 hpend.2 fun r hr => ?_
  rw [apply_executions, get?_modify_self] at hr
  obtain ⟨-, -, rfl⟩ := map_eq_some_iff.mp hr
  simp

/-- The wakeup of a task after a signal: a waiting task without a wakeup gets one at the
sequence of its wait. -/
theorem wakeups_signal (db : Db) (row : InboxRow) (receipt : Option ReceiptRow) :
    (apply db (.signal row receipt)).wakeups.get? row.taskId =
      match db.signalWaits.get? row.taskId with
      | some q =>
        if q.signalName = row.signalName then
          some ((db.wakeups.get? row.taskId).getD ⟨q.sequence, row.sentAtMs, none, none⟩)
        else db.wakeups.get? row.taskId
      | none => db.wakeups.get? row.taskId := by
  rw [apply_wakeups]
  simp only [wakeWaiting]
  cases db.signalWaits.get? row.taskId with
  | none => rfl
  | some q =>
    by_cases hname : q.signalName = row.signalName
    · simp only [hname, if_true, get?_insertNew]
    · simp only [hname, if_false]

theorem Db.Parked.signal {row : InboxRow} {receipt : Option ReceiptRow} (h : db.Parked row.taskId) :
    (apply db (.signal row receipt)).Parked row.taskId := by
  have hwake := wakeups_signal db row receipt
  have hwait : (apply db (.signal row receipt)).signalWaits = db.signalWaits := by
    rw [apply_signalWaits]
  have hexec : (apply db (.signal row receipt)).executions = db.executions := by
    rw [apply_executions]
  have hnext : (apply db (.signal row receipt)).nextSequence row.taskId =
      db.nextSequence row.taskId := rfl
  have hgrows : (db.wakeups.get? row.taskId).isSome →
      ((apply db (.signal row receipt)).wakeups.get? row.taskId).isSome := by
    intro hsome
    rw [hwake]
    split
    · split
      · rfl
      · exact hsome
    · exact hsome
  cases hq : db.signalWaits.get? row.taskId with
  | none =>
    -- nobody waits: only the inbox changes
    rw [hq] at hwake
    refine ⟨?_, ?_, ?_, ?_, ?_⟩
    · rw [hexec, hwait, hwake]
      exact h.unclaimed
    · intro q hq'
      exact absurd (hq'.symm.trans (hwait ▸ hq)) (by simp)
    · intro w q _ hq'
      exact absurd (hq'.symm.trans (hwait ▸ hq)) (by simp)
    · intro q hq'
      exact absurd (hq'.symm.trans (hwait ▸ hq)) (by simp)
    · rw [hexec, hwait, hwake]
      exact h.suspended
  | some q =>
    refine ⟨?_, ?_, ?_, ?_, ?_⟩
    · intro hx
      exact absurd (hq.symm.trans (h.unclaimed (hexec ▸ hx)).2) (by simp)
    · rw [hwait, hnext]
      exact h.waitAt
    · intro w q' hw hq'
      rw [hwake, hq] at hw
      dsimp only at hw
      split at hw
      · cases hw₀ : db.wakeups.get? row.taskId with
        | none =>
          rw [hw₀, getD_none, some.injEq] at hw
          subst hw
          exact h.waitAt q hq
        | some w₀ =>
          rw [hw₀, getD_some, some.injEq] at hw
          subst hw
          exact h.wakeAt w₀ q' hw₀ hq'
      · exact h.wakeAt w q' hw hq'
    · -- a wait that is still without a wakeup waits for another name
      intro q' hq' hw
      obtain rfl : q = q' := some.inj (hq.symm.trans (hwait ▸ hq'))
      rw [hwake, hq] at hw
      dsimp only at hw
      split at hw
      · cases hw
      rename_i hname
      have hold := h.quiet q hq hw
      unfold oldestSignal inboxOf at hold ⊢
      rw [apply_signalInbox]
      simpa [List.filter_append, Ne.symm hname] using hold
    · intro r hr hs
      exact (h.suspended r hr hs).imp_left hgrows

theorem Db.Parked.wait {row : WaitRow} (hen : Enabled S db (.wait t row))
    (hwake : db.wakeups.get? t = none)
    (hst : ∀ r, db.executions.get? t = some r → r.state ≠ .suspended)
    (hclaimed : db.executions.get? t ≠ none) : (apply db (.wait t row)).Parked t := by
  have hwait : (apply db (.wait t row)).signalWaits.get? t = some row := by
    rw [apply_signalWaits, get?_insert_self]
  obtain ⟨-, -, hsequence, hempty⟩ := hen
  refine ⟨?_, ?_, ?_, ?_, ?_⟩
  · exact fun hx => absurd hx hclaimed
  · intro q hq
    obtain rfl : row = q := mem_unique hwait hq
    exact hsequence
  · exact fun w q hw => absurd (hw.symm.trans hwake) (by simp)
  · intro q hq _
    obtain rfl : row = q := mem_unique hwait hq
    exact hempty
  · exact fun r hr hs => absurd hs (hst r hr)

theorem consume_idle {row : EventRow} {queued : InboxRow} {claimed : Bool}
    (hen : Enabled S db (.consume row queued claimed)) :
    (apply db (.consume row queued claimed)).wakeups.get? row.taskId = none ∧
      (apply db (.consume row queued claimed)).signalWaits.get? row.taskId = none := by
  obtain ⟨-, -, -, -, hent⟩ := hen
  cases claimed with
  | false =>
    obtain ⟨hwait, hwake⟩ := hent
    refine ⟨hwake, ?_⟩
    rw [apply_signalWaits]
    simp [hwait]
  | true =>
    obtain ⟨hwait, -⟩ := hent
    constructor
    · rw [apply_wakeups]
      exact get?_erase_self _ _
    · rw [apply_signalWaits]
      simp [hwait]

/-! ## Managed stores -/

def Effect.Managed : Effect → Prop
  | register .. | unregister .. | schedule .. | lease .. | prune _ => False
  | admitModule _ p _ _ _ => p.programKind = .module
  | append _ wakeAtMs => ∀ x ∈ wakeAtMs, x < 2 ^ 63
  | signal row _ => row.sentAtMs < 2 ^ 63
  | claim c => c.leaseUntilMs < 2 ^ 63
  | _ => True

/-- Both times of a wakeup are SQL integers. -/
structure WakeupRow.InRange (w : WakeupRow) : Prop where
  wake : w.wakeAtMs < 2 ^ 63
  lease : ∀ u ∈ w.leaseUntilMs, u < 2 ^ 63

structure Db.Managed (S : Crates J) (db : Db) : Prop where
  registered : db.Registered S
  quota : db.QuotaOk
  bounded : db.QuotaBounded
  modules : ∀ t row, db.programs.get? t = some row → row.programKind = .module
  completed : ∀ t r, db.executions.get? t = some r → r.state = .completed → ¬ db.IsOpen t
  wakeups : ∀ t w, db.wakeups.get? t = some w → w.InRange
  leases : ∀ t r, db.executions.get? t = some r → ∀ u ∈ r.leaseUntilMs, u < 2 ^ 63

theorem Db.fresh_managed : fresh.Managed S where
  registered := fresh_registered
  quota := rfl
  bounded := ⟨by decide, by decide⟩
  modules _ _ h := by cases h
  completed _ _ h := by cases h
  wakeups _ _ h := by cases h
  leases _ _ h := by cases h

/-! ## One effect -/

variable {e : Effect} {r : ExecutionRow}

section

variable (h : db.Managed S) (hman : e.Managed)

include h hman

theorem modules_apply (row : ProgramRow) (hrow : (e.apply db).programs.get? t = some row) :
    row.programKind = .module := by
  have hprograms := apply_programs db e
  cases e with
  | admitModule =>
    rw [hprograms, get?_insert] at hrow
    split at hrow
    · obtain rfl := some.inj hrow
      exact hman
    · exact h.modules t row hrow
  | register | unregister | prune => exact hman.elim
  | _ => exact h.modules t row hrow

theorem completed_apply (r : ExecutionRow) (hr : (e.apply db).executions.get? t = some r)
    (hst : r.state = .completed) : ¬ (e.apply db).IsOpen t := by
  by_cases htask : t = e.task
  · subst htask
    have hrows := apply_executions db e
    cases e with
    | admitModule | claim =>
      rw [hrows, task, get?_insert_self] at hr
      obtain rfl := some.inj hr
      cases hst
    | release c failed =>
      rw [hrows, task, get?_modify_self] at hr
      obtain ⟨_, -, rfl⟩ := map_eq_some_iff.mp hr
      cases failed <;> cases hst
    | complete =>
      rw [Db.IsOpen, apply_completions]
      simp [task]
    | prune => exact hman.elim
    | _ => exact h.completed _ r hr hst
  · rw [executions_frame db htask] at hr
    rw [Db.IsOpen, completions_frame db htask]
    exact h.completed t r hr hst

theorem wakeups_apply (w : WakeupRow) (hw : (e.apply db).wakeups.get? t = some w) : w.InRange := by
  by_cases htask : t = e.task
  · subst htask
    have hrows := apply_wakeups db e
    cases e with
    | append row wakeAtMs =>
      cases wakeAtMs with
      | none => exact h.wakeups _ w hw
      | some at_ =>
        rw [hrows, task, get?_insert_self] at hw
        obtain rfl := some.inj hw
        exact ⟨hman at_ rfl, by simp⟩
    | signal row =>
      rw [task, wakeups_signal] at hw
      split at hw
      · split at hw
        · cases hw₀ : db.wakeups.get? row.taskId with
          | none =>
            rw [hw₀, getD_none, some.injEq] at hw
            subst hw
            exact ⟨hman, by simp⟩
          | some w₀ =>
            rw [hw₀, getD_some, some.injEq] at hw
            exact hw ▸ h.wakeups _ w₀ hw₀
        · exact h.wakeups _ w hw
      · exact h.wakeups _ w hw
    | wake =>
      rw [hrows, task, get?_erase_self] at hw
      cases hw
    | consume row queued claimed =>
      cases claimed with
      | false => exact h.wakeups _ w hw
      | true =>
        rw [hrows, task, get?_erase_self] at hw
        cases hw
    | claim =>
      rw [hrows, task, get?_modify_self] at hw
      obtain ⟨w', hw', rfl⟩ := map_eq_some_iff.mp hw
      refine ⟨(h.wakeups _ w' hw').wake, ?_⟩
      rintro - ⟨⟩
      exact hman
    | release =>
      rw [hrows, task, get?_modify_self] at hw
      obtain ⟨w', hw', rfl⟩ := map_eq_some_iff.mp hw
      exact ⟨(h.wakeups _ w' hw').wake, by simp⟩
    | schedule | lease => exact hman.elim
    | _ => exact h.wakeups _ w hw
  · exact h.wakeups t w (wakeups_frame db htask ▸ hw)

theorem leases_apply (r : ExecutionRow) (hr : (e.apply db).executions.get? t = some r) :
    ∀ u ∈ r.leaseUntilMs, u < 2 ^ 63 := by
  by_cases htask : t = e.task
  · subst htask
    have hrows := apply_executions db e
    cases e with
    | admitModule =>
      rw [hrows, task, get?_insert_self] at hr
      obtain rfl := some.inj hr
      simp
    | claim =>
      rw [hrows, task, get?_insert_self] at hr
      obtain rfl := some.inj hr
      rintro - ⟨⟩
      exact hman
    | release | complete =>
      rw [hrows, task, get?_modify_self] at hr
      obtain ⟨-, -, rfl⟩ := map_eq_some_iff.mp hr
      simp
    | prune => exact hman.elim
    | _ => exact h.leases _ r hr
  · exact h.leases t r (executions_frame db htask ▸ hr)

end

theorem Db.Managed.apply (h : db.Managed S) (hen : e.Enabled S db) (hman : e.Managed) :
    (e.apply db).Managed S where
  registered := by
    refine h.registered.apply hen ?_
    rintro _ _ rfl
    exact hman.elim
  quota := h.quota.step (charged_apply hen)
  bounded := h.bounded.step h.quota (charged_apply hen)
  modules _ := modules_apply h hman
  completed _ := completed_apply h hman
  wakeups _ := wakeups_apply h hman
  leases _ := leases_apply h hman

theorem generation_apply (hen : e.Enabled S db) (hman : e.Managed)
    (hr : db.executions.get? t = some r) :
    ∃ r', (e.apply db).executions.get? t = some r' ∧ r.generation ≤ r'.generation := by
  have hkeep : e ≠ .prune t := by
    rintro rfl
    exact hman
  obtain ⟨r', hr', -, -, hle⟩ := execution_kept hen hkeep hr
  exact ⟨r', hr', hle⟩

/-! ## Eligibility -/

/-- `load_due_programs_batch` returns the task at every sufficiently late time: the task has
a position in the order of the query, and every limit beyond it reaches the task. -/
def Db.DueLater (S : Crates J) (db : Db) (t : TaskId) : Prop :=
  ∃ late < 2 ^ 63, ∀ nowMs, late ≤ nowMs → nowMs < 2 ^ 63 →
    ∃ position < maxDurablePrograms, ∀ limit, position < limit →
      ∃ programs, loadDueProgramsBatch S db nowMs .module limit = .ok programs ∧
        (programs.map DurableProgram.taskId)[position]? = some t

/-- The task waits for a signal that is not pending, and has no wakeup. -/
def Db.AwaitsSignal (db : Db) (t : TaskId) : Prop :=
  ∃ wait, db.signalWaits.get? t = some wait ∧ db.wakeups.get? t = none ∧
    db.oldestSignal t wait.signalName = none

/-- A row of the `due` query from some time on is a task that the batch returns from then on. -/
theorem Db.Managed.dueLater (h : db.Managed S) (hr : db.executions.get? t = some r)
    (hopen : db.IsOpen t) {late : ℕ} (hlate : late < 2 ^ 63)
    (hdue : ∀ now, late ≤ now → ∃ due, (due, t) ∈ db.due now) : db.DueLater S t := by
  obtain ⟨p, hprogram⟩ := isSome_iff_exists.mp (h.registered.noOrphans.executions t r hr)
  refine ⟨late, hlate, fun now hnow hrange => ?_⟩
  obtain ⟨_, hmem⟩ := hdue now hnow
  exact returned_of_due h.registered.sound.programs h.bounded hrange hprogram
    (h.modules t p hprogram) hopen hmem

theorem leaseFree_of_le {lease : Option ℕ} {now : ℕ} (h : lease.getD 0 ≤ now) :
    leaseFree lease now := by
  rintro _ rfl
  exact h

theorem getD_lt {lease : Option ℕ} (h : ∀ u ∈ lease, u < 2 ^ 63) : lease.getD 0 < 2 ^ 63 := by
  cases lease with
  | none => decide
  | some u => exact h u rfl

/-- A parked task that is neither completed nor failed will be due, or awaits a signal. -/
theorem Db.Managed.eligible (h : db.Managed S) (hparked : db.Parked t)
    (hr : db.executions.get? t = some r) (hopen : db.IsOpen t) (hfailed : r.state ≠ .failed) :
    db.DueLater S t ∨ db.AwaitsSignal t := by
  have hcompleted : r.state ≠ .completed := fun hst => h.completed t r hr hst hopen
  have hlease := getD_lt (h.leases t r hr)
  cases hw : db.wakeups.get? t with
  | some w =>
    have hrange := h.wakeups t w hw
    refine .inl (h.dueLater hr hopen
      (max_lt hrange.wake (max_lt (getD_lt hrange.lease) hlease)) fun now hnow => ?_)
    simp only [max_le_iff] at hnow
    refine ⟨w.wakeAtMs, mem_due.mpr (.inl ⟨w, hw, ?_, rfl⟩)⟩
    refine ⟨hnow.1, leaseFree_of_le hnow.2.1, ?_⟩
    intro r' hr'
    obtain rfl : r = r' := mem_unique hr hr'
    refine ⟨?_, leaseFree_of_le hnow.2.2⟩
    cases hst : r.state <;> simp_all
  | none =>
    cases hq : db.signalWaits.get? t with
    | some wait => exact .inr ⟨wait, hq, hw, hparked.quiet wait hq hw⟩
    | none =>
      refine .inl (h.dueLater hr hopen hlease fun now hnow => ?_)
      refine ⟨_, mem_due.mpr (.inr ⟨r, hr, ⟨?_, leaseFree_of_le hnow, hw, hq⟩, rfl⟩)⟩
      have hsuspended : r.state ≠ .suspended := by
        intro hst
        have := hparked.suspended r hr hst
        simp [hw, hq] at this
      cases hst : r.state <;> simp_all

end Tysel.Durable
