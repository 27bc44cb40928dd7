import Tysel.Verification.Durable.Fencing
import Tysel.Verification.Durable.Inbox

/-! Execution rows and receipts are written for registered tasks only, and the retention pass
deletes them with the program. Unregistering a program deletes neither, so it leaves no
orphan exactly when the task has no execution row; receipts keep their task in use. -/

namespace Tysel.Durable

open List Effect Table Option Db

variable {J : Type} {S : Crates J} {db : Db}

structure Db.NoOrphans (db : Db) : Prop where
  executions : ∀ t r, db.executions.get? t = some r → (db.programs.get? t).isSome
  receipts : ∀ r ∈ db.signalReceipts, (db.programs.get? r.taskId).isSome

/-- The signal of a receipt is pending or in the history. -/
def Db.ReceiptsUsed (db : Db) : Prop :=
  ∀ r ∈ db.signalReceipts, db.eventsOf r.taskId ≠ [] ∨ db.inboxOf r.taskId ≠ []

theorem Db.ReceiptsUsed.inUse (h : db.ReceiptsUsed) {r : ReceiptRow}
    (hr : r ∈ db.signalReceipts) : db.inUse r.taskId := by
  rcases h r hr with hevents | hinbox
  · exact .inl hevents
  · exact .inr (.inr (.inl hinbox))

variable {e : Effect} {t : TaskId}

theorem inboxOf_ne_nil_apply (hinbox : db.InboxOk) (hen : e.Enabled S db) (hprune : e ≠ .prune t)
    (h : db.inboxOf t ≠ []) :
    (e.apply db).eventsOf t ≠ [] ∨ (e.apply db).inboxOf t ≠ [] := by
  have hrows := apply_signalInbox db e
  cases e with
  | signal =>
    right
    unfold inboxOf at h ⊢
    rw [hrows, filter_append]
    exact append_ne_nil_of_left_ne_nil h _
  | consume row =>
    by_cases htask : row.taskId = t
    · left
      rw [eventsOf_apply db hprune]
      simp [appended, htask]
    right
    obtain ⟨-, hold, -⟩ := hen
    obtain ⟨hmem, hqueued, -⟩ := oldestSignal_mem hold
    unfold inboxOf at h ⊢
    rw [hrows, hinbox.numbered.filter_delete_of_not hmem (by simp [hqueued, htask])]
    exact h
  | prune u =>
    right
    have hne : t ≠ u := by
      rintro rfl
      exact hprune rfl
    unfold inboxOf at h ⊢
    rw [hrows, filter_filter_ne (fun _ => of_decide_eq_true) hne]
    exact h
  | _ => exact .inr h

theorem Db.ReceiptsUsed.apply (h : db.ReceiptsUsed) (hinbox : db.InboxOk) (hen : e.Enabled S db) :
    (e.apply db).ReceiptsUsed := by
  intro r hr
  have hreceipts := apply_signalReceipts db e
  -- a receipt that was there before, of a task that is not pruned
  have hkeep : r ∈ db.signalReceipts → e ≠ .prune r.taskId →
      (e.apply db).eventsOf r.taskId ≠ [] ∨ (e.apply db).inboxOf r.taskId ≠ [] := by
    intro hold hprune
    rcases h r hold with hevents | hqueue
    · rw [eventsOf_apply db hprune]
      exact .inl (append_ne_nil_of_left_ne_nil hevents _)
    · exact inboxOf_ne_nil_apply hinbox hen hprune hqueue
  cases e with
  | signal =>
    rcases mem_append.mp hr with hr | hr
    · exact hkeep hr (by simp)
    · right
      have htask := (hen.2.2 r (by simpa using hr)).task
      simp [inboxOf, apply_signalInbox, filter_append, htask]
  | prune =>
    rw [hreceipts] at hr
    obtain ⟨hold, hne⟩ := mem_filter.mp hr
    refine hkeep hold ?_
    rintro ⟨⟩
    simp at hne
  | _ => exact hkeep hr (by simp)

theorem Db.NoOrphans.executions_apply (h : db.NoOrphans) (hen : e.Enabled S db)
    (hidle : ∀ u row, e = .unregister u row → db.executions.get? u = none) (t : TaskId)
    (r : ExecutionRow) (hr : (e.apply db).executions.get? t = some r) :
    ((e.apply db).programs.get? t).isSome := by
  by_cases htask : t = e.task
  · subst htask
    have hrows := apply_executions db e
    have hprograms := apply_programs db e
    cases e with
    | register | admitModule => simp [hprograms, task]
    | unregister u row =>
      exact absurd (hr.symm.trans (hidle u row rfl)) (by simp)
    | claim => exact hen.2.1
    | release | complete =>
      rw [hrows, task, get?_modify_self] at hr
      obtain ⟨r', hr', -⟩ := map_eq_some_iff.mp hr
      exact h.executions _ r' hr'
    | prune =>
      rw [hrows, task, get?_erase_self] at hr
      cases hr
    | _ => exact h.executions _ r hr
  · rw [executions_frame db htask] at hr
    rw [programs_frame db htask]
    exact h.executions t r hr

theorem Db.NoOrphans.receipts_apply (h : db.NoOrphans) (hused : db.ReceiptsUsed)
    (hen : e.Enabled S db) (r : ReceiptRow) (hr : r ∈ (e.apply db).signalReceipts) :
    ((e.apply db).programs.get? r.taskId).isSome := by
  have hreceipts := apply_signalReceipts db e
  have hprograms := apply_programs db e
  have hinsert : ∀ u row, (e.apply db).programs = db.programs.insert u row →
      r ∈ db.signalReceipts → ((e.apply db).programs.get? r.taskId).isSome := by
    intro u row hinsert hold
    rw [hinsert, get?_insert]
    split
    · rfl
    · exact h.receipts r hold
  have herase : ∀ u, (e.apply db).programs = db.programs.erase u → r.taskId ≠ u →
      r ∈ db.signalReceipts → ((e.apply db).programs.get? r.taskId).isSome := by
    intro u herase hne hold
    rw [herase, get?_erase_ne hne]
    exact h.receipts r hold
  cases e with
  | register u row => exact hinsert u row hprograms hr
  | admitModule u p => exact hinsert u p hprograms hr
  | unregister u =>
    refine herase u hprograms ?_ hr
    rintro rfl
    exact hen.2.2.1 (hused.inUse hr)
  | prune u =>
    obtain ⟨hold, hne⟩ := mem_filter.mp hr
    exact herase u hprograms (by simpa using hne) hold
  | signal =>
    rw [hreceipts] at hr
    rcases mem_append.mp hr with hr | hr
    · exact h.receipts r hr
    · exact (hen.2.2 r (by simpa using hr)).program
  | _ => exact h.receipts r hr

/-- The task of a program that is removed has no execution row. -/
def Call.RemovesIdle (c : Call J) : Prop :=
  match c.input, c.output with
  | .removeProgram t, .ok (.program (some _)) => c.before.executions.get? t = none
  | _, _ => True

instance (c : Call J) : Decidable c.RemovesIdle := by
  unfold Call.RemovesIdle
  split <;> infer_instance

/-- The invariant with the facts its proof needs. -/
structure Db.Registered (S : Crates J) (db : Db) : Prop where
  opened : db.Opened
  inbox : db.InboxOk
  used : db.ReceiptsUsed
  sound : db.Sound S
  noOrphans : db.NoOrphans

theorem Db.Registered.apply (h : db.Registered S) (hen : e.Enabled S db)
    (hidle : ∀ u row, e = .unregister u row → db.executions.get? u = none) :
    (e.apply db).Registered S where
  opened := h.opened.apply e
  inbox := h.inbox.apply e
  used := h.used.apply h.inbox hen
  sound := h.sound.apply hen
  noOrphans := ⟨h.noOrphans.executions_apply hen hidle, h.noOrphans.receipts_apply h.used hen⟩

theorem Db.fresh_registered : fresh.Registered S where
  opened := fresh_opened
  inbox := fresh_inboxOk
  used := by simp [Db.ReceiptsUsed, fresh, empty]
  sound := fresh_sound
  noOrphans := by
    refine ⟨?_, by simp [fresh, empty]⟩
    intro t r hr
    cases hr

theorem Db.Registered.call (h : db.Registered S) (op : Op J)
    (hidle : Call.RemovesIdle (entry (call S) db op)) : (call S db op).2.Registered S := by
  by_cases hop : ∃ t, op = .removeProgram t
  · obtain ⟨_, rfl⟩ := hop
    rcases call_cases S db (.removeProgram _) with ⟨e, -, hcall⟩ | ⟨r, db', hok, hcall⟩
    · rwa [hcall]
    obtain ⟨existing, hremove, rfl⟩ := replying_ok.mp hok
    rw [entry, hcall] at hidle
    rw [hcall]
    rcases removeProgram_commits hremove with ⟨-, rfl⟩ | ⟨p, row, rfl, hen, rfl⟩
    · exact h
    · refine h.apply hen ?_
      rintro u row ⟨⟩
      exact hidle
  · obtain ⟨es, hes⟩ := call_committed S h.opened op
    refine Guarded.Chain.invariant (fun e => ∀ u row, e ≠ .unregister u row) ?_ hes.chain ?_ h
    · intro s e hgood hs hen
      exact hs.apply hen fun u row he => absurd he (hgood u row)
    · rintro _ he u _ rfl
      exact hop ⟨u, (hes.origin _ he).arguments⟩

theorem registered_after (ops : List (Op J)) (hidle : ∀ c ∈ calls S fresh ops, c.RemovesIdle) :
    (after S fresh ops).Registered S := by
  refine (trace_invariant (call S) fresh
    (P := fun cs s => (∀ c : Call J, c ∈ cs → c.RemovesIdle) → s.Registered S)
    (fun _ => fresh_registered) ?_ ops) hidle
  intro cs s op hs hall
  exact (hs fun c hc => hall c (mem_append_left _ hc)).call op (hall _ (by simp))

/-- The rows of a task after its program has been removed. -/
structure Db.Removed (db : Db) (t : TaskId) : Prop where
  isOpen : db.IsOpen t
  program : db.programs.get? t = none
  execution : db.executions.get? t = none
  wakeup : db.wakeups.get? t = none
  events : db.eventsOf t = []

theorem Db.Removed.of_same {db' : Db} (h : db.Removed t) (hsame : SameRows db db' t) :
    db'.Removed t where
  isOpen := hsame.completion.trans h.isOpen
  program := hsame.program.trans h.program
  execution := hsame.execution.trans h.execution
  wakeup := hsame.wakeup.trans h.wakeup
  events := hsame.events.trans h.events

theorem removed_of_call (hidle : db.executions.get? t = none) {p : DurableProgram}
    (h : (call S db (.removeProgram t)).1 = .ok (.program (some p))) :
    (call S db (.removeProgram t)).2.Removed t := by
  rcases call_cases S db (.removeProgram t) with ⟨e, -, hcall⟩ | ⟨r, db', hok, hcall⟩
  · simp [hcall] at h
  obtain ⟨existing, hremove, rfl⟩ := replying_ok.mp hok
  obtain rfl : existing = some p := by simpa [hcall] using h
  rw [hcall]
  rcases removeProgram_commits hremove with ⟨hnone, -⟩ | ⟨_, _, -, hen, rfl⟩
  · cases hnone
  have huse := hen.2.2.1
  simp only [inUse, not_or, not_not] at huse
  refine ⟨hen.1, ?_, hidle, ?_, huse.1⟩
  · rw [apply_programs]
    exact get?_erase_self _ _
  · rw [apply_wakeups]
    simpa [isSome_iff_ne_none] using huse.2.1

/-- Operations that do not address the removed task leave its rows alone. -/
theorem Db.Removed.call (hopen : db.Opened) (h : db.Removed t) {op : Op J}
    (hop : op.task? ≠ some t) : (call S db op).2.Removed t := by
  obtain ⟨es, hes⟩ := call_committed S hopen op
  refine Guarded.Chain.invariant (P := fun s => s.Removed t)
    (fun e => e.From op) ?_ hes.chain hes.origin h
  intro s e hfrom hs hen
  have hother : t ≠ e.task := by
    rintro rfl
    rcases hfrom.addressed with haddr | ⟨-, hbatch⟩
    · exact hop haddr
    -- a removed task has neither a wakeup to lease nor a completion to prune
    cases e with
    | lease u =>
      have hw : s.wakeups.get? u = none := hs.wakeup
      simp [effects, Effect.Enabled, hw] at hen
    | prune u =>
      have hc : s.completions.get? u = none := hs.isOpen
      simp [effects, Effect.Enabled, hc] at hen
    | _ => cases hbatch
  exact hs.of_same (sameRows_apply hen hother)

theorem removed_after (hopen : db.Opened) (h : db.Removed t) (ops : List (Op J))
    (hops : ∀ op ∈ ops, op.task? ≠ some t) : (after S db ops).Removed t := by
  induction ops generalizing db with
  | nil => exact h
  | cons op _ ih =>
    refine ih (call_opened S hopen op) (h.call hopen (hops op (by simp))) ?_
    exact fun op' hop' => hops op' (mem_cons_of_mem _ hop')

/-- Arguments that the checks of an admission accept. -/
structure AdmitArgs (S : Crates J) (key source input : String) (time : ℕ) : Prop where
  keyOk : validateKey key = .ok ()
  sourceOk : validateProgramSource source = .ok ()
  bytes : input.utf8ByteSize ≤ maxEventPayloadBytes
  parses : ∃ v, S.fromStr input = some v ∧
    (S.toStr v).utf8ByteSize ≤ maxEventPayloadBytes ∧ (S.fromStr (S.toStr v)).isSome
  inRange : time < 2 ^ 63

theorem admitModule_of_removed (hist : db.HistoryOk t) (h : db.Removed t)
    {key source input : String} {time : ℕ} (hargs : AdmitArgs S key source input time)
    (hroom : db.ProgramRoom source.utf8ByteSize) :
    ∃ db', admitModule S db t key source input time = .ok ((), db') := by
  obtain ⟨v, hvalue, hbytes, hparse⟩ := hargs.parses
  obtain ⟨again, hagain⟩ := isSome_iff_exists.mp hparse
  obtain ⟨stats, hstats, hcount, htotal⟩ := hroom
  have hfp : fingerprint S source input =
      .ok (S.sha256 (source ++ "\x00" ++ S.toStr v), S.toStr v) := by
    simp only [fingerprint, hargs.sourceOk, ok_bind, reject_of_not _ (not_lt.mpr hargs.bytes),
      parseJson_ok.mpr hvalue]
    rfl
  have hraw : rawEvent S .step taskInputKey (S.toStr v) time =
      .ok ⟨.step, taskInputKey, again, time⟩ :=
    rawEvent_ok.mpr ⟨by decide, hbytes, again, hagain, rfl⟩
  have happ : db.Appendable ⟨t, 0, .step, taskInputKey, S.toStr v, time⟩ := by
    refine ⟨h.isOpen, ?_, ?_⟩
    · have hkey : taskInputKey.utf8ByteSize = 17 := by decide
      simp only [Db.HistoryRoom, hist.getD_stats, h.events, historyBytes, EventRow.bytes, hkey]
      simp only [length_nil, map_nil, sum_nil, maxHistoryEvents, maxHistoryBytes,
        maxEventPayloadBytes] at hbytes ⊢
      omega
    · rw [hist.nextSequence, h.events]
      rfl
  have hinsert : ∀ p, insertEvent (db.insertProgram t p) t (some 0)
      ⟨.step, taskInputKey, again, time⟩ (S.toStr v) time =
        .ok (0, (db.insertProgram t p).insertEventRow
          ⟨t, 0, .step, taskInputKey, S.toStr v, time⟩) := fun p =>
    insertEvent_ok.mpr ⟨⟨happ.isOpen, happ.room, happ.sequence⟩, by simp, rfl⟩
  simp only [admitModule, hargs.keyOk, ok_bind, hfp, h.execution, admitNew,
    selectProgram_eq_none.mpr h.program, selectProgramStats_ok.mpr hstats,
    reject_of_not _ (not_le.mpr hcount), reject_of_not _ (not_lt.mpr htotal),
    toSqlInteger_of_lt _ hargs.inRange, hraw, hinsert]
  exact ⟨_, rfl⟩

/-- In every run that removes no program of a task with an execution row: every execution
row and receipt has a program; claims issued before a removal stay fenced off when owners
are distinct; and the removed task can be admitted again while the quota has room. -/
theorem no_orphaned_execution (S : Crates J) (ops : List (Op J))
    (hidle : ∀ c ∈ calls S fresh ops, c.RemovesIdle) : (after S fresh ops).NoOrphans ∧
      ∀ past rest t p, ops = past ++ .removeProgram t :: rest →
        (call S (after S fresh past) (.removeProgram t)).1 = .ok (.program (some p)) →
        (((issuedIn (calls S fresh ops)).map ExecutionClaim.owner).Nodup →
          ∀ claim ∈ issuedIn (calls S fresh past), claim.taskId = t →
            (∀ u clock, ¬ claim.Passes (after S fresh ops) u clock) ∧
            ∀ op : Op J, op.store? = some claim → (∀ store u expected v time lease clocks,
                op = .finishTask store u expected v time lease clocks →
                  (after S fresh ops).IsOpen u) →
              ∃ e, call S (after S fresh ops) op = (.error e, after S fresh ops)) ∧
        ((∀ op ∈ rest, op.task? ≠ some t) →
          ∀ key source input time, AdmitArgs S key source input time →
            (after S fresh ops).ProgramRoom source.utf8ByteSize →
            (call S (after S fresh ops) (.admitModule t key source input time)).1 =
              .ok (.unit ())) := by
  have hreg := registered_after ops hidle
  refine ⟨hreg.noOrphans, ?_⟩
  rintro past rest t _ rfl hremove
  have hafter : after S fresh (past ++ .removeProgram t :: rest) =
      after S (call S (after S fresh past) (.removeProgram t)).2 rest := by
    rw [after, run_append, run_cons]
  have hpast : (after S fresh past).Opened := after_opened S fresh_opened past
  have hhere := hidle (entry (call S) (after S fresh past) (.removeProgram t)) (by
    rw [calls, trace_append]
    exact mem_append_right _ (mem_cons_self ..))
  simp only [Call.RemovesIdle, entry, hremove] at hhere
  have hremoved := removed_of_call hhere hremove
  have hopen := call_opened S hpast (.removeProgram t)
  constructor
  · intro hdistinct claim hclaim htask
    have hfenced : ∀ u clock, ¬ claim.Passes
        (after S fresh (past ++ .removeProgram t :: rest)) u clock := by
      rw [hafter]
      refine not_passes_of_not_owner fun r hr howner => ?_
      obtain ⟨c, hlast, hc⟩ := ownedByLast_after hopen
        (fun r hr => absurd (hr.symm.trans hremoved.execution) (by simp)) rest r claim.owner
        (htask ▸ hr) howner
      rw [issuedIn, calls, trace_append, flatMap_append, trace_cons, flatMap_cons,
        map_append, map_append] at hdistinct
      exact (nodup_append.mp hdistinct).2.2 _ (mem_map_of_mem hclaim) _
        (mem_append_right _ (mem_map_of_mem (mem_of_mem_filter (mem_of_getLast? hlast)))) hc.symm
    exact ⟨hfenced, fun op hstore hfinish => fenced_call hfenced hstore hfinish⟩
  · intro hrest key source input time hargs hroom
    have hstill : (after S fresh (past ++ .removeProgram t :: rest)).Removed t := by
      rw [hafter]
      exact removed_after hopen hremoved rest hrest
    obtain ⟨db', hadm⟩ := admitModule_of_removed (hreg.sound.history t) hstill hargs hroom
    have hperform : perform S (after S fresh (past ++ .removeProgram t :: rest))
        (.admitModule t key source input time) = .ok (.unit (), db') :=
      replying_ok.mpr ⟨(), hadm, rfl⟩
    rw [call_of_ok hperform]

theorem no_orphaned_execution_readmission :
    (after bools fresh [.putProgram 7 .module "42" 0, .removeProgram 7]).NoOrphans ∧
      (call bools (after bools fresh [.putProgram 7 .module "42" 0, .removeProgram 7])
        (.admitModule 7 "key" "42" "true" 1)).1 = .ok (.unit ()) := by
  have hrun := no_orphaned_execution bools [.putProgram 7 .module "42" 0, .removeProgram 7]
    (by decide)
  refine ⟨hrun.1, ?_⟩
  refine (hrun.2 [.putProgram 7 .module "42" 0] [] 7 _ rfl rfl).2 (by simp) "key" "42" "true" 1
    ⟨rfl, rfl, by decide, ⟨true, rfl, by decide, rfl⟩, by decide⟩
    ⟨⟨0, 0⟩, by decide, by decide, by decide⟩

def orphanRun : List (Op Bool) :=
  [.putProgram 7 .module "42" 0, .claimRun 7 "worker" 10 (some "token") 0 0, .removeProgram 7]

/-- The removal leaves the execution row: the claim issued before still appends, and the
task cannot be admitted although the quota is empty. -/
theorem removed_program_orphan : (after bools fresh orphanRun).programs.get? 7 = none ∧
      (after bools fresh orphanRun).executions.get? 7 =
        some ⟨.running, 1, some "token", some 10, none, none⟩ ∧
      (call bools (after bools fresh orphanRun)
        (.appendEventJsonAt (some ⟨7, "token", 1, 10, none⟩) 7 0 .step "k" "true" 1 1 1)).1 =
          .ok (.event ⟨7, 0, .step, "k", true, 1, "true"⟩) ∧
      (after bools fresh orphanRun).programStats = some ⟨0, 0⟩ ∧
      (call bools (after bools fresh orphanRun)
        (.admitModule 7 "key" "42" "true" 1)).1 = .error .admissionConflict :=
  ⟨by decide, by decide, rfl, by decide, rfl⟩

end Tysel.Durable
