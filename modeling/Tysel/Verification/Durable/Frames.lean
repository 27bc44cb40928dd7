import Tysel.Verification.Durable.History

/-! Every effect addresses one task and leaves the rows of all other tasks alone. -/

namespace Tysel.Durable

open Table Effect

variable {J : Type} {S : Crates J}

/-- Two stores that agree on every row of a task outside its inbox. -/
structure SameRows (db db' : Db) (t : TaskId) : Prop where
  completion : db'.completions.get? t = db.completions.get? t
  program : db'.programs.get? t = db.programs.get? t
  execution : db'.executions.get? t = db.executions.get? t
  wakeup : db'.wakeups.get? t = db.wakeups.get? t
  wait : db'.signalWaits.get? t = db.signalWaits.get? t
  events : db'.eventsOf t = db.eventsOf t
  receipts : db'.receiptsOf t = db.receiptsOf t

theorem SameRows.refl (db : Db) (t : TaskId) : SameRows db db t :=
  ⟨rfl, rfl, rfl, rfl, rfl, rfl, rfl⟩

variable {t : TaskId} {db : Db}

theorem SameRows.trans {db' db'' : Db} (h : SameRows db db' t) (h' : SameRows db' db'' t) :
    SameRows db db'' t where
  completion := h'.completion.trans h.completion
  program := h'.program.trans h.program
  execution := h'.execution.trans h.execution
  wakeup := h'.wakeup.trans h.wakeup
  wait := h'.wait.trans h.wait
  events := h'.events.trans h.events
  receipts := h'.receipts.trans h.receipts

variable {e : Effect}

theorem wakeups_frame (db : Db) (h : t ≠ e.task) :
    (e.apply db).wakeups.get? t = db.wakeups.get? t := by
  have hw := apply_wakeups db e
  cases e with
  | append _ wakeAtMs =>
    cases wakeAtMs with
    | none => rfl
    | some => rw [hw]; exact get?_insert_ne h
  | schedule => rw [hw]; exact get?_insert_ne h
  | lease => rw [hw]; exact get?_modify_ne _ _ h
  | wake => rw [hw]; exact get?_erase_ne h
  | signal =>
    rw [hw]
    unfold Db.wakeWaiting
    dsimp only
    split
    · split
      · rw [get?_insertNew]
        exact if_neg h
      · rfl
    · rfl
  | consume _ _ claimed =>
    cases claimed with
    | false => rfl
    | true => rw [hw]; exact get?_erase_ne h
  | claim | release => rw [hw]; exact get?_modify_ne _ _ h
  | _ => rfl

theorem executions_frame (db : Db) (h : t ≠ e.task) :
    (e.apply db).executions.get? t = db.executions.get? t := by
  have hx := apply_executions db e
  cases e with
  | admitModule | claim => rw [hx]; exact get?_insert_ne h
  | release | complete => rw [hx]; exact get?_modify_ne _ _ h
  | prune => rw [hx]; exact get?_erase_ne h
  | _ => rfl

/-- The execution row of a task that is not pruned keeps its admission columns, and its
generation does not fall. -/
theorem execution_kept (hen : e.Enabled S db) (hkeep : e ≠ .prune t) {r : ExecutionRow}
    (hr : db.executions.get? t = some r) :
    ∃ r', (e.apply db).executions.get? t = some r' ∧ r'.admissionKey = r.admissionKey ∧
      r'.requestHash = r.requestHash ∧ r.generation ≤ r'.generation := by
  by_cases htask : t = e.task
  · subst htask
    have hrows := apply_executions db e
    cases e with
    | admitModule => exact absurd (hr.symm.trans hen.2.2.2.2.1) (by simp)
    | claim c =>
      obtain ⟨-, -, hgen, -⟩ := hen
      rw [task] at hr
      rw [hr, nextGeneration_ok] at hgen
      refine ⟨_, claim_row db c, ?_, ?_, hgen.1 ▸ Nat.le_succ _⟩ <;> simp [claimedRow, hr]
    | release | complete =>
      rw [task] at hr
      refine ⟨_, by rw [hrows, task, get?_modify_self, hr, Option.map_some], ?_⟩
      exact ⟨rfl, rfl, le_rfl⟩
    | prune => exact absurd rfl hkeep
    | _ => exact ⟨r, hr, rfl, rfl, le_rfl⟩
  · exact ⟨r, (executions_frame db htask).trans hr, rfl, rfl, le_rfl⟩

section

variable (db : Db) (h : t ≠ e.task)

include h

theorem programs_frame : (e.apply db).programs.get? t = db.programs.get? t := by
  have hp := apply_programs db e
  cases e with
  | register | admitModule => rw [hp]; exact get?_insert_ne h
  | unregister | prune => rw [hp]; exact get?_erase_ne h
  | _ => rfl

theorem completions_frame : (e.apply db).completions.get? t = db.completions.get? t := by
  have hc := apply_completions db e
  cases e with
  | complete => rw [hc]; exact get?_insert_ne h
  | prune => rw [hc]; exact get?_erase_ne h
  | _ => rfl

theorem signalWaits_frame : (e.apply db).signalWaits.get? t = db.signalWaits.get? t := by
  have hw := apply_signalWaits db e
  cases e with
  | wait => rw [hw]; exact get?_insert_ne h
  | consume =>
    rw [hw]
    dsimp only
    split
    · exact get?_erase_ne h
    · rfl
  | _ => rfl

end

section

variable (hen : e.Enabled S db) (h : t ≠ e.task)

include hen h

theorem receiptsOf_frame : (e.apply db).receiptsOf t = db.receiptsOf t := by
  have hr := apply_signalReceipts db e
  cases e with
  | signal _ receipt =>
    unfold Db.receiptsOf
    rw [hr]
    cases receipt with
    | none => simp
    | some receipt =>
      have htask : receipt.taskId ≠ t := by
        rw [(hen.2.2 receipt rfl).task]
        exact Ne.symm h
      simp [List.filter_append, htask]
  | prune =>
    unfold Db.receiptsOf
    exact filter_filter_ne (fun _ => of_decide_eq_true) h _
  | _ => rfl

theorem eventsOf_frame : (e.apply db).eventsOf t = db.eventsOf t := by
  have hprune : e ≠ .prune t := by
    rintro rfl
    exact h rfl
  rw [eventsOf_apply db hprune]
  cases e with
  | append row | consume row => simp [appended, show row.taskId ≠ t from Ne.symm h]
  | admitModule _ _ event =>
    obtain ⟨-, rfl, -⟩ := hen
    simp [appended, show event.taskId ≠ t from Ne.symm h]
  | _ => simp [appended]

theorem sameRows_apply : SameRows db (e.apply db) t where
  completion := completions_frame db h
  program := programs_frame db h
  execution := executions_frame db h
  wakeup := wakeups_frame db h
  wait := signalWaits_frame db h
  events := eventsOf_frame hen h
  receipts := receiptsOf_frame hen h

end

end Tysel.Durable
