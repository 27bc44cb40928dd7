import Tysel.Verification.Tasks.Fencing

/-! A commit and a cancellation store the outcome together with the last transition of the task.
The scheduler also times tasks out on its own, and then no outcome is stored: the tasks that an
operation finds overdue are the only finished tasks without an outcome. -/

namespace Tysel.Tasks

open TaskRpcBroker

open Tysel.Durable (TaskId)
open TaskRpcBroker (perform new_sound)

variable {J : Type} {T : Texts J} {b b' : TaskRpcBroker J}

def TaskRpcBroker.Recorded (b : TaskRpcBroker J) : Prop :=
  ∀ id t, b.scheduler.tasks.get? id = some t → t.state.isTerminal = true →
    ∃ o, b.outcomes.get? id = some o

namespace TaskRpcBroker.Recorded

theorem insert (h : b.Recorded) {s : Scheduler J} {key : TaskId} (o : TaskOutcome J)
    (hother : ∀ id, id ≠ key → s.tasks.get? id = b.scheduler.tasks.get? id) :
    Recorded ⟨s, b.outcomes.insert key o⟩ := by
  intro id t htask hterminal
  by_cases hid : id = key
  · subst hid
    exact ⟨o, Table.get?_insert_self ..⟩
  · obtain ⟨out, hout⟩ := h id t ((hother id hid).symm.trans htask) hterminal
    exact ⟨out, (Table.get?_insert_ne hid).trans hout⟩

theorem apply (h : b.Recorded) {e : BrokerEffect J} (hen : e.Enabled T b) (hloud : ¬ e.Silent) :
    (e.apply b).Recorded := by
  cases e with
  | quiet =>
    intro id t htask hterminal
    cases apply_origin hen.1 htask with
    | kept hold => exact h id t hold hterminal
    | admitted he =>
      subst he
      have hstate : t.state = .queued := hen.1.2.2
      rw [hstate] at hterminal
      cases hterminal
    | expired _ _ he =>
      subst he
      exact absurd trivial hloud
    | begun _ _ _ hnew =>
      subst hnew
      cases hterminal
    | moved _ _ he _ hnew =>
      subst he hnew
      exact absurd hterminal hloud
  | finished _ _ o =>
    refine h.insert o fun id hid => ?_
    rw [apply_tasks hen.1]
    exact if_neg hid
  | noted => exact h.insert .canceled fun id _ => rfl

theorem chain (h : b.Recorded) {es : List (BrokerEffect J)} (hchain : BrokerChain T b es b')
    (hloud : ∀ e ∈ es, ¬ e.Silent) : b'.Recorded :=
  Guarded.Chain.invariant (P := Recorded) (fun e => ¬ e.Silent)
    (fun _ _ hloud h hen => Recorded.apply h hen hloud) hchain hloud h

end TaskRpcBroker.Recorded

/-- No task that the operation may let time out has reached its deadline. -/
def BrokerOp.OnTime (b : TaskRpcBroker J) (op : BrokerOp J) : Prop :=
  op.Expires → ∀ id, op.Touches b id → ¬ Overdue b.scheduler op.nowMs id

theorem BrokerOp.OnTime.of_not {op : BrokerOp J} (h : ¬ op.Expires) : op.OnTime b :=
  fun hexpires => absurd hexpires h

theorem TaskRpcBroker.Recorded.perform (h : b.Recorded) (hsound : b.Sound T) {op : BrokerOp J}
    (hontime : op.OnTime b) : (b.perform T op).2.Recorded := by
  obtain ⟨_, hperformed⟩ := performed hsound.scheduler op
  refine h.chain hperformed.chain fun e he hsilent => ?_
  obtain ⟨hexpires, hoverdue⟩ := hperformed.silent e he hsilent
  exact hontime hexpires e.id (hperformed.touches e he) hoverdue

/-- In a run whose operations find no task overdue, the finished tasks are those with an
outcome, and the outcome is of the kind of the state. -/
theorem finished_tasks_have_outcomes {capacity : ℕ} {b₀ : TaskRpcBroker J}
    (hnew : new capacity = .ok b₀) (ops : List (BrokerOp J))
    (hontime : ∀ e ∈ trace (perform T) b₀ ops, e.input.OnTime e.before) :
    let b := run (perform T) b₀ ops
    (∀ id t, b.scheduler.tasks.get? id = some t →
      (t.state.isTerminal = true ↔ ∃ o, b.outcomes.get? id = some o)) ∧
    (∀ id o, b.outcomes.get? id = some o →
      ∃ t, b.scheduler.tasks.get? id = some t ∧ o.Fits t.state) := by
  have hinit : b₀.Sound T ∧ b₀.Recorded := by
    refine ⟨new_sound hnew, ?_⟩
    simp only [new, Scheduler.new, bind_ok, pure_ok] at hnew
    obtain ⟨-, ⟨-, -, rfl⟩, rfl⟩ := hnew
    simp [Recorded]
  obtain ⟨hsound, hrecorded⟩ := run_invariant_of (perform T) b₀
    (P := fun b => b.Sound T ∧ b.Recorded)
    (fun _ op hontime h => ⟨h.1.perform op, h.2.perform h.1 hontime⟩) hinit hontime
  refine ⟨fun id t htask => ⟨hrecorded id t htask, ?_⟩, ?_⟩
  · rintro ⟨o, hout⟩
    obtain ⟨_, ht, hterminal, -⟩ := hsound.outcomes id o hout
    obtain rfl := Option.mem_unique ht htask
    exact hterminal
  · intro id o hout
    obtain ⟨t, htask, -, hfits⟩ := hsound.outcomes id o hout
    exact ⟨t, htask, hfits⟩

def deadlineTask (id : TaskId) (deadlineMs : UInt64) : Task Unit :=
  { plainTask id with deadlineMs := some deadlineMs }

def dueBroker : TaskRpcBroker Unit :=
  ⟨Scheduler.admitted ⟨2, [], ∅, ∅, ∅⟩ ((deadlineTask 1 10).in .queued), ∅⟩

theorem enqueue_due : perform unitTexts ⟨⟨2, [], ∅, ∅, ∅⟩, ∅⟩ (.enqueue (deadlineTask 1 10)) =
      (.enqueued (.ok ()), dueBroker) := by
  have htask : Deliverable unitTexts (deadlineTask 1 10) := (plainTask_deliverable 1).of_eq rfl rfl
  rw [perform, enqueue_admits _ rfl htask rfl (by decide)]
  rfl

/-- Task 1 is finished by its worker after its deadline. -/
def finishedRun : List (BrokerOp Unit) :=
  [.enqueue (deadlineTask 1 10), .handle 0 (.new (.claim 1 "w" 1000 1)),
    .handle 20 (.new (.commit 2 firstToken (.completed ())))]

theorem due_claim_on_time : BrokerOp.OnTime dueBroker (.handle 0 (.new (.claim 1 "w" 1000 1))) := by
  rintro - id (hid | ⟨active, hactive, -⟩) ⟨t, htask, hdue⟩
  · obtain rfl : id = 1 := List.mem_singleton.mp hid
    obtain rfl := Option.some.inj htask
    exact absurd hdue (by decide)
  · cases hactive

theorem finished_run_has_outcomes :
    let b := run (perform unitTexts) ⟨⟨2, [], ∅, ∅, ∅⟩, ∅⟩ finishedRun
    b.outcomes.get? 1 = some (.completed ()) ∧
    ∀ id t, b.scheduler.tasks.get? id = some t →
      (t.state.isTerminal = true ↔ ∃ o, b.outcomes.get? id = some o) := by
  have hontime : ∀ e ∈ trace (perform unitTexts) ⟨⟨2, [], ∅, ∅, ∅⟩, ∅⟩ finishedRun,
      e.input.OnTime e.before := by
    simp only [finishedRun, trace_cons, trace_nil, List.forall_mem_cons, entry, enqueue_due]
    exact ⟨.of_not id, due_claim_on_time, .of_not id, by simp⟩
  refine ⟨?_, (finished_tasks_have_outcomes (show new 2 = .ok _ from rfl) finishedRun hontime).1⟩
  rw [finishedRun, run_cons, enqueue_due]
  decide +kernel

/-- A claim, a release, a requeue and a disconnect time an overdue task out and store no
outcome. -/
theorem overdue_tasks_without_outcome :
    let b := (perform unitTexts ⟨⟨2, [], ∅, ∅, ∅⟩, ∅⟩ (.enqueue (deadlineTask 1 10))).2
    let claimed := (b.perform unitTexts (.handle 0 (.new (.claim 1 "w" 15 1)))).2
    ∀ b' ∈ [(b.perform unitTexts (.handle 20 (.new (.claim 1 "w" 1000 1)))).2,
        (claimed.perform unitTexts (.handle 12 (.new (.release 2 firstToken)))).2,
        (claimed.perform unitTexts (.requeueExpired 20 1)).2,
        (claimed.perform unitTexts (.disconnectWorker "w" 12)).2],
      (b'.scheduler.tasks.get? 1).map (fun t => t.state) = some .timedOut ∧
        b'.outcomes.get? 1 = none := by
  rw [enqueue_due]
  decide +kernel

/-- The task is stored under its id, in whatever state and attempt. -/
def Scheduler.Keeps (s : Scheduler J) (t : Task J) : Prop :=
  ∃ state attempt, s.tasks.get? t.info.id = some { t with state, attempt }

theorem Scheduler.Keeps.apply {s : Scheduler J} {t : Task J} (h : s.Keeps t) {e : Effect J}
    (hen : e.Enabled s) : (e.apply s).Keeps t := by
  obtain ⟨state, attempt, htask⟩ := h
  unfold Keeps
  rw [apply_tasks hen]
  split
  · rename_i hid
    rw [htask]
    cases e with
    | admitted =>
      rw [hid] at htask
      cases hen.1.symm.trans htask
    | granted | renewed => exact ⟨state, attempt, rfl⟩
    | expired | begun | moved => exact ⟨_, _, rfl⟩
  · exact ⟨state, attempt, htask⟩

/-- A task that the broker has accepted is never lost: whatever the clients, the workers and the
clock do, the broker holds it with the data it was enqueued with. -/
theorem accepted_tasks_kept {capacity : ℕ} {b₀ : TaskRpcBroker J} (hnew : new capacity = .ok b₀)
    (ops later : List (BrokerOp J)) {t : Task J}
    (haccepted : ((run (perform T) b₀ ops).enqueue T t).1 = .ok ()) :
    (run (perform T) b₀ (ops ++ .enqueue t :: later)).scheduler.Keeps t := by
  have hsound : (run (perform T) b₀ ops).Sound T := (new_sound hnew).run ops
  rw [run_append, run_cons]
  generalize run (perform T) b₀ ops = b at haccepted hsound ⊢
  refine (hsound.perform (.enqueue t)).run_keeps (P := fun b => b.scheduler.Keeps t) ?_ ?_
    later
  · change (b.enqueue T t).2.scheduler.Keeps t
    unfold enqueue at haccepted ⊢
    split at haccepted
    · cases haccepted
    rcases enqueue_cases b.scheduler t with ⟨_, herror⟩ | ⟨-, hadmitted⟩
    · rw [herror] at haccepted
      cases haccepted
    · rw [hadmitted]
      exact ⟨.queued, t.attempt, Table.get?_insert_self ..⟩
  · intro b e _ h hen
    cases e with
    | quiet => exact h.apply hen.1
    | finished => exact h.apply hen.1
    | noted => exact h

theorem accepted_task_kept_claimed :
    (run (perform unitTexts) ⟨⟨1, [], ∅, ∅, ∅⟩, ∅⟩ claimedRun).scheduler.Keeps (plainTask 1) :=
  accepted_tasks_kept (show new 1 = .ok _ from rfl) [] _ (congrArg Prod.fst
    (enqueue_admits _ rfl (plainTask_deliverable 1) rfl (by decide)))

end Tysel.Tasks
