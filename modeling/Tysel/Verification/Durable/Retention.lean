import Mathlib.Data.Finset.Card
import Mathlib.Data.Prod.Lex
import Tysel.Verification.Durable.Fencing

/-! `prune_completed` deletes a front part of the old completions in their order, within its row
and byte budgets, with all rows of their tasks and nothing else. A completed task is never
pending in a reachable store, so no candidate is skipped, a pass over a nonempty list deletes
at least one task, and repeated passes empty it. -/

namespace Tysel.Durable

open List Table Except Db

variable {J : Type} {S : Crates J} {db db' : Db} {t : TaskId}

/-- No table holds a row of the task. -/
structure Db.Absent (db : Db) (t : TaskId) : Prop where
  program : db.programs.get? t = none
  events : db.eventsOf t = []
  history : db.historyStats.get? t = none
  inbox : db.inboxOf t = []
  completion : db.completions.get? t = none
  execution : db.executions.get? t = none
  receipts : db.receiptsOf t = []
  wakeup : db.wakeups.get? t = none
  wait : db.signalWaits.get? t = none

structure Untouched (db db' : Db) (t : TaskId) : Prop extends SameRows db db' t where
  history : db'.historyStats.get? t = db.historyStats.get? t
  inbox : db'.inboxOf t = db.inboxOf t

theorem Untouched.refl (db : Db) (t : TaskId) : Untouched db db t := ⟨.refl db t, rfl, rfl⟩

theorem Untouched.trans {db'' : Db} (h : Untouched db db' t) (h' : Untouched db' db'' t) :
    Untouched db db'' t :=
  ⟨h.toSameRows.trans h'.toSameRows, h'.history.trans h.history, h'.inbox.trans h.inbox⟩

theorem Db.Absent.of_untouched (h : db.Absent t) (hsame : Untouched db db' t) : db'.Absent t where
  program := hsame.program.trans h.program
  events := hsame.events.trans h.events
  history := hsame.history.trans h.history
  inbox := hsame.inbox.trans h.inbox
  completion := hsame.completion.trans h.completion
  execution := hsame.execution.trans h.execution
  receipts := hsame.receipts.trans h.receipts
  wakeup := hsame.wakeup.trans h.wakeup
  wait := hsame.wait.trans h.wait

theorem filter_filter_self {ρ : Type} (f : ρ → TaskId) (rows : List ρ) :
    (rows.filter fun row => f row ≠ t).filter (fun row => f row = t) = [] := by
  rw [filter_filter, filter_eq_nil_iff]
  simp

theorem deleteTask_untouched {u : TaskId} (h : t ≠ u) : Untouched db (db.deleteTask u) t where
  program := get?_erase_ne h
  events := filter_filter_ne (fun _ => of_decide_eq_true) h _
  history := get?_erase_ne h
  inbox := filter_filter_ne (fun _ => of_decide_eq_true) h _
  completion := get?_erase_ne h
  execution := get?_erase_ne h
  receipts := filter_filter_ne (fun _ => of_decide_eq_true) h _
  wakeup := rfl
  wait := rfl

theorem pending_eq_false :
    db.pending t = false ↔ db.wakeups.get? t = none ∧ db.signalWaits.get? t = none := by
  simp [pending]

theorem deleteTask_absent (h : db.pending t = false) : (db.deleteTask t).Absent t where
  program := get?_erase_self _ _
  events := filter_filter_self EventRow.taskId db.events
  history := get?_erase_self _ _
  inbox := filter_filter_self InboxRow.taskId db.signalInbox
  completion := get?_erase_self _ _
  execution := get?_erase_self _ _
  receipts := filter_filter_self ReceiptRow.taskId db.signalReceipts
  wakeup := (pending_eq_false.mp h).1
  wait := (pending_eq_false.mp h).2

def Db.deleteTasks (db : Db) (tasks : List TaskId) : Db := tasks.foldl deleteTask db

theorem deleteTasks_untouched (tasks : List TaskId) (h : t ∉ tasks) :
    Untouched db (db.deleteTasks tasks) t := by
  induction tasks generalizing db with
  | nil => exact .refl db t
  | cons _ _ ih =>
    rw [mem_cons, not_or] at h
    exact (deleteTask_untouched h.1).trans (ih h.2)

theorem deleteTasks_absent {tasks : List TaskId} (hmem : t ∈ tasks)
    (hpending : db.pending t = false) : (db.deleteTasks tasks).Absent t := by
  induction tasks generalizing db with
  | nil => cases hmem
  | cons u tasks ih =>
    by_cases hlater : t ∈ tasks
    · have hstays : (db.deleteTask u).pending t = false := hpending
      exact ih hlater hstays
    · obtain rfl : t = u := by simpa [hlater] using hmem
      exact (deleteTask_absent hpending).of_untouched (deleteTasks_untouched tasks hlater)

theorem deleteTasks_counters (db : Db) (tasks : List TaskId) :
    (db.deleteTasks tasks).programStats = db.programStats ∧
      (db.deleteTasks tasks).inboxSequence = db.inboxSequence ∧
      (db.deleteTasks tasks).schemaVersion = db.schemaVersion := by
  induction tasks generalizing db with
  | nil => exact ⟨rfl, rfl, rfl⟩
  | cons u _ ih => exact ih (db.deleteTask u)

/-- The loop deletes a front part of its candidates. It stops early only after a deletion, and
the bytes stay within the budget unless it deletes a single task. -/
theorem pruneLoop_front (candidates : List (TaskId × ℕ)) (deleted bs : ℕ) (db : Db)
    (hpending : ∀ c ∈ candidates, db.pending c.1 = false)
    (hbudget : bs ≤ maxHistoryBytes ∨ deleted ≤ 1) : ∃ front rest, candidates = front ++ rest ∧
      pruneLoop candidates deleted bs db =
        (deleted + front.length, db.deleteTasks (front.map Prod.fst)) ∧
      (bs + (front.map Prod.snd).sum ≤ maxHistoryBytes ∨ deleted + front.length ≤ 1) ∧
      (rest ≠ [] → 0 < deleted + front.length) := by
  induction candidates generalizing deleted bs db with
  | nil => exact ⟨[], [], rfl, rfl, by simpa using hbudget, by simp⟩
  | cons candidate _ ih =>
    obtain ⟨t, retained⟩ := candidate
    unfold pruneLoop
    split
    · rename_i hstop
      exact ⟨[], _, rfl, rfl, by simpa using hbudget, fun _ => by simpa using hstop.1⟩
    rw [if_neg (by simp [hpending _ (mem_cons_self ..)])]
    obtain ⟨front, rest, rfl, hloop, _, _⟩ := ih (deleted + 1)
      (bs + retained) (db.deleteTask t)
      (fun c hc => hpending c (mem_cons_of_mem _ hc)) (by omega)
    refine ⟨(t, retained) :: front, rest, rfl, ?_, ?_, ?_⟩
    · rw [hloop, length_cons]
      exact Prod.ext (by dsimp only; omega) rfl
    · rw [map_cons, sum_cons, length_cons]
      omega
    · intro _
      rw [length_cons]
      omega

theorem completionOrder_iff {a b : TaskId × CompletionRow} :
    completionOrder a b ↔ toLex (a.2.completedAtMs, a.1) ≤ toLex (b.2.completedAtMs, b.1) := by
  rw [completionOrder, Prod.Lex.toLex_le_toLex]

instance : Std.Total completionOrder where
  total a b := by
    rw [completionOrder_iff, completionOrder_iff]
    exact le_total _ _

instance : IsTrans (TaskId × CompletionRow) completionOrder where
  trans a b c := by
    rw [completionOrder_iff, completionOrder_iff, completionOrder_iff]
    exact le_trans

def Db.oldCompletions (db : Db) (beforeMs : ℕ) : List (TaskId × CompletionRow) :=
  ((db.completions.entries.filter fun e => e.2.completedAtMs < beforeMs).map
    fun e => (e.1, e.2)).insertionSort completionOrder

variable {before limit : ℕ}

theorem mem_oldCompletions {row : CompletionRow} : (t, row) ∈ db.oldCompletions before ↔
      db.completions.get? t = some row ∧ row.completedAtMs < before := by
  simp only [oldCompletions, mem_insertionSort, mem_map, mem_filter,
    Prod.mk.injEq, decide_eq_true_eq]
  constructor
  · rintro ⟨⟨_, _⟩, ⟨hentry, hold⟩, rfl, rfl⟩
    exact ⟨mem_entries.mp hentry, hold⟩
  · rintro ⟨hr, hold⟩
    exact ⟨⟨t, row⟩, ⟨mem_entries.mpr hr, hold⟩, rfl, rfl⟩

theorem oldCompletions_nodup : ((db.oldCompletions before).map Prod.fst).Nodup := by
  have hkeys : (db.completions.entries.map Sigma.fst).Nodup := db.completions.nodupKeys
  refine (((perm_insertionSort completionOrder _).map _).nodup_iff).mpr ?_
  rw [map_map]
  exact hkeys.sublist (filter_sublist.map _)

def Db.oldTasks (db : Db) (beforeMs : ℕ) : Finset TaskId :=
  ((db.oldCompletions beforeMs).map Prod.fst).toFinset

theorem mem_oldTasks : t ∈ db.oldTasks before ↔
    ∃ row, db.completions.get? t = some row ∧ row.completedAtMs < before := by
  simp only [oldTasks, mem_toFinset, mem_map]
  constructor
  · rintro ⟨⟨_, row⟩, hmem, rfl⟩
    exact ⟨row, mem_oldCompletions.mp hmem⟩
  · rintro ⟨row, hr⟩
    exact ⟨(t, row), mem_oldCompletions.mpr hr, rfl⟩

/-- The completions that a pass deletes, in order: old ones, before all old ones that stay, and
within the row and byte budgets. Their tasks disappear from every table, and nothing else
changes. -/
structure Pruned (db db' : Db) (beforeMs limit : ℕ) (front : List (TaskId × CompletionRow)) :
    Prop where
  old : ∀ e ∈ front, db.completions.get? e.1 = some e.2 ∧ e.2.completedAtMs < beforeMs
  nodup : (front.map Prod.fst).Nodup
  sorted : front.Pairwise completionOrder
  before : ∀ e ∈ front, ∀ t row, db.completions.get? t = some row →
    row.completedAtMs < beforeMs → t ∉ front.map Prod.fst → completionOrder e (t, row)
  count : front.length ≤ min limit maxPruneBatch
  bytes : (front.map fun e => db.retainedBytes e.1 e.2).sum ≤ maxHistoryBytes ∨ front.length ≤ 1
  absent : ∀ t ∈ front.map Prod.fst, db'.Absent t
  others : ∀ t ∉ front.map Prod.fst, Untouched db db' t
  programStats : db'.programStats = db.programStats
  inboxSequence : db'.inboxSequence = db.inboxSequence
  schemaVersion : db'.schemaVersion = db.schemaVersion

theorem Pruned.empty (db : Db) (before limit : ℕ) : Pruned db db before limit [] where
  old := by simp
  nodup := .nil
  sorted := .nil
  before := by simp
  count := by simp
  bytes := by simp
  absent := by simp
  others t _ := .refl db t
  programStats := rfl
  inboxSequence := rfl
  schemaVersion := rfl

variable {front rest : List (TaskId × CompletionRow)}

theorem oldCompletions_before (hsplit : db.oldCompletions before = front ++ rest) :
    ∀ e ∈ front, ∀ t row, db.completions.get? t = some row → row.completedAtMs < before →
      t ∉ front.map Prod.fst → completionOrder e (t, row) := by
  intro e he t row hr hold hout
  have hsorted : (front ++ rest).Pairwise completionOrder := by
    rw [← hsplit]
    exact pairwise_insertionSort completionOrder _
  have hmem : (t, row) ∈ front ++ rest := by
    rw [← hsplit]
    exact mem_oldCompletions.mpr ⟨hr, hold⟩
  rcases mem_append.mp hmem with hfront | hrest
  · exact absurd (mem_map.mpr ⟨_, hfront, rfl⟩) hout
  · exact (pairwise_append.mp hsorted).2.2 e he _ hrest

/-- A front part of the old completions within the budgets is a correct choice of what to
delete. -/
theorem Pruned.of_split (hclosed : db.ClosedOk) (hsplit : db.oldCompletions before = front ++ rest)
    (hcount : front.length ≤ min limit maxPruneBatch)
    (hbytes : (front.map fun e => db.retainedBytes e.1 e.2).sum ≤ maxHistoryBytes ∨
      front.length ≤ 1) : Pruned db (db.deleteTasks (front.map Prod.fst)) before limit front := by
  have hold : ∀ e ∈ front,
      db.completions.get? e.1 = some e.2 ∧ e.2.completedAtMs < before := fun e he =>
    mem_oldCompletions.mp (by rw [hsplit]; exact mem_append_left _ he)
  have hsub : front.Sublist (db.oldCompletions before) := by
    rw [hsplit]
    exact sublist_append_left ..
  obtain ⟨hstats, hinbox, hversion⟩ := deleteTasks_counters db (front.map Prod.fst)
  refine ⟨hold, oldCompletions_nodup.sublist (hsub.map _),
    (pairwise_insertionSort completionOrder _).sublist hsub,
    oldCompletions_before hsplit, hcount, hbytes, fun t htask => ?_,
    fun t htask => deleteTasks_untouched _ htask, hstats, hinbox, hversion⟩
  obtain ⟨e, he, rfl⟩ := mem_map.mp htask
  have hr := hclosed _ _ (hold e he).1
  exact deleteTasks_absent htask (pending_eq_false.mpr ⟨hr.wakeup, hr.wait⟩)

/-- A pass over a store whose completed tasks are not pending. It deletes nothing only if
nothing is old. -/
theorem pruneCompleted_pruned (before limit : ℕ) (hclosed : db.ClosedOk)
    (hbefore : before < 2 ^ 63 ∨ limit = 0) :
    ∃ front db', pruneCompleted db before limit = .ok (front.length, db') ∧
      Pruned db db' before limit front ∧
      (limit ≠ 0 → front = [] → db.oldCompletions before = []) := by
  by_cases hlimit : limit = 0
  · subst hlimit
    exact ⟨[], db, if_pos rfl, .empty db before 0, fun h => absurd rfl h⟩
  have hpending : ∀ c ∈ db.pruneCandidates before limit, db.pending c.1 = false := by
    intro c hc
    obtain ⟨_, he, rfl⟩ := mem_map.mp hc
    have hr := hclosed _ _ (mem_oldCompletions.mp (mem_of_mem_take he)).1
    exact pending_eq_false.mpr ⟨hr.wakeup, hr.wait⟩
  obtain ⟨candidates, _, hcandidates, hloop, hbytes, hstop⟩ :=
    pruneLoop_front _ 0 0 db hpending (.inl (Nat.zero_le _))
  obtain ⟨front, rest, hfront, rfl, rfl⟩ := map_eq_append_iff.mp hcandidates
  have htake : (db.oldCompletions before).take (min limit maxPruneBatch) = front ++ rest := hfront
  have hsplit := (take_append_drop (min limit maxPruneBatch) (db.oldCompletions before)).symm
  rw [htake, append_assoc] at hsplit
  simp only [length_map, map_map, Nat.zero_add] at hloop hbytes hstop
  refine ⟨front, _, ?_, .of_split hclosed hsplit ?_ hbytes, fun _ hnil => ?_⟩
  · unfold pruneCompleted
    rw [if_neg hlimit, toSqlInteger_of_lt _ (hbefore.resolve_right hlimit)]
    exact congrArg ok hloop
  · have hlength := congrArg length htake
    rw [length_take, length_append] at hlength
    omega
  -- A pass that deletes nothing has visited all candidates, so there were none.
  subst hnil
  have hrest : rest = [] := by
    by_contra hne
    exact absurd (hstop (by simpa using hne)) (by simp)
  rw [hrest] at htake
  have hmax : 0 < min limit maxPruneBatch := by
    have : 0 < maxPruneBatch := by decide
    omega
  exact (take_eq_nil_iff.mp htake).resolve_left (by omega)

theorem Pruned.oldTasks_ssubset (h : Pruned db db' before limit front) (hne : front ≠ []) :
    db'.oldTasks before ⊂ db.oldTasks before := by
  obtain ⟨e, tail, rfl⟩ := exists_cons_of_ne_nil hne
  refine Finset.ssubset_iff_of_subset (fun t htask => ?_) |>.mpr ⟨e.1, ?_, ?_⟩
  · obtain ⟨row, hr, hold⟩ := mem_oldTasks.mp htask
    by_cases hin : t ∈ (e :: tail).map Prod.fst
    · rw [(h.absent t hin).completion] at hr
      cases hr
    · rw [(h.others t hin).completion] at hr
      exact mem_oldTasks.mpr ⟨row, hr, hold⟩
  · exact mem_oldTasks.mpr ⟨e.2, h.old e (mem_cons_self ..)⟩
  · intro hmem
    obtain ⟨_, hr, -⟩ := mem_oldTasks.mp hmem
    rw [(h.absent e.1 (mem_map_of_mem (mem_cons_self ..))).completion] at hr
    cases hr

theorem call_pruned (ops : List (Op J)) (hbefore : before < 2 ^ 63 ∨ limit = 0) :
    ∃ front db', call S (after S fresh ops) (.pruneCompleted before limit) =
        (.ok (.count front.length), db') ∧ Pruned (after S fresh ops) db' before limit front ∧
      (limit ≠ 0 → front = [] → (after S fresh ops).oldCompletions before = []) := by
  obtain ⟨front, db', hok, hpruned, hempty⟩ :=
    pruneCompleted_pruned before limit (sound_after ops).closed hbefore
  refine ⟨front, db', call_of_ok ?_, hpruned, hempty⟩
  simp only [perform, hok]
  rfl

/-- As long as something is old a pass deletes something, so one of the passes finds nothing. -/
theorem passes_end (ops : List (Op J)) (hbefore : before < 2 ^ 63) :
    ∃ k, (call S (after S fresh (ops ++ replicate k (.pruneCompleted before limit)))
        (.pruneCompleted before limit)).1 = .ok (.count 0) := by
  induction hcard : ((after S fresh ops).oldTasks before).card using Nat.strong_induction_on
    generalizing ops with
  | _ _ ih =>
    obtain ⟨front, db', hcall, hpruned, -⟩ := call_pruned ops (.inl hbefore)
    by_cases hfront : front = []
    · subst hfront
      exact ⟨0, by rw [replicate_zero, append_nil, hcall]; rfl⟩
    have hnext : after S fresh (ops ++ [.pruneCompleted before limit]) = db' := by
      rw [after_append]
      exact congrArg Prod.snd hcall
    have hless := Finset.card_lt_card (hpruned.oldTasks_ssubset hfront)
    rw [← hnext, hcard] at hless
    obtain ⟨k, hzero⟩ := ih _ hless _ rfl
    refine ⟨k + 1, ?_⟩
    rwa [append_assoc, singleton_append, ← replicate_succ] at hzero

/-- The property of the retention pass: every pass over a reachable store deletes a front part of
the old completions within its budgets and nothing else, and answers their number; repeated
passes come to an answer of zero, and no old completion is left then. -/
theorem prune_deletes_what_it_may (S : Crates J) (ops : List (Op J)) (before limit : ℕ)
    (hbefore : before < 2 ^ 63) :
    (∃ front db', call S (after S fresh ops) (.pruneCompleted before limit) =
        (.ok (.count front.length), db') ∧ Pruned (after S fresh ops) db' before limit front) ∧
    (1 ≤ limit →
      (∃ k, (call S (after S fresh (ops ++ List.replicate k (.pruneCompleted before limit)))
        (.pruneCompleted before limit)).1 = .ok (.count 0)) ∧
      ∀ k, (call S (after S fresh (ops ++ List.replicate k (.pruneCompleted before limit)))
          (.pruneCompleted before limit)).1 = .ok (.count 0) → ∀ t row, (after S fresh
            (ops ++ List.replicate k (.pruneCompleted before limit))).completions.get? t =
          some row → before ≤ row.completedAtMs) := by
  refine ⟨?_, fun hlimit => ⟨?_, fun k hzero t row hr => ?_⟩⟩
  · obtain ⟨front, db', hcall, hpruned, -⟩ := call_pruned ops (.inl hbefore)
    exact ⟨front, db', hcall, hpruned⟩
  · exact passes_end ops hbefore
  obtain ⟨_, _, hcall, -, hempty⟩ := call_pruned
    (ops ++ replicate k (.pruneCompleted before limit)) (.inl hbefore)
  rw [hcall] at hzero
  simp only [ok.injEq, Reply.count.injEq, length_eq_zero_iff] at hzero
  by_contra hold
  have hmem := mem_oldCompletions.mpr ⟨hr, not_le.mp hold⟩
  rw [hempty (by omega) hzero] at hmem
  cases hmem

def twoCompleted : List (Op Bool) :=
  [.putProgram 7 .module "42" 0, .finishTask none 7 0 true 9 none ⟨0, 0, 0, 0⟩,
    .putProgram 8 .module "43" 0, .finishTask none 8 0 true 5 none ⟨0, 0, 0, 0⟩]

theorem prune_deletes_what_it_may_two : 10 < 2 ^ 63 ∧ ∃ front db',
      call bools (after bools fresh twoCompleted) (.pruneCompleted 10 200) =
        (.ok (.count front.length), db') ∧ front.length = 2 ∧
      Pruned (after bools fresh twoCompleted) db' 10 200 front := by
  obtain ⟨⟨front, db', hcall, hpruned⟩, -⟩ :=
    prune_deletes_what_it_may bools twoCompleted 10 200 (by decide)
  have hreply : (call bools (after bools fresh twoCompleted)
      (.pruneCompleted 10 200)).1 = .ok (.count 2) := rfl
  rw [hcall] at hreply
  simp only [ok.injEq, Reply.count.injEq] at hreply
  exact ⟨by decide, front, db', hcall, hreply, hpruned⟩

/-- A cutoff that is no SQL integer is rejected, and the old completions stay. -/
theorem large_cutoff_not_pruned :
    call bools (after bools fresh twoCompleted) (.pruneCompleted (2 ^ 63) 1) =
        (.error (.integerRange "before_ms"), after bools fresh twoCompleted) ∧
      (after bools fresh twoCompleted).completions.get? 8 = some ⟨0, "true", 5⟩ :=
  ⟨rfl, rfl⟩

end Tysel.Durable
