import Tysel.Verification.Durable.Postgres.Mirror
import Tysel.Verification.Durable.Fencing
import Tysel.Verification.Durable.Quota

/-! The PostgreSQL store decodes a due program before it counts its bytes; the order does not show
on a valid catalog. The statements of a completion run in another order, and the retention pass
uses one transaction per task. -/

namespace Tysel.Durable

open List Option Db Table PostgresDb Postgres

variable {J : Type} {S : Crates J} {nv : ℕ → ℕ}
variable {R : DurableError → DurableError → Prop} {pg : PostgresDb} {db : Db} {task : TaskId}

theorem selectProgramStats_related (h : pg.Mirrors nv db) (hopen : db.Opened) :
    Related R Eq (selectProgramStats db) (Postgres.selectProgramStats pg) := by
  obtain ⟨stats, hstats⟩ := isSome_iff_exists.mp hopen.stats
  have hpg : Postgres.selectProgramStats pg = .ok stats := by
    unfold Postgres.selectProgramStats
    rw [h.tables, show (db.rename nv).programStats = some stats from hstats]
  rw [selectProgramStats_ok.mpr hstats, hpg]
  exact .ok rfl

theorem dischargeProgram_mirrors (h : pg.Mirrors nv db) {bs : ℕ}
    (hcharged : db.ProgramCharged bs) : ∃ pg', dischargeProgram pg bs = .ok pg' ∧
      pg'.Mirrors nv (db.discharge bs) ∧ pg'.taskLocks = pg.taskLocks := by
  obtain ⟨locks, rfl⟩ := h.eq
  unfold Postgres.dischargeProgram
  have hget : (db.rename nv).programStats = db.programStats := rfl
  cases hstats : db.programStats with
  | none =>
    have hsame : db.discharge bs = db := by
      obtain ⟨⟩ := db
      simp_all [discharge]
    refine ⟨⟨db.rename nv, locks⟩, ?_, ?_, rfl⟩
    · simp only [hget, hstats]
    · rw [hsame]
      exact h
  | some s =>
    refine ⟨write ⟨db.rename nv, locks⟩ ((db.discharge bs).rename nv), ?_, h.write rfl rfl, rfl⟩
    simp only [hstats, hcharged s hstats, and_self, if_true, discharge, rename, map_some]

theorem putProgramInner_related (hR : ∀ e, R e e) (h : pg.Mirrors nv db) (hopen : db.Opened)
    (task : TaskId) (kind : DurableProgramKind) (source : String) (time : ℕ) :
    Related R (Matches nv id) (putProgramInner S db task kind source time)
      (Postgres.putProgramInner S pg task kind source time) := by
  have hstats := fun task => selectProgramStats_related (R := R) (h.lockRow task) hopen
  obtain ⟨locks, rfl⟩ := h.eq
  refine .same hR fun _ _ => .same hR fun time' _ => ?_
  rw [lockTask_bind]
  refine .same hR fun _ _ => .same hR fun existing _ => ?_
  cases existing with
  | some => exact .same hR fun _ _ => .ok ⟨rfl, h.lockRow task⟩
  | none =>
    refine (hstats task).bind ?_
    rintro _ _ - - rfl
    refine .same hR fun _ _ => .same hR fun _ _ => .ok ⟨rfl, ?_⟩
    exact (h.lockRow task).write rfl rfl

theorem removeProgram_related (hR : ∀ e, R e e) (h : pg.Mirrors nv db) (hquota : db.QuotaOk)
    (task : TaskId) : Related R (Matches nv id) (removeProgram S db task)
      (Postgres.removeProgram S pg task) := by
  have hlocked := h.lockRow task
  obtain ⟨_, rfl⟩ := h.eq
  unfold removeProgram Postgres.removeProgram
  rw [lockTask_bind]
  refine .same hR fun _ hopen => .same hR fun existing hselect => ?_
  cases existing with
  | none => exact .ok ⟨rfl, hlocked⟩
  | some =>
    obtain ⟨_, hrow, hdecode⟩ := selectProgram_eq_some.mp hselect
    obtain ⟨-, rfl⟩ := decodeProgram_ok.mp hdecode
    refine (Related.reject ?_ fun _ => hR _).bind ?_
    · change _ ↔ (db.rename nv).inUse task
      unfold inUse
      rw [inboxOf_rename]
      simp only [ne_eq, map_eq_nil_iff]
      rfl
    rintro - - - - -
    have hcharged := hquota.charged hrow (ensureOpen_ok.mp hopen)
    obtain ⟨_, hpg', hm, -⟩ := dischargeProgram_mirrors hlocked hcharged
    rw [dischargeProgram_ok.mpr ⟨hcharged, rfl⟩, hpg']
    refine .ok ⟨rfl, hm.write ?_ rfl⟩
    rw [hm.tables]
    rfl

theorem decodeRows_eq {rows : List (TaskId × ProgramRow)} (hvalid : ∀ e ∈ rows, e.2.Valid S) :
    ∀ (programs : List DurableProgram) (total : ℕ),
      programs.length + rows.length ≤ maxDurablePrograms →
        decodeRows S rows programs total = decodeProgramRows S rows programs total := by
  induction rows with
  | nil => intros; rfl
  | cons e _ ih =>
    obtain ⟨task, row⟩ := e
    intro programs total hlen
    have hrow := hvalid _ (mem_cons_self ..)
    have hdecode : decodeProgram S task row = .ok _ := decodeProgram_ok.mpr ⟨hrow, rfl⟩
    have hsource := validateProgramSource_ok (u := ()) |>.mpr ⟨hrow.nonempty, hrow.bytes⟩
    simp only [length_cons] at hlen
    have hroom : ¬ maxDurablePrograms ≤ programs.length := by omega
    simp only [decodeRows, decodeProgramRows, hdecode, hsource, reject_of_not _ hroom, ok_bind]
    refine congrArg (reject _ _ >>= ·) (funext fun _ => ?_)
    refine ih (fun e he => hvalid e (mem_cons_of_mem _ he)) _ _ ?_
    simp only [length_append, length_singleton]
    omega

theorem loadDueProgramsBatch_eq (h : pg.Mirrors nv db) (hvalid : db.ProgramsValid S)
    (nowMs : ℕ) (kind : DurableProgramKind) (limit : ℕ) :
    Postgres.loadDueProgramsBatch S pg nowMs kind limit =
      loadDueProgramsBatch S db nowMs kind limit := by
  unfold Postgres.loadDueProgramsBatch loadDueProgramsBatch
  rw [h.tables]
  refine congrArg (toSqlInteger nowMs "now_ms" >>= ·) (funext fun now => ?_)
  have hlen : (((db.duePrograms now kind).insertionSort dueOrder).take
      (min limit maxDurablePrograms)).length ≤ maxDurablePrograms := by
    rw [length_take]
    omega
  refine (congrArg (· >>= _) (reject_of_not _ (Nat.not_lt.mpr hlen))).trans ?_
  refine decodeRows_eq ?_ [] 0 (by simp)
  intro e he
  obtain ⟨d, hd, rfl⟩ := mem_map.mp he
  have hdue : d ∈ db.duePrograms now kind := (mem_insertionSort dueOrder).mp (mem_of_mem_take hd)
  obtain ⟨e, -, he⟩ := mem_filterMap.mp hdue
  cases hrow : db.programs.get? e.2 with
  | none => simp [hrow] at he
  | some =>
    simp only [hrow] at he
    split at he
    · obtain rfl := some.inj he
      exact hvalid _ _ hrow
    · cases he

section Append

variable (hR : ∀ e, R e e) (h : pg.Mirrors nv db) {ex : Option ExecutionClaim}
  {task : TaskId} (hlock : ex.isSome → task ∉ pg.taskLocks → ∀ e, R e .postgres)
  (exp : ℕ) (t₁ t₂ : ℤ)

include hR h hlock

theorem appendValidated_related (ev : NewEvent J) (payload : String) (wakeAtMs : Option ℕ) :
    Related R (Matches nv id)
      (do
        let time ← toSqlInteger ev.recordedAtMs "recorded_at_ms"
        let wake ← wakeAtMs.mapM fun v => toSqlInteger v "wake_at_ms"
        appendValidated ex db task (some exp) ev payload time wake t₁ t₂)
      (Postgres.appendValidated ex pg task exp ev payload wakeAtMs t₁ t₂) := by
  refine .same hR fun time _ => .same hR fun wake _ => ?_
  refine (guardExecution_related hR h ex task t₁ hlock).bind fun _ _ _ _ _ => ?_
  refine (insertEvent_related hR h task exp ev payload time).bind ?_
  rintro ⟨_, db'⟩ ⟨sequence, pg'⟩ - - ⟨⟨rfl, hm⟩, hmem⟩
  have hno : ex.isSome → task ∉ pg'.taskLocks → ∀ e, R e .postgres := fun _ hnot => absurd hmem hnot
  cases wake with
  | none =>
    exact (guardExecution_related hR hm ex task t₂ hno).bind
      fun _ _ _ _ _ => .ok ⟨rfl, hm⟩
  | some wake =>
    have hw : (pg'.write (pg'.tables.upsertWakeup task sequence wake)).Mirrors nv
        (db'.upsertWakeup task sequence wake) :=
      hm.write (by rw [hm.tables]; rfl) rfl
    exact (guardExecution_related hR hw ex task t₂ hno).bind
      fun _ _ _ _ _ => .ok ⟨rfl, hw⟩

theorem appendEventJsonAt_related (kind : EventKind) (key payload : String) (time : ℕ) :
    Related R (Matches nv id)
      (appendEventJsonAt S ex db task exp kind key payload time t₁ t₂)
      (Postgres.appendEventJsonAt S ex pg task exp kind key payload time t₁ t₂) := by
  refine .same hR fun ev hraw => ?_
  obtain ⟨-, -, v, -, rfl⟩ := rawEvent_ok.mp hraw
  have hvalidated := appendValidated_related hR h hlock exp t₁ t₂
    ⟨kind, key, v, time⟩ payload none
  simpa only [mapM_none, pure_bind] using hvalidated

theorem appendEventJsonWithWakeupAt_related (key payload : String) (time wakeAtMs : ℕ) :
    Related R (Matches nv id)
      (appendEventJsonWithWakeupAt S ex db task exp key payload time wakeAtMs t₁ t₂)
      (Postgres.appendEventJsonWithWakeupAt S ex pg task exp key payload time wakeAtMs t₁ t₂) := by
  refine .same hR fun ev hraw => ?_
  obtain ⟨-, -, v, -, rfl⟩ := rawEvent_ok.mp hraw
  have hvalidated := appendValidated_related hR h hlock exp t₁ t₂
    ⟨.sleep, key, v, time⟩ payload (some wakeAtMs)
  simpa only [mapM_some, bind_map_left] using hvalidated

end Append

section

variable (hR : ∀ e, R e e) (h : pg.Mirrors nv db)

include hR h

theorem admitModule_related (hopen : db.Opened) (task : TaskId) (key source input : String)
    (time : ℕ) :
    Related R (Matches nv id) (admitModule S db task key source input time)
      (Postgres.admitModule S pg task key source input time) := by
  have hlocked := h.lockRow task
  have hstats := selectProgramStats_related (R := R) hlocked hopen
  obtain ⟨locks, rfl⟩ := h.eq
  refine .same hR fun _ _ => .same hR fun ⟨hash, input⟩ _ => ?_
  have hget : (lockRow ⟨db.rename nv, locks⟩ task).tables.executions.get? task =
      db.executions.get? task := rfl
  simp only [hget]
  cases db.executions.get? task with
  | some => exact .same hR fun _ _ => .ok ⟨rfl, h⟩
  | none =>
    refine .same hR fun existing _ => .same hR fun _ _ => hstats.bind ?_
    rintro - _ - - rfl
    refine .same hR fun _ _ => .same hR fun _ _ => .same hR fun registered _ =>
      .same hR fun ev _ => ?_
    have hreg := hlocked.writeRenamed
      (db.insertProgram task ⟨.module, source, S.sha256 source, registered⟩) rfl
    refine (insertEvent_related hR hreg task 0 ev input registered).bind ?_
    rintro ⟨_, db'⟩ ⟨sequence, pg'⟩ - - ⟨⟨rfl, hm⟩, hmem'⟩
    refine .ok ⟨rfl, hm.writeExecution ?_ hmem' fun t ht => ?_⟩
    · rw [hm.tables]
      rfl
    · exact get?_insert_ne ht

theorem claimRun_related (task : TaskId) (owner : String) (duration : ℕ) (drawn : Option String)
    (t₁ t₂ : ℤ) :
    Related R (Matches nv id) (claimRun db task owner duration drawn t₁ t₂)
      (Postgres.claimRun pg task owner duration drawn t₁ t₂) := by
  have hlocked := h.lockRow task
  have hmem : task ∈ (pg.lockRow task).taskLocks := Finset.mem_insert_self ..
  obtain ⟨locks, rfl⟩ := h.eq
  refine .same hR fun token _ => .ite (fun _ => .ok ⟨rfl, h⟩) fun _ =>
    .ite (fun _ => .ok ⟨rfl, h⟩) fun _ => ?_
  refine .same hR fun clock _ => .same hR fun until_ _ => .ite (fun _ => .ok ⟨rfl, h⟩) fun _ => ?_
  refine .same hR fun generation _ => .same hR fun until_ _ => .same hR fun again _ =>
    .ite (fun _ => .ok ⟨rfl, h⟩) fun _ => .ok ⟨rfl, ?_⟩
  exact hlocked.writeExecution rfl hmem fun t ht => get?_insert_ne ht

theorem releaseRun_related (c : ExecutionClaim) (failed : Bool) (t₁ t₂ : ℤ)
    (hlock : c.taskId ∉ pg.taskLocks → ∀ e, R e .postgres) :
    Related R (Matches nv id) (releaseRun db c failed t₁ t₂)
      (Postgres.releaseRun pg c failed t₁ t₂) := by
  have hguard₁ := guardExecution_related hR h (some c) c.taskId t₁ fun _ => hlock
  obtain ⟨_, rfl⟩ := h.eq
  have hw := h.writeRenamed (db.clearWakeupLease c.taskId) rfl
  refine hguard₁.bind fun _ _ _ _ _ =>
    (guardExecution_related hR hw (some c) c.taskId t₂ fun _ => hlock).bind
      fun _ _ _ _ _ => .ok ⟨rfl, ?_⟩
  exact hw.closeExecution c.taskId _

end

theorem finishTask_related (hR : ∀ e, R e e) (h : pg.Mirrors nv db) (hquota : db.QuotaOk)
    (ex : Option ExecutionClaim) (task : TaskId) (exp : ℕ) (v : J) (time : ℕ)
    (lease : Option ℕ) (clocks : FinishClocks) : Related R (Matches nv id)
      (finishTask S ex db task exp v time lease clocks)
      (Postgres.finishTask S ex pg task exp v time lease clocks) := by
  have hlocked := h.lockRow task
  have hmem : task ∈ (pg.lockRow task).taskLocks := Finset.mem_insert_self ..
  obtain ⟨locks, rfl⟩ := h.eq
  refine .same hR fun _ _ => ?_
  have hget : (lockRow ⟨db.rename nv, locks⟩ task).tables.completions.get? task =
      db.completions.get? task := rfl
  simp only [hget]
  cases hopen : db.completions.get? task with
  | some =>
    exact .same hR fun _ _ => .same hR fun _ _ => .same hR fun _ _ => .same hR fun _ _ =>
      .ok ⟨rfl, h⟩
  | none =>
    refine (guardExecution_related hR hlocked ex task clocks.guard₁ fun _ hnot =>
      absurd hmem hnot).bind fun _ _ _ _ _ => ?_
    have hprog : (lockRow ⟨db.rename nv, locks⟩ task).tables.programs.get? task =
        db.programs.get? task := rfl
    simp only [hprog]
    cases hrow : db.programs.get? task with
    | none => exact .ok ⟨rfl, h⟩
    | some program =>
      refine .same hR fun _ _ => .same hR fun _ _ => ?_
      have hcharged := hquota.charged hrow hopen
      obtain ⟨pg', hpg', hm, hlocks⟩ := dischargeProgram_mirrors hlocked hcharged
      simp only [hpg', ok_bind]
      refine .same hR fun completedAt _ => .same hR fun completedSql _ => ?_
      have hdischarge : (db.insertCompletion task ⟨db.nextSequence task, S.toStr v,
          completedSql⟩).dischargeProgram program.source.utf8ByteSize =
            .ok ((db.discharge program.source.utf8ByteSize).insertCompletion task
              ⟨db.nextSequence task, S.toStr v, completedSql⟩) :=
        dischargeProgram_ok.mpr ⟨hcharged, rfl⟩
      rw [hdischarge, ok_bind]
      refine .same hR fun _ _ => ?_
      have hw := hm.writeRenamed ((db.discharge program.source.utf8ByteSize).insertCompletion
        task ⟨db.nextSequence task, S.toStr v, completedSql⟩) rfl
      have htables : pg'.tables.insertCompletion task ⟨db.nextSequence task, S.toStr v,
          completedSql⟩ = ((db.discharge program.source.utf8ByteSize).insertCompletion task
            ⟨db.nextSequence task, S.toStr v, completedSql⟩).rename nv := by
        rw [hm.tables]
        rfl
      rw [← htables] at hw
      refine (guardExecution_related hR hw ex task clocks.guard₂ fun _ hnot =>
        absurd (hlocks ▸ hmem) hnot).bind fun _ _ _ _ _ => .ok ⟨rfl, ?_⟩
      exact hw.closeExecution task .completed

theorem pruneLoop_matches (beforeMs : ℕ) :
    ∀ (cands : List (TaskId × ℕ)) (deleted bs : ℕ) {pg : PostgresDb} {db : Db},
      pg.Mirrors nv db → (cands.map Prod.fst).Nodup →
      (∀ e ∈ cands, ∃ row, db.completions.get? e.1 = some row ∧ row.completedAtMs < beforeMs) →
      Matches nv id (pruneLoop cands deleted bs db)
        (Postgres.pruneLoop beforeMs cands deleted bs pg)
  | [], _, _, _, _, h, _, _ => ⟨rfl, h⟩
  | (task, retained) :: rest, deleted, bs, pg, db, h, hnodup, hrows => by
      obtain ⟨hnot, hnodup⟩ := nodup_cons.mp hnodup
      obtain ⟨row, hrow, hbefore⟩ := hrows _ (mem_cons_self ..)
      have hrest : ∀ e ∈ rest, ∃ row, db.completions.get? e.1 = some row ∧
          row.completedAtMs < beforeMs := fun e he => hrows e (mem_cons_of_mem _ he)
      unfold pruneLoop Postgres.pruneLoop
      by_cases hfull : 0 < deleted ∧ maxHistoryBytes < bs + retained
      · rw [if_pos hfull, if_pos hfull]
        exact ⟨rfl, h⟩
      rw [if_neg hfull, if_neg hfull]
      have helig : Postgres.eligible (pg.lockRow task) beforeMs task = !db.pending task := by
        have htables : (pg.lockRow task).tables = db.rename nv := h.tables
        have hcomp : (db.rename nv).completions.get? task = some row := hrow
        simp only [Postgres.eligible, htables, hcomp, any_some, hbefore, decide_true,
          Bool.true_and, pending, Bool.not_or]
        rfl
      cases hpending : db.pending task with
      | true =>
        simp only [helig, hpending, Bool.not_true, if_true, Bool.false_eq_true, if_false]
        exact pruneLoop_matches beforeMs rest deleted bs h hnodup hrest
      | false =>
        simp only [helig, hpending, Bool.not_false, if_true, Bool.false_eq_true, if_false]
        refine pruneLoop_matches beforeMs rest _ _ ?_ hnodup fun e he => ?_
        · exact (h.lockRow task).deleteTask task
        have hne : e.1 ≠ task := by
          intro heq
          have hkey : e.1 ∈ rest.map Prod.fst := mem_map_of_mem he
          exact hnot (heq ▸ hkey)
        obtain ⟨row', hrow', hbefore'⟩ := hrest e he
        exact ⟨row', (get?_erase_ne hne).trans hrow', hbefore'⟩

theorem pruneCompleted_related (hR : ∀ e, R e e) (h : pg.Mirrors nv db) (beforeMs limit : ℕ) :
    Related R (Matches nv id) (pruneCompleted db beforeMs limit)
      (pruneFinished pg beforeMs limit) := by
  refine .ite (fun _ => .ok ⟨rfl, h⟩) fun _ => .same hR fun before _ => .ok ?_
  have hcands : ∀ rows : List (TaskId × CompletionRow),
      rows.map (fun e => (e.1, pg.tables.retainedBytes e.1 e.2)) =
        rows.map fun e => (e.1, db.retainedBytes e.1 e.2) := fun rows =>
    map_congr_left fun e _ => by rw [h.tables, retainedBytes_rename]
  have hrows : pg.tables.completions = db.completions := by
    rw [h.tables]
    rfl
  simp only [hcands, hrows]
  generalize hsel : ((db.completions.select fun _ r => r.completedAtMs < before).insertionSort
    completionOrder).take (min limit maxPruneBatch) = sel
  have hsub : sel.Sublist ((db.completions.select fun _ r =>
      r.completedAtMs < before).insertionSort completionOrder) := hsel ▸ take_sublist _ _
  have hmatches := pruneLoop_matches before
    (sel.map fun e => (e.1, db.retainedBytes e.1 e.2)) 0 0 h ?_ ?_
  · subst hsel
    exact hmatches
  · rw [List.map_map]
    exact (((perm_insertionSort completionOrder _).map _).nodup_iff.mpr
      nodup_select).sublist (hsub.map _)
  intro e he
  obtain ⟨x, hx, rfl⟩ := mem_map.mp he
  obtain ⟨hget, hbefore⟩ := mem_select.mp ((mem_insertionSort completionOrder).mp (hsub.subset hx))
  exact ⟨x.2, hget, hbefore⟩

end Tysel.Durable
