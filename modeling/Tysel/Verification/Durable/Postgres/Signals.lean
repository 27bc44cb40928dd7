import Tysel.Verification.Durable.Postgres.Mirror
import Tysel.Verification.Durable.History

/-! A batch claim is one `UPDATE .. RETURNING` on one store and a loop of updates on the other. The
oldest signal of a name is the same one, because the sequence preserves the order of ids. -/

namespace Tysel.Durable

open List Db Prod Table

open Postgres (claimOrder leaseClaim leaseRows leaseRow)

variable {J : Type} {S : Crates J} {nv : ℕ → ℕ}
variable {R : DurableError → DurableError → Prop} {pg : PostgresDb} {db : Db} {t : TaskId}
  {e : DurableError}

theorem Db.wakeups_rename : (db.rename nv).wakeups = db.wakeups := rfl

instance : Std.Total wakeupOrder where
  total a b := by
    simp only [wakeupOrder, Fin.le_def]
    omega

instance : IsTrans (TaskId × WakeupRow) wakeupOrder where
  trans a b c hab hbc := by
    simp only [wakeupOrder, Fin.le_def] at *
    omega

instance : Std.Total claimOrder where
  total a b := by
    simp only [claimOrder, Fin.le_def]
    omega

instance : IsTrans WakeupClaim claimOrder where
  trans a b c hab hbc := by
    simp only [claimOrder, Fin.le_def] at *
    omega

/-- Sorting the returned rows restores the order in which the candidates were selected. -/
theorem sorted_claims {u : Table TaskId WakeupRow} {cands : List (TaskId × WakeupRow)}
    (hnodup : (cands.map fst).Nodup) (hrows : ∀ e ∈ cands, u.get? e.1 = some e.2)
    (hsorted : cands.Pairwise wakeupOrder) (owner : String) (until_ : ℕ) :
    ((u.select fun t _ => t ∈ cands.map fst).map
        (leaseClaim owner until_)).insertionSort claimOrder =
      cands.map (leaseClaim owner until_) := by
  have hperm := (select_perm hnodup hrows).map (leaseClaim owner until_)
  have hsorted' : (cands.map (leaseClaim owner until_)).Pairwise claimOrder :=
    pairwise_map.mpr hsorted
  refine List.Perm.eq_of_pairwise ?_ (pairwise_insertionSort claimOrder _) hsorted'
    ((perm_insertionSort _ _).trans hperm)
  intro a b ha hb hab hba
  rw [mem_insertionSort] at ha
  obtain ⟨x, hx, rfl⟩ := mem_map.mp (hperm.mem_iff.mp ha)
  obtain ⟨y, hy, rfl⟩ := mem_map.mp hb
  have htask : x.1 = y.1 := by
    simp only [claimOrder, leaseClaim, Fin.le_def] at hab hba
    exact Fin.ext (by omega)
  have hrow : some x.2 = some y.2 := by rw [← hrows x hx, htask, hrows y hy]
  rw [Prod.ext htask (Option.some.inj hrow)]

theorem toSqlInteger_error {value : ℕ} {field : String} (h : toSqlInteger value field = .error e) :
    e = .integerRange field := by
  unfold toSqlInteger at h
  split at h
  · cases h
  · exact (Except.error.inj h).symm

theorem leaseDeadline_error {ms dur : ℕ} (h : leaseDeadline ms dur = .error e) :
    e = .integerRange "lease_until_ms" := by
  unfold leaseDeadline at h
  split at h
  · cases h
  · exact (Except.error.inj h).symm

theorem claimDueWakeups_related (hR : ∀ e e', e.SameVariant e' → R e e')
    (h : pg.Mirrors nv db) (ms limit : ℕ) (owner : String) (dur : ℕ) :
    Related R (Matches nv id) (claimDueWakeups db ms limit owner dur)
      (Postgres.claimDueWakeups pg ms limit owner dur) := by
  have hrefl : ∀ e, R e e := fun e => hR e e rfl
  refine .same hrefl fun _ _ => ?_
  by_cases hlimit : limit = 0
  · rw [if_pos hlimit, if_pos hlimit]
    exact .ok ⟨rfl, h⟩
  rw [if_neg hlimit, if_neg hlimit]
  refine .swap hrefl ?_ fun now until_ _ _ => .same hrefl fun until_ _ => ?_
  · intro e e' he he'
    rw [toSqlInteger_error he, leaseDeadline_error he']
    exact hR _ _ rfl
  obtain ⟨locks, rfl⟩ := h.eq
  have hmem := db.dueWakeups_rows now limit
  have hnodup := db.dueWakeups_nodup now limit
  have hsorted : (db.dueWakeups now limit).Pairwise wakeupOrder :=
    (pairwise_insertionSort wakeupOrder _).sublist (db.dueWakeups_sublist now limit)
  have hclaims := sorted_claims hnodup (fun e he => (hmem e he).1) hsorted owner until_
  have hloop := claimCandidates_eq owner until_ hmem hnodup
  refine .ok ⟨?_, ?_⟩
  · exact hclaims.trans (congrArg fst hloop).symm
  · refine h.write ?_ (congrArg (fun p => p.2.executions) hloop)
    exact (congrArg (fun p => p.2.rename nv) hloop).symm

theorem claimWakeup_related (hR : ∀ e e', e.SameVariant e' → R e e') (h : pg.Mirrors nv db)
    (t : TaskId) (ms : ℕ) (owner : String) (dur : ℕ) :
    Related R (Matches nv id) (claimWakeup db t ms owner dur)
      (Postgres.claimWakeup pg t ms owner dur) := by
  have hrefl : ∀ e, R e e := fun e => hR e e rfl
  obtain ⟨locks, rfl⟩ := h.eq
  refine .same hrefl fun _ _ => .swap hrefl ?_ fun now until_ _ _ => .same hrefl fun until_ _ => ?_
  · intro e e' he he'
    rw [toSqlInteger_error he, leaseDeadline_error he']
    exact hR _ _ rfl
  simp only [wakeups_rename]
  cases db.wakeups.get? t with
  | none => exact .ok ⟨rfl, h⟩
  | some => exact .ite (fun _ => .ok ⟨rfl, h.write rfl rfl⟩) fun _ => .ok ⟨rfl, h⟩

theorem toSqlInteger_fails {a b : ℕ} (f g : String) (h : ¬ (a < 2 ^ 63 ∧ b < 2 ^ 63)) :
    ∃ e, ∀ {β : Type} (k : ℕ → ℕ → Except DurableError β),
      (toSqlInteger a f >>= fun x => toSqlInteger b g >>= k x) = .error e := by
  have hfail : ∀ {v : ℕ} field, ¬ v < 2 ^ 63 →
      toSqlInteger v field = .error (.integerRange field) := fun _ hv => if_neg hv
  by_cases ha : a < 2 ^ 63
  · refine ⟨.integerRange g, fun k => ?_⟩
    rw [toSqlInteger_of_lt f ha, ok_bind, hfail g fun hb => h ⟨ha, hb⟩, error_bind]
  · refine ⟨.integerRange f, fun k => ?_⟩
    rw [hfail f ha, error_bind]

section

variable (hR : ∀ e, R e e) (h : pg.Mirrors nv db)

include hR h

/-- Out of range arguments are the only case in which the order of the guard and the
conversions can be seen. -/
theorem completeWakeup_related (ex : Option ExecutionClaim) (t : TaskId) (sequence : ℕ)
    (owner : Option String) (ms : ℕ) (t₁ t₂ : ℤ)
    (hlock : ex.isSome → t ∉ pg.taskLocks → ∀ e, R e .postgres)
    (hrange : ex.isSome → ¬ (sequence < 2 ^ 63 ∧ ms < 2 ^ 63) → ∀ e e', R e e') :
    Related R (Matches nv id)
      (completeWakeup ex db t sequence owner ms t₁ t₂)
      (Postgres.completeWakeup ex pg t sequence owner ms t₁ t₂) := by
  have hguard₁ := guardExecution_related hR h ex t t₁ hlock
  unfold completeWakeup Postgres.completeWakeup
  by_cases hin : sequence < 2 ^ 63 ∧ ms < 2 ^ 63
  · simp only [toSqlInteger_of_lt _ hin.1, toSqlInteger_of_lt _ hin.2, ok_bind]
    refine hguard₁.bind fun _ _ _ _ _ => .same hR fun _ _ => ?_
    obtain ⟨locks, rfl⟩ := h.eq
    have hget : (db.rename nv).wakeups.get? t = db.wakeups.get? t := rfl
    simp only [hget]
    cases (db.wakeups.get? t).any fun w => w.completable sequence owner ms with
    | true =>
      have hw := h.writeRenamed (db.deleteWakeup t) rfl
      exact (guardExecution_related hR hw ex t t₂ hlock).bind
        fun _ _ _ _ _ => .ok ⟨rfl, hw⟩
    | false =>
      exact (guardExecution_related hR h ex t t₂ hlock).bind
        fun _ _ _ _ _ => .ok ⟨rfl, h⟩
  · obtain ⟨e, hfails⟩ := toSqlInteger_fails "sequence" "now_ms" hin
    simp only [hfails]
    cases ex with
    | none => exact .error (hR e)
    | some claim =>
      cases guardExecution (some claim) db t t₁ with
      | error => exact .error (hrange rfl hin _ _)
      | ok => exact .error (hR e)

theorem renewWakeupClaim_related (claim : WakeupClaim) (ms dur : ℕ) :
    Related R (Matches nv id) (renewWakeupClaim db claim ms dur)
      (Postgres.renewWakeupClaim pg claim ms dur) := by
  obtain ⟨locks, rfl⟩ := h.eq
  refine .same hR fun _ _ => .same hR fun _ _ => .same hR fun until_ _ => .same hR fun _ _ =>
    .same hR fun now _ => ?_
  simp only [wakeups_rename]
  cases db.wakeups.get? claim.taskId with
  | none => exact .ok ⟨rfl, h⟩
  | some => exact .ite (fun _ => .ok ⟨rfl, h.write rfl rfl⟩) fun _ => .ok ⟨rfl, h⟩

theorem releaseWakeupClaim_related (claim : WakeupClaim) :
    Related R (Matches nv id) (releaseWakeupClaim db claim)
      (Postgres.releaseWakeupClaim pg claim) := by
  obtain ⟨locks, rfl⟩ := h.eq
  refine .same hR fun _ _ => .same hR fun _ _ => ?_
  simp only [wakeups_rename]
  cases db.wakeups.get? claim.taskId with
  | none => exact .ok ⟨rfl, h⟩
  | some => exact .ite (fun _ => .ok ⟨rfl, h.write rfl rfl⟩) fun _ => .ok ⟨rfl, h⟩

end

theorem checkPrior_related (hR : ∀ e, R e e) (h : pg.Mirrors nv db) (t : TaskId)
    (name payload : String) (key : Option String) :
    Related R (fun a b => b = a.map nv) (checkPrior S db t name payload key)
      (Postgres.checkPrior S pg t name payload key) := by
  obtain ⟨-, rfl⟩ := h.eq
  cases key with
  | none => exact .ok rfl
  | some key =>
    refine .same hR fun _ _ => ?_
    rw [receipt?_rename]
    cases db.receipt? t key with
    | some => exact .same hR fun _ _ => .ok rfl
    | none =>
      refine (Related.reject ?_ fun _ => hR _).bind fun _ _ _ _ _ => ?_
      · rw [receiptsOf_rename, length_map]
      · exact .same hR fun _ _ => .ok rfl

theorem insertSignal_rename (nv : ℕ → ℕ) (db : Db) (t : TaskId) (name payload : String)
    (time : ℕ) : Postgres.insertSignal nv (db.rename nv) t name payload time =
      (nv (db.insertSignal t name payload time).inboxSequence,
        (db.insertSignal t name payload time).rename nv) := by
  simp [Postgres.insertSignal, insertSignal, rename, InboxRow.rename]

theorem insertReceipt_rename (nv : ℕ → ℕ) (db : Db) (row : ReceiptRow) :
    (db.rename nv).insertReceipt (row.rename nv) = (db.insertReceipt row).rename nv := by
  simp [insertReceipt, rename]

section

variable (hR : ∀ e, R e e)

include hR

theorem sendSignalInner_related (h : pg.Mirrors nv db) (t : TaskId) (name : String)
    (payload : J) (time : ℕ) (key : Option String) :
    Related R (Matches nv nv) (sendSignalInner S db t name payload time key)
      (Postgres.sendSignalInner S nv pg t name payload time key) := by
  have hprior := fun payload =>
    checkPrior_related (S := S) hR (h.lockRow t) t name payload key
  have hlocked := h.lockRow t
  obtain ⟨locks, rfl⟩ := h.eq
  refine .same hR fun _ _ => .same hR fun _ _ => .same hR fun time' _ => ?_
  refine (hprior (S.toStr payload)).bind ?_
  rintro prior _ - - rfl
  cases prior with
  | some => exact .ok ⟨rfl, h⟩
  | none =>
    rw [lockTask_bind]
    refine .same hR fun _ _ => (Related.reject ?_ fun _ => hR _).bind fun _ _ _ _ _ => ?_
    · change _ ↔ _ ≤ ((db.rename nv).inboxOf t).length ∨ _ < (db.rename nv).pendingBytes t + _
      rw [inboxOf_rename, pendingBytes_rename, length_map]
    have hqueued := insertSignal_rename nv db t name (S.toStr payload) time'
    cases key with
    | none =>
      refine .ok ⟨congrArg fst hqueued, hlocked.write ?_ rfl⟩
      exact congrArg (fun p => p.2.wakeWaiting t name time') hqueued
    | some key =>
      refine .ok ⟨congrArg fst hqueued, hlocked.write ?_ rfl⟩
      refine Eq.trans ?_ (insertReceipt_rename nv _ _)
      exact congrArg (fun p : ℕ × Db => (p.2.wakeWaiting t name time').insertReceipt
        ⟨t, key, name, S.sha256 (S.toStr payload), p.1⟩) hqueued

theorem registerWait_related (db : Db) (t : TaskId) (exp : ℕ) (name : String)
    (hwait : ∀ w, db.signalWaits.get? t = some w → w = ⟨exp, name⟩) (hexpected : exp < 2 ^ 63) :
    Related R (fun a b => b = a.rename nv ∧ a.executions = db.executions)
      (registerSignalWait db t exp name)
      (Postgres.registerWait (db.rename nv) t exp name) := by
  unfold registerSignalWait Postgres.registerWait
  cases hget : db.signalWaits.get? t with
  | none =>
    refine .same hR fun sequence hseq => ?_
    obtain ⟨-, rfl⟩ := toSqlInteger_ok.mp hseq
    have hnew : db.signalWaits.insertNew t ⟨exp, name⟩ = db.signalWaits.insert t ⟨exp, name⟩ := by
      simp [insertNew, hget]
    have hpg : (db.rename nv).signalWaits = db.signalWaits := rfl
    simp only [hpg, hnew, get?_insert_self]
    rw [reject_of_not _ (by simp)]
    exact .ok ⟨rfl, rfl⟩
  | some w =>
    obtain rfl := hwait w hget
    have hold : db.signalWaits.insertNew t ⟨exp, name⟩ = db.signalWaits := by
      simp [insertNew, hget]
    have hpg : (db.rename nv).signalWaits = db.signalWaits := rfl
    simp only [toSqlInteger_of_lt _ hexpected, ok_bind, hpg, hold, hget]
    rw [reject_of_not _ (by simp), ok_bind]
    exact .ok ⟨rfl, rfl⟩

theorem takeWakeup_related (db : Db) (t : TaskId) (exp ms : ℕ) (claim : Option WakeupClaim) :
    Related R (fun a b => b = a.rename nv ∧ a.executions = db.executions)
      (takeSignalWakeup db t exp ms claim)
      (Postgres.takeWakeup (db.rename nv) t exp ms claim) := by
  unfold takeSignalWakeup Postgres.takeWakeup
  cases claim with
  | some =>
    exact .same hR fun _ _ => .same hR fun _ _ => .same hR fun _ _ => .ok ⟨rfl, rfl⟩
  | none =>
    change Related R _ _ (reject ((db.signalWaits.get? t).isSome ∨
      (db.wakeups.get? t).isSome) _ >>= fun _ => _)
    cases db.signalWaits.get? t with
    | some =>
      exact .error (hR _)
    | none =>
      rw [reject_of_not _ (by simp), ok_bind]
      refine (Related.reject ?_ fun _ => hR _).bind fun _ _ _ _ _ => .ok ⟨rfl, rfl⟩
      simp

theorem pollSignal_related (hmono : StrictMono nv) (h : pg.Mirrors nv db) (hhist : db.HistoryOk t)
    (ex : Option ExecutionClaim) (exp : ℕ) (name : String) (ms : ℕ) (claim : Option WakeupClaim)
    (t₁ t₂ : ℤ) (hlock : ex.isSome → t ∉ pg.taskLocks → ∀ e, R e .postgres) :
    Related R (Matches nv id)
      (pollSignal S ex db t exp name ms claim t₁ t₂)
      (Postgres.pollSignal S ex pg t exp name ms claim t₁ t₂) := by
  have hguard₁ := guardExecution_related hR h ex t t₁ hlock
  have hlocked := h.lockRow t
  have hmem : t ∈ (pg.lockRow t).taskLocks := Finset.mem_insert_self ..
  generalize hpg' : pg.lockRow t = pg' at hlocked hmem
  have hno : ∀ {pg'' : PostgresDb}, pg''.taskLocks = pg'.taskLocks → ex.isSome →
      t ∉ pg''.taskLocks → ∀ e, R e .postgres := fun heq _ hnot => absurd (heq ▸ hmem) hnot
  refine .same hR fun _ _ => .same hR fun now _ => hguard₁.bind fun _ _ _ _ _ => ?_
  rw [lockTask_bind, hpg', h.tables]
  obtain ⟨_, rfl⟩ := hlocked.eq
  refine .same hR fun _ _ => .same hR fun _ hseq => .same hR fun _ hwait => ?_
  rw [oldestSignal_rename hmono]
  cases hqueued : db.oldestSignal t name with
  | none =>
    have hmatch : ∀ w, db.signalWaits.get? t = some w → w = ⟨exp, name⟩ := by
      rintro ⟨sequence, signal⟩ hw
      simpa [hw] using hwait
    have hbound : exp < 2 ^ 63 := by
      have hactual : db.nextSequence t = exp := by simpa using hseq
      rw [← hactual, hhist.nextSequence]
      exact lt_of_le_of_lt hhist.count (by decide)
    refine (registerWait_related hR db t exp name hmatch hbound).bind ?_
    rintro waiting _ - - ⟨rfl, hsame⟩
    have hw := hlocked.writeRenamed waiting hsame
    exact (guardExecution_related hR hw ex t t₂ (hno rfl)).bind
      fun _ _ _ _ _ => .ok ⟨rfl, hw⟩
  | some queued =>
    refine (takeWakeup_related hR db t exp now claim).bind ?_
    rintro taken _ - - ⟨rfl, hsame⟩
    have htaken := hlocked.writeRenamed taken hsame
    obtain ⟨-, -, rfl⟩ := oldestSignal_mem hqueued
    simp only [consumeSignal, bind_assoc, pure_bind]
    refine .same hR fun payload _ => ?_
    refine (insertEvent_related hR htaken t exp _ queued.payload queued.sentAtMs).bind ?_
    rintro ⟨_, db'⟩ ⟨sequence, pg'⟩ - - ⟨⟨rfl, hm⟩, hmem'⟩
    have hw : (pg'.write ((pg'.tables.deleteSignal (nv queued.id)).deleteWait t sequence
        queued.signalName)).Mirrors nv
          ((db'.deleteSignal queued.id).deleteWait t sequence queued.signalName) := by
      refine hm.write ?_ rfl
      rw [hm.tables, deleteSignal_rename hmono]
      rfl
    exact (guardExecution_related hR hw ex t t₂ fun _ hnot =>
      absurd hmem' hnot).bind fun _ _ _ _ _ => .ok ⟨rfl, hw⟩

end

end Tysel.Durable
