import Tysel.Verification.Durable.Postgres.Signals
import Tysel.Verification.Durable.Postgres.Programs

/-! The PostgreSQL store simulates the SQLite store: its tables are the SQLite tables with the
signal ids renamed by the sequence, and every method succeeds on both stores with the same
answer or fails on both. -/

namespace Tysel.Durable

open PostgresDb Answer

open Sqlite (step serve read)

variable {J : Type} {S : Crates J} {nv : ℕ → ℕ} {c : StoreCall J} {pg : PostgresDb}

section Simulation

variable {R : DurableError → DurableError → Prop} {pg : PostgresDb} {db : Db}

theorem answering_related {α : Type} {f : α → α} {g : α → Reply J}
    {x : Except DurableError (α × Db)} {y : Except DurableError (α × PostgresDb)}
    (h : Related R (Matches nv f) x y) (hg : ∀ a, rename nv (.reply (g a)) = .reply (g (f a))) :
    Related R (Matches nv (rename nv)) (answering .reply (replying g x))
      (answering (fun a => .reply (g a)) y) := by
  cases h with
  | error he => exact .error he
  | ok hm =>
    have hvalue := congrArg (fun a => reply (g a)) hm.value
    exact .ok ⟨hvalue.trans (hg _).symm, hm.store⟩

theorem reading_related (hR : ∀ e, R e e) (h : pg.Mirrors nv db) {α : Type} {g : α → Answer J}
    {x y : Except DurableError α} (heq : y = x) (hg : ∀ a, (g a).rename nv = g a) :
    Related R (Matches nv (rename nv)) (reading id db (x.map g))
      (reading g pg y) := by
  subst heq
  cases y with
  | error e => exact .error (hR e)
  | ok a => exact .ok ⟨(hg a).symm, h⟩

end Simulation

/-- The arguments for which both stores report the same error: `complete_wakeup` on a scoped
handle converts its integers before the guard on one store and after it on the other. -/
def StoreCall.InRange : StoreCall J → Prop
  | .completeWakeup (some _) _ sequence _ now _ _ => sequence < 2 ^ 63 ∧ now < 2 ^ 63
  | _ => True

/-- The task whose lock row the guard of a scoped handle selects before any other statement. -/
def StoreCall.guarded? : StoreCall J → Option TaskId
  | .finishExecution k .. => some k.taskId
  | .appendEventJsonAt (some _) t .. | .appendEventJsonWithWakeupAt (some _) t ..
  | .completeWakeup (some _) t .. | .pollSignal (some _) t .. => some t
  | _ => none

/-- The lock row exists, so that selecting it is not a driver error. -/
def StoreCall.Locked (c : StoreCall J) (pg : PostgresDb) : Prop :=
  ∀ t ∈ c.guarded?, t ∈ pg.taskLocks

/-- What the proofs use of a reachable SQLite store. -/
structure Db.Steady (S : Crates J) (db : Db) : Prop where
  opened : db.Opened
  quota : db.QuotaOk
  sound : db.Sound S

theorem Db.fresh_steady : Db.fresh.Steady S := ⟨Db.fresh_opened, rfl, Db.fresh_sound⟩

variable {db : Db}

theorem Db.Steady.call (h : db.Steady S) (op : Op J) : (call S db op).2.Steady S :=
  ⟨call_opened S h.opened op, quotaOk_after h.opened h.quota [op],
    run_keeps_all (fun _ _ h hen => h.apply hen) h.opened h.sound [op]⟩

theorem Sqlite.step_of_op {op : Op J} (h : c.op? = some op) :
    (step S db c).2 = (call S db op).2 := by
  unfold step serve call
  rw [h]
  dsimp only
  cases perform S db op <;> rfl

theorem Sqlite.step_of_read (h : c.op? = none) : (step S db c).2 = db := by
  unfold step serve
  rw [h]
  cases read S db c <;> rfl

theorem Db.Steady.step (h : db.Steady S) (c : StoreCall J) : (step S db c).2.Steady S := by
  cases hop : c.op? with
  | none => exact Sqlite.step_of_read hop ▸ h
  | some op => exact Sqlite.step_of_op hop ▸ h.call op

/-- Both stores succeed with the same answer or fail, and outside two cases with the same
error variant. -/
theorem serve_related (hmono : StrictMono nv) (h : pg.Mirrors nv db)
    (hsteady : db.Steady S) (c : StoreCall J) :
    Related (fun e e' => c.InRange → c.Locked pg → e.SameVariant e')
      (Matches nv (rename nv)) (serve S db c)
      (Postgres.serve S nv pg c) := by
  have hsame : ∀ e e' : DurableError, e.SameVariant e' →
      c.InRange → c.Locked pg → e.SameVariant e' := fun _ _ hv _ _ => hv
  have hR : ∀ e : DurableError, c.InRange → c.Locked pg → e.SameVariant e := fun _ _ _ => rfl
  have hlock : ∀ (store : Option ExecutionClaim) {t : TaskId},
      (∀ k, store = some k → c.guarded? = some t) → store.isSome →
        t ∉ pg.taskLocks → ∀ e : DurableError, c.InRange → c.Locked pg →
        e.SameVariant .postgres := by
    intro store t hg hsome hnot _ _ hlocked
    obtain ⟨k, rfl⟩ := Option.isSome_iff_exists.mp hsome
    exact absurd (hlocked _ (hg k rfl)) hnot
  obtain ⟨locks, rfl⟩ := h.eq
  cases c with
  | admitModule =>
    exact answering_related (admitModule_related hR h hsteady.opened ..) fun _ => rfl
  | claimExecution =>
    exact answering_related (claimRun_related hR h ..) fun _ => rfl
  | executionFailed t =>
    exact reading_related hR h (x := .ok (executionFailed db t))
      (g := fun b => .reply (.bool b)) rfl fun _ => rfl
  | finishExecution k failed c₁ c₂ =>
    exact answering_related
      (releaseRun_related hR h k failed c₁ c₂ (hlock (some k) (fun _ _ => rfl) rfl))
      fun _ => rfl
  | sendSignalOnce =>
    exact answering_related (sendSignalInner_related hR h ..) fun _ => rfl
  | completion t => exact reading_related hR h rfl fun _ => rfl
  | completeTask | completeTaskBefore =>
    exact answering_related (finishTask_related hR h hsteady.quota ..) fun _ => rfl
  | pruneCompleted before limit =>
    exact answering_related (pruneCompleted_related hR h before limit) fun _ => rfl
  | loadDueProgramsBatch =>
    exact reading_related hR h (loadDueProgramsBatch_eq h hsteady.sound.programs ..) fun _ => rfl
  | logVersion => exact reading_related hR h rfl fun _ => rfl
  | putProgram | putModule =>
    exact answering_related (putProgramInner_related hR h hsteady.opened ..) fun _ => rfl
  | program t => exact reading_related hR h rfl fun _ => rfl
  | loadDueProgramsByKind =>
    exact reading_related hR h (loadDueProgramsBatch_eq h hsteady.sound.programs ..) fun _ => rfl
  | removeProgram t =>
    exact answering_related (removeProgram_related hR h hsteady.quota t) fun _ => rfl
  | programCount =>
    have hcount : Postgres.programCount ⟨db.rename nv, locks⟩ = programCount db := by
      obtain ⟨stats, hstats⟩ := Option.isSome_iff_exists.mp hsteady.opened.stats
      unfold Postgres.programCount programCount Postgres.selectProgramStats selectProgramStats
      have hget : (db.rename nv).programStats = some stats := hstats
      simp only [hget, hstats]
    exact reading_related hR h hcount fun _ => rfl
  | appendEventJsonAt store =>
    refine answering_related (appendEventJsonAt_related hR h (hlock store ?_) ..) fun _ => rfl
    rintro - rfl
    rfl
  | appendEventJsonWithWakeupAt store =>
    refine answering_related (appendEventJsonWithWakeupAt_related hR h (hlock store ?_) ..)
      fun _ => rfl
    rintro - rfl
    rfl
  | loadHistory t => exact reading_related hR h rfl fun _ => rfl
  | claimDueWakeups =>
    exact answering_related (claimDueWakeups_related hsame h ..) fun _ => rfl
  | claimWakeup =>
    exact answering_related (claimWakeup_related hsame h ..) fun _ => rfl
  | completeWakeup store t sequence owner now c₁ c₂ =>
    refine answering_related (completeWakeup_related hR h store t sequence owner now c₁ c₂
      (hlock store ?_) fun hsome hout e e' hin _ => ?_) fun _ => rfl
    · rintro - rfl
      rfl
    · obtain ⟨_, rfl⟩ := Option.isSome_iff_exists.mp hsome
      exact absurd hin hout
  | claimIsActive k now =>
    exact reading_related hR h rfl fun _ => rfl
  | renewWakeupClaim =>
    exact answering_related (renewWakeupClaim_related hR h ..) fun _ => rfl
  | releaseWakeupClaim k =>
    exact answering_related (releaseWakeupClaim_related hR h k) fun _ => rfl
  | wakeup t => exact reading_related hR h (x := .ok (wakeup db t)) rfl fun _ => rfl
  | signalWait t => exact reading_related hR h (x := .ok (signalWait db t)) rfl fun _ => rfl
  | sendSignal =>
    exact answering_related (sendSignalInner_related hR h ..) fun _ => rfl
  | pollSignal store t expected name now k c₁ c₂ =>
    refine answering_related (pollSignal_related hR hmono h (hsteady.sound.history t) store
      expected name now k c₁ c₂ (hlock store ?_)) fun _ => rfl
    rintro - rfl
    rfl

/-- One call of both runs: the same method on stores with the same tables. -/
structure Agree (nv : ℕ → ℕ) (a : Entry Db (StoreCall J) (Except DurableError (Answer J)))
    (b : Entry PostgresDb (StoreCall J) (Except DurableError (Answer J))) : Prop where
  call : b.input = a.input
  outcome : Related
    (fun e e' => a.input.InRange → a.input.Locked b.before → e.SameVariant e')
    (fun x y => y = x.rename nv) a.output b.output
  tables : b.after.tables = a.after.rename nv
  locked : ∀ t, (a.after.executions.get? t).isSome → t ∈ b.after.taskLocks

theorem step_agree (hmono : StrictMono nv) (h : pg.Mirrors nv db) (hsteady : db.Steady S)
    (c : StoreCall J) :
    Agree nv (entry (step S) db c) (entry (Postgres.step S nv) pg c) := by
  have hserve := serve_related hmono h hsteady c
  have hstep : Related (fun e e' => c.InRange → c.Locked pg → e.SameVariant e')
        (fun x y => y = x.rename nv) (step S db c).1 (Postgres.step S nv pg c).1 ∧
      (Postgres.step S nv pg c).2.Mirrors nv (step S db c).2 := by
    unfold step Postgres.step
    generalize serve S db c = x, Postgres.serve S nv pg c = y at hserve
    cases hserve with
    | error he => exact ⟨.error he, h⟩
    | ok hm => exact ⟨.ok hm.value, hm.store⟩
  exact ⟨rfl, hstep.1, hstep.2.tables, hstep.2.locked⟩

/-- For every sequence of trait calls with the same arguments, clock readings and tokens: after
each call the tables of the stores are equal up to the ids the sequence gave the signals, and
the call succeeded on both stores with the same answer or failed on both. The errors have the
same variant when the arguments are in range and the lock row of a scoped handle exists, as it
does for every task with an execution row. -/
theorem backend_equivalence (S : Crates J) (hmono : StrictMono nv) (calls : List (StoreCall J)) :
    List.Forall₂ (Agree nv) (trace (step S) Db.fresh calls)
      (trace (Postgres.step S nv) fresh calls) := by
  have hrun : ∀ pg db, pg.Mirrors nv db → db.Steady S →
      List.Forall₂ (Agree nv) (trace (step S) db calls)
        (trace (Postgres.step S nv) pg calls) := by
    induction calls with
    | nil => exact fun _ _ _ _ => .nil
    | cons c _ ih =>
      intro pg db h hsteady
      have hagree := step_agree hmono h hsteady c
      exact .cons hagree (ih _ _ ⟨hagree.tables, hagree.locked⟩ (hsteady.step c))
  refine hrun _ _ ⟨rfl, fun t hs => ?_⟩ Db.fresh_steady
  cases hs

/-- A module with one accepted signal request, repeated. -/
def signalCalls : List (StoreCall Bool) :=
  [.putModule 7 "42" 0, .sendSignalOnce 7 "go" true "request" 5,
    .sendSignalOnce 7 "go" true "request" 6]

theorem backend_equivalence_signals : StrictMono (fun n : ℕ => 2 * n) ∧
      List.Forall₂ (Agree fun n => 2 * n) (trace (step bools) Db.fresh signalCalls)
        (trace (Postgres.step bools fun n => 2 * n) fresh signalCalls) ∧
      ((trace (step bools) Db.fresh signalCalls).map Entry.output).getLast? =
        some (.ok (.reply (.signalId 1))) ∧
      ((trace (Postgres.step bools fun n => 2 * n) fresh signalCalls).map
        Entry.output).getLast? = some (.ok (.reply (.signalId 2))) := by
  have hmono : StrictMono (fun n : ℕ => 2 * n) := fun a b hab => by
    change 2 * a < 2 * b
    omega
  exact ⟨hmono, backend_equivalence bools hmono signalCalls, rfl, rfl⟩

/-- A scoped handle without authority that passes a sequence outside the integer range. -/
theorem complete_wakeup_order : (step bools Db.fresh
        (.completeWakeup (some ⟨7, "owner", 1, 10, none⟩) 7 (2 ^ 63) none 0 0 0)).1 =
      .error .executionLeaseLost ∧ (Postgres.step bools id fresh
        (.completeWakeup (some ⟨7, "owner", 1, 10, none⟩) 7 (2 ^ 63) none 0 0 0)).1 =
      .error (.integerRange "sequence") ∧
    ¬ DurableError.executionLeaseLost.SameVariant (.integerRange "sequence") := by
  exact ⟨rfl, rfl, by decide⟩

theorem Db.Steady.rename (h : db.Steady S) (nv : ℕ → ℕ) : (db.rename nv).Steady S := by
  obtain ⟨⟨hversion, hstats⟩, hquota, hhistory, hclosed, hprograms⟩ := h
  refine ⟨⟨hversion, hstats⟩, hquota, fun t => ?_, fun t row hrow => ?_, hprograms⟩
  · obtain ⟨hsequences, hstats, hcount, hbytes⟩ := hhistory t
    exact ⟨hsequences, hstats, hcount, hbytes⟩
  · obtain ⟨hprogram, hwakeup, hwait, hsequence, hexecution⟩ := hclosed t row hrow
    exact ⟨hprogram, hwakeup, hwait, hsequence, hexecution⟩

/-- Through the simulation the invariants of the SQLite store hold in every state that trait calls
reach on PostgreSQL: the counters of open programs are exact, every history is gapless and within
its limits, a completed task keeps no rows to resume, and every program matches its digest. -/
theorem postgres_steady (S : Crates J) (nv : ℕ ↪o ℕ) (calls : List (StoreCall J)) :
    (run (Postgres.step S nv) fresh calls).tables.Steady S := by
  have hrun : ∃ db, (run (Postgres.step S nv) fresh calls).Mirrors nv db ∧ db.Steady S := by
    refine run_invariant (P := fun pg : PostgresDb => ∃ db, pg.Mirrors nv db ∧ db.Steady S)
      _ _ ⟨Db.fresh, ⟨rfl, fun _ h => by cases h⟩, Db.fresh_steady⟩ ?_ calls
    rintro pg c ⟨db, hmirrors, hsteady⟩
    have hagree := step_agree nv.strictMono hmirrors hsteady c
    exact ⟨_, ⟨hagree.tables, hagree.locked⟩, hsteady.step c⟩
  obtain ⟨db, hmirrors, hsteady⟩ := hrun
  rw [hmirrors.tables]
  exact hsteady.rename nv

end Tysel.Durable
