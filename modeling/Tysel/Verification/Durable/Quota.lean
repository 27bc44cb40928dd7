import Tysel.Verification.Durable.Frames

/-! The counters of `durable_program_stats` are sums over the catalog restricted to programs
without a completion. Registering, unregistering and completing move exactly one summand;
pruning removes programs that no longer count. -/

namespace Tysel.Durable

open Table Db Option Effect

variable {J : Type} {S : Crates J}

/-- What a stored program contributes: nothing once its task is completed. -/
def Db.weight (db : Db) (w : ProgramRow → ℕ) (t : TaskId) (row : ProgramRow) : ℕ :=
  if (db.completions.get? t).isNone then w row else 0

def Db.openSum (db : Db) (w : ProgramRow → ℕ) : ℕ := db.programs.sum (db.weight w)

theorem Db.openSum_eq (db : Db) (w : ProgramRow → ℕ) :
    db.openSum w = (db.openPrograms.map fun p => w p.2).sum := by
  unfold openSum sum openPrograms weight
  induction db.programs.entries with
  | nil => rfl
  | cons _ _ ih =>
    simp only [List.map_cons, List.sum_cons, ih, List.filter_cons]
    split <;> simp

variable {db : Db}

variable {t : TaskId} {row : ProgramRow}

theorem Db.le_openSum (hsome : db.programs.get? t = some row) (ho : db.IsOpen t)
    (w : ProgramRow → ℕ) : w row ≤ db.openSum w := by
  have hweight : db.weight w t row = w row := by
    simp [weight, show db.completions.get? t = none from ho]
  exact hweight ▸ le_sum (db.weight w) hsome

variable {db' : Db}

/-- What the task contributes to a sum. -/
def Db.share (db : Db) (w : ProgramRow → ℕ) (t : TaskId) : ℕ :=
  (db.programs.get? t).elim 0 fun row =>
    if (db.completions.get? t).isNone then w row else 0

/-- A sum changes by what the task of the effect contributes before and after it. -/
theorem openSum_apply (db : Db) (e : Effect) (w : ProgramRow → ℕ) :
    (e.apply db).openSum w + db.share w e.task = db.openSum w + (e.apply db).share w e.task :=
  sum_add (f := db.weight w) (g := (e.apply db).weight w) (fun _ h => programs_frame db h)
    fun _ h _ => by simp only [weight, completions_frame db h]

def sourceBytes (row : ProgramRow) : ℕ := row.source.utf8ByteSize

/-- The statistics row counts exactly the open programs and their bytes. -/
def Db.QuotaOk (db : Db) : Prop :=
  db.programStats = some ⟨db.openSum fun _ => 1, db.openSum sourceBytes⟩

/-- The open programs are within both limits. -/
structure Db.QuotaBounded (db : Db) : Prop where
  count : (db.openSum fun _ => 1) ≤ maxDurablePrograms
  bytes : db.openSum sourceBytes ≤ maxDurableProgramTotalBytes

theorem Db.QuotaOk.charged (h : db.QuotaOk) (hrow : db.programs.get? t = some row)
    (ho : db.IsOpen t) : db.ProgramCharged row.source.utf8ByteSize := by
  intro s hs
  obtain rfl := some.inj (Eq.trans h.symm hs)
  exact ⟨le_openSum hrow ho fun _ => 1, le_openSum hrow ho sourceBytes⟩

/-- What an effect does to the statistics and to every sum over the open programs. -/
inductive Charged (db db' : Db) : Prop
  | charge (row : ProgramRow) (hroom : db.ProgramRoom row.source.utf8ByteSize)
      (hstats : db'.programStats = charge db.programStats row.source.utf8ByteSize)
      (hsum : ∀ w : ProgramRow → ℕ, db'.openSum w = w row + db.openSum w)
  | uncharge (row : ProgramRow)
      (hstats : db'.programStats = uncharge db.programStats row.source.utf8ByteSize)
      (hsum : ∀ w : ProgramRow → ℕ, db.openSum w = w row + db'.openSum w)
  | same (hstats : db'.programStats = db.programStats)
      (hsum : ∀ w : ProgramRow → ℕ, db'.openSum w = db.openSum w)

theorem charged_apply {e : Effect} (hen : e.Enabled S db) : Charged db (e.apply db) := by
  have hstats := apply_programStats db e
  have hsum := openSum_apply db e
  simp only [share, apply_programs, apply_completions] at hsum
  cases e with
  | register =>
    obtain ⟨ho, hnone, hroom, -⟩ := hen
    unfold Db.IsOpen at ho
    exact .charge _ hroom hstats fun w => by simpa [task, ho, hnone, add_comm] using hsum w
  | admitModule =>
    obtain ⟨⟨ho, -⟩, rfl, -, -, -, hnone, hroom, -⟩ := hen
    unfold Db.IsOpen at ho
    exact .charge _ hroom hstats fun w => by simpa [task, ho, hnone, add_comm] using hsum w
  | unregister | complete =>
    obtain ⟨ho, hsome, -⟩ := hen
    unfold Db.IsOpen at ho
    refine .uncharge _ hstats fun w => ?_
    simpa [task, ho, hsome, add_comm] using (hsum w).symm
  | prune r =>
    refine .same hstats fun w => ?_
    cases hrow : db.programs.get? r <;>
      simpa [task, hrow, isSome_iff_ne_none.mp hen.1] using hsum w
  | _ => exact .same rfl fun _ => rfl

theorem Db.QuotaOk.step (h : db.QuotaOk) (hstep : Charged db db') : db'.QuotaOk := by
  unfold QuotaOk
  cases hstep with
  | charge row _ hstats hsum | uncharge row hstats hsum =>
    rw [hstats, h]
    simp only [charge, uncharge, map_some, hsum, sourceBytes, some.injEq, ProgramStatsRow.mk.injEq]
    omega
  | same hstats hsum => rw [hstats, h, hsum, hsum]

theorem Db.QuotaBounded.step (hok : db.QuotaOk) (h : db.QuotaBounded) (hstep : Charged db db') :
    db'.QuotaBounded := by
  obtain ⟨hcount, hbytes⟩ := h
  cases hstep with
  | charge _ hroom _ hsum =>
    obtain ⟨_, hs, _, _⟩ := hroom
    obtain rfl := mem_unique hok hs
    constructor <;> simp only [hsum, sourceBytes] at * <;> omega
  | uncharge _ _ hsum | same _ hsum => constructor <;> simp only [hsum] at * <;> omega

/-- `initialize_schema` computes a missing statistics row from the catalog. -/
theorem initializeSchema_quota {u : Unit} (hnone : db.programStats = none)
    (h : initializeSchema db = .ok (u, db')) :
    db'.QuotaOk ∧ ∀ w : ProgramRow → ℕ, db'.openSum w = db.openSum w := by
  have hlife : initializeLifecycle db = { db with programStats := some ⟨db.openPrograms.length,
        (db.openPrograms.map fun p => p.2.source.utf8ByteSize).sum⟩ } := by
    simp [initializeLifecycle, hnone]
  have hsum : ∀ w : ProgramRow → ℕ, db'.openSum w = db.openSum w := by
    intro w
    rw [initializeSchema_ok h, hlife]
    split <;> rfl
  refine ⟨?_, hsum⟩
  have hstats : db'.programStats = some ⟨db.openPrograms.length,
      (db.openPrograms.map fun p => p.2.source.utf8ByteSize).sum⟩ := by
    rw [initializeSchema_ok h, hlife]
    split <;> rfl
  rw [QuotaOk, hstats, hsum, hsum, openSum_eq, openSum_eq]
  simp [sourceBytes]

theorem quotaOk_after (ho : db.Opened) (h : db.QuotaOk) (ops : List (Op J)) :
    (after S db ops).QuotaOk :=
  run_keeps_all (fun _ _ h hen => h.step (charged_apply hen)) ho h ops

theorem quotaBounded_after (ho : db.Opened) (hok : db.QuotaOk) (h : db.QuotaBounded)
    (ops : List (Op J)) : (after S db ops).QuotaBounded :=
  (run_keeps_all (P := fun db => db.QuotaOk ∧ db.QuotaBounded)
    (fun _ _ h hen => ⟨h.1.step (charged_apply hen), h.2.step h.1 (charged_apply hen)⟩) ho
    ⟨hok, h⟩ ops).2

/-- Along every run of a store that `initialize_schema` opened without a statistics row, as
a new store is: the row holds the number and bytes of the programs without a completion, it
covers each of them, so no decrement is refused, and a catalog within the limits stays
within them. -/
theorem quota_accounting (S : Crates J) {db db₁ : Db} (hnone : db.programStats = none)
    (hinit : initializeSchema db = .ok ((), db₁)) (ops : List (Op J)) :
    (after S db₁ ops).programStats = some ⟨(after S db₁ ops).openPrograms.length,
          ((after S db₁ ops).openPrograms.map fun p => p.2.source.utf8ByteSize).sum⟩ ∧
      (∀ p ∈ (after S db₁ ops).openPrograms,
        (after S db₁ ops).ProgramCharged p.2.source.utf8ByteSize) ∧
      (db.openPrograms.length ≤ maxDurablePrograms →
        (db.openPrograms.map fun p => p.2.source.utf8ByteSize).sum ≤ maxDurableProgramTotalBytes →
        (after S db₁ ops).openPrograms.length ≤ maxDurablePrograms ∧
          ((after S db₁ ops).openPrograms.map fun p => p.2.source.utf8ByteSize).sum ≤
            maxDurableProgramTotalBytes) := by
  obtain ⟨hok₁, hsum⟩ := initializeSchema_quota hnone hinit
  have ho := initializeSchema_opened hinit
  have hok := quotaOk_after (S := S) ho hok₁ ops
  have hlen : ∀ d : Db, (d.openSum fun _ => 1) = d.openPrograms.length := by
    intro d
    simp [openSum_eq]
  have hbytes : ∀ d : Db, d.openSum sourceBytes =
      (d.openPrograms.map fun p => p.2.source.utf8ByteSize).sum := fun d => d.openSum_eq _
  refine ⟨by rw [← hlen, ← hbytes]; exact hok, ?_, ?_⟩
  · intro p hp
    simp only [openPrograms, List.mem_map, List.mem_filter] at hp
    obtain ⟨⟨_, _⟩, ⟨hmem, ho⟩, rfl⟩ := hp
    exact hok.charged (mem_entries.mp hmem) (by simpa [Db.IsOpen] using ho)
  intro hc hb
  have hbound : db₁.QuotaBounded := by
    refine ⟨?_, ?_⟩
    · rw [hsum, hlen]
      exact hc
    · rw [hsum, hbytes]
      exact hb
  have hafter := quotaBounded_after (S := S) ho hok₁ hbound ops
  rw [← hlen, ← hbytes]
  exact ⟨hafter.count, hafter.bytes⟩

/-- A catalog without a statistics row, as an earlier version has left it. -/
def legacyCatalog : Db :=
  { empty with
    programs := (∅ : Table TaskId ProgramRow).insert 7 ⟨.script, "42", bools.sha256 "42", 0⟩
    schemaVersion := some 1 }

theorem quota_accounting_legacy : legacyCatalog.programStats = none ∧
      ∃ db₁, initializeSchema legacyCatalog = .ok ((), db₁) ∧
        (after bools db₁ [.putProgram 8 .module "42" 0]).programStats = some ⟨2, 4⟩ := by
  obtain ⟨db₁, hinit⟩ : ∃ db₁, initializeSchema legacyCatalog = .ok ((), db₁) := ⟨_, rfl⟩
  refine ⟨rfl, db₁, hinit, ?_⟩
  rw [(quota_accounting bools rfl hinit [.putProgram 8 .module "42" 0]).1]
  obtain ⟨-, rfl⟩ := Prod.mk.inj (Except.ok.inj hinit)
  decide

end Tysel.Durable
