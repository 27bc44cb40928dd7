import Mathlib.Algebra.Order.BigOperators.Group.List
import Mathlib.Algebra.Order.Group.Nat
import Tysel.Verification.Durable.Quota
import Tysel.Verification.Durable.Fencing

/-! `load_due_programs_batch` returns the due programs in order. The rows of the `due` query
belong to distinct tasks and to open programs, so the quota keeps the batch within the
limits of the decoder, and no due program is lost to them. What is listed can be claimed at
the time of the query, and what can be claimed without being listed is idle. -/

namespace Tysel.Durable

open List Except Table DurableProgram Db

variable {J : Type} {S : Crates J} {db : Db} {owner : String} {drawn : Option String} {dur : ℕ}
  {t₁ t₂ : ℤ}

def ProgramRow.program (t : TaskId) (row : ProgramRow) : DurableProgram :=
  ⟨t, row.programKind, row.source, row.sourceSha256, row.registeredAtMs⟩

def programsOf (rows : List (TaskId × ProgramRow)) : List DurableProgram :=
  rows.map fun p => p.2.program p.1

theorem decodeProgramRows_ok {rows : List (TaskId × ProgramRow)} (acc : List DurableProgram)
    (total : ℕ) (hv : ∀ p ∈ rows, p.2.Valid S)
    (hcount : acc.length + rows.length ≤ maxDurablePrograms)
    (hbytes : total + (rows.map fun p => sourceBytes p.2).sum ≤ maxDurableProgramTotalBytes) :
    decodeProgramRows S rows acc total = .ok (acc ++ programsOf rows) := by
  induction rows generalizing acc total with
  | nil => simp [decodeProgramRows, programsOf]
  | cons p _ ih =>
    obtain ⟨t, row⟩ := p
    have hro : row.Valid S := hv (t, row) (by simp)
    simp only [length_cons, map_cons, sum_cons] at hcount hbytes
    have hsource : validateProgramSource row.source = .ok () :=
      validateProgramSource_ok.mpr ⟨hro.nonempty, hro.bytes⟩
    have hdecode : decodeProgram S t row = .ok (row.program t) := decodeProgram_ok.mpr ⟨hro, rfl⟩
    have hrest := ih (acc ++ [row.program t]) (total + row.source.utf8ByteSize)
      (fun p hp => hv p (by simp [hp])) (by simp; omega)
      (by simp only [sourceBytes] at hbytes ⊢; omega)
    have hroom : ¬ maxDurableProgramTotalBytes < total + row.source.utf8ByteSize := by
      simp only [sourceBytes] at hbytes
      omega
    rw [decodeProgramRows, reject_of_not _ (by omega), hsource, ok_bind, ok_bind]
    dsimp only
    rw [reject_of_not _ hroom, ok_bind, hdecode, ok_bind, hrest]
    simp [programsOf]

variable {t : TaskId}

theorem Db.mem_due {now due : ℕ} : (due, t) ∈ db.due now ↔
      (∃ w, db.wakeups.get? t = some w ∧ db.wakeupDue now t w ∧ w.wakeAtMs = due) ∨
      (∃ r, db.executions.get? t = some r ∧ db.executionDue now t r ∧
        r.leaseUntilMs.getD 0 = due) := by
  simp only [Db.due, mem_append, mem_map, mem_filter, decide_eq_true_eq,
    Prod.mk.injEq, Sigma.exists, mem_entries]
  constructor
  · rintro (⟨x, w, ⟨hw, hdue⟩, rfl, rfl⟩ | ⟨x, r, ⟨hr, hdue⟩, rfl, rfl⟩)
    · exact .inl ⟨w, hw, hdue, rfl⟩
    · exact .inr ⟨r, hr, hdue, rfl⟩
  · rintro (⟨w, hw, hdue, rfl⟩ | ⟨r, hr, hdue, rfl⟩)
    · exact .inl ⟨t, w, ⟨hw, hdue⟩, rfl, rfl⟩
    · exact .inr ⟨t, r, ⟨hr, hdue⟩, rfl, rfl⟩

theorem Db.due_nodup (now : ℕ) : ((db.due now).map Prod.snd).Nodup := by
  have hwakeups : (db.wakeups.entries.map Sigma.fst).Nodup := db.wakeups.nodupKeys
  have hexecutions : (db.executions.entries.map Sigma.fst).Nodup := db.executions.nodupKeys
  simp only [due, map_append, map_map]
  refine nodup_append.mpr ⟨hwakeups.sublist (filter_sublist.map _),
    hexecutions.sublist (filter_sublist.map _), ?_⟩
  rintro _ hw _ hr rfl
  simp only [mem_map, mem_filter, decide_eq_true_eq, Function.comp_apply, Sigma.exists,
    mem_entries] at hw hr
  obtain ⟨x, _, ⟨hw, -⟩, rfl⟩ := hw
  obtain ⟨x, r, ⟨-, hdue⟩, rfl⟩ := hr
  exact absurd (hw.symm.trans hdue.2.2.1) (by simp)

variable {kind : DurableProgramKind} {row : ProgramRow}

theorem Db.mem_duePrograms {now due : ℕ} : (due, t, row) ∈ db.duePrograms now kind ↔
      (due, t) ∈ db.due now ∧ db.programs.get? t = some row ∧ row.programKind = kind ∧
        db.IsOpen t := by
  simp only [duePrograms, mem_filterMap, Db.IsOpen, Prod.exists]
  constructor
  · rintro ⟨_, _, hmem, hro⟩
    split at hro
    · rename_i hr
      split at hro
      · rename_i hcond
        obtain ⟨rfl, rfl, rfl⟩ := hro
        exact ⟨hmem, hr, hcond.1, by simpa using hcond.2⟩
      · cases hro
    · cases hro
  · rintro ⟨hmem, hro, hkind, hopen⟩
    exact ⟨due, t, hmem, by simp [hro, hkind, hopen]⟩

theorem Db.duePrograms_nodup (now : ℕ) (kind : DurableProgramKind) :
    ((db.duePrograms now kind).map fun d => d.2.1).Nodup := by
  refine pairwise_map.mpr (pairwise_filterMap.mpr ((pairwise_map.mp (db.due_nodup now)).imp ?_))
  intro d d' hne b hb b' hb'
  grind

/-- The due programs in the order of the query, without its limit. -/
def Db.dueOrdered (db : Db) (now : ℕ) (kind : DurableProgramKind) : List (TaskId × ProgramRow) :=
  ((db.duePrograms now kind).insertionSort dueOrder).map Prod.snd

theorem Db.mem_dueOrdered {now : ℕ} :
    (t, row) ∈ db.dueOrdered now kind ↔ ∃ due, (due, t, row) ∈ db.duePrograms now kind := by
  simp [dueOrdered]

theorem Db.dueOrdered_nodup (now : ℕ) (kind : DurableProgramKind) :
    ((db.dueOrdered now kind).map Prod.fst).Nodup := by
  rw [dueOrdered, map_map]
  exact ((perm_insertionSort dueOrder _).map _).nodup_iff.mpr (db.duePrograms_nodup now kind)

theorem Db.dueOrdered_subperm (now : ℕ) (kind : DurableProgramKind) :
    (db.dueOrdered now kind).Subperm db.openPrograms := by
  refine (db.dueOrdered_nodup now kind).of_map.subperm ?_
  rintro ⟨t, row⟩ hmem
  obtain ⟨_, hdue⟩ := mem_dueOrdered.mp hmem
  obtain ⟨-, hro, -, hopen⟩ := mem_duePrograms.mp hdue
  simp only [openPrograms, mem_map, mem_filter]
  exact ⟨⟨t, row⟩, ⟨mem_entries.mpr hro, by simpa [Db.IsOpen] using hopen⟩, rfl⟩

theorem subperm_sum_le {α : Type} {l l' : List α} (f : α → ℕ) (h : l.Subperm l') :
    (l.map f).sum ≤ (l'.map f).sum := by
  obtain ⟨_, hperm, hsub⟩ := h
  rw [← (hperm.map f).sum_eq]
  exact List.Sublist.sum_le_sum (hsub.map f) (by simp)

theorem Db.QuotaBounded.dueOrdered (h : db.QuotaBounded) (now : ℕ) (kind : DurableProgramKind) :
    (db.dueOrdered now kind).length ≤ maxDurablePrograms ∧
      ((db.dueOrdered now kind).map fun p => sourceBytes p.2).sum ≤
        maxDurableProgramTotalBytes := by
  have hsub := db.dueOrdered_subperm now kind
  constructor
  · refine hsub.length_le.trans ?_
    simpa [openSum_eq] using h.count
  · refine (subperm_sum_le _ hsub).trans ?_
    simpa [openSum_eq] using h.bytes

/-- The batch is a front part of the due programs, at every time and for every limit. -/
theorem loadDueProgramsBatch_ok (hv : db.ProgramsValid S) (hbounded : db.QuotaBounded)
    {now : ℕ} (hnow : now < 2 ^ 63) (kind : DurableProgramKind) (limit : ℕ) :
    loadDueProgramsBatch S db now kind limit =
      .ok (programsOf ((db.dueOrdered now kind).take (min limit maxDurablePrograms))) := by
  obtain ⟨hcount, hbytes⟩ := hbounded.dueOrdered now kind
  have hfront : ((db.dueOrdered now kind).take (min limit maxDurablePrograms)).Sublist
      (db.dueOrdered now kind) := take_sublist _ _
  rw [loadDueProgramsBatch, toSqlInteger_of_lt _ hnow, ok_bind]
  dsimp only
  rw [map_take]
  refine (decodeProgramRows_ok [] 0 ?_ ?_ ?_).trans (by rw [nil_append]; rfl)
  · rintro ⟨t, row⟩ hp
    obtain ⟨_, hdue⟩ := mem_dueOrdered.mp (hfront.subset hp)
    exact hv t row (mem_duePrograms.mp hdue).2.1
  · rw [length_nil, zero_add]
    exact hfront.length_le.trans hcount
  · rw [zero_add]
    exact (subperm_sum_le _ hfront.subperm).trans hbytes

/-- A due program has a position in the batch, and every limit beyond it returns it. -/
theorem returned_of_due (hv : db.ProgramsValid S) (hbounded : db.QuotaBounded) {now due : ℕ}
    (hnow : now < 2 ^ 63) (hro : db.programs.get? t = some row) (hkind : row.programKind = kind)
    (hopen : db.IsOpen t) (hdue : (due, t) ∈ db.due now) :
    ∃ position < maxDurablePrograms, ∀ limit, position < limit →
      ∃ progs, loadDueProgramsBatch S db now kind limit = .ok progs ∧
        (progs.map taskId)[position]? = some t := by
  have hmem : (t, row) ∈ db.dueOrdered now kind :=
    mem_dueOrdered.mpr ⟨due, mem_duePrograms.mpr ⟨hdue, hro, hkind, hopen⟩⟩
  obtain ⟨position, hlt, hget⟩ := mem_iff_getElem.mp hmem
  have hbound := hlt.trans_le (hbounded.dueOrdered now kind).1
  refine ⟨position, hbound, fun limit hlimit => ?_⟩
  refine ⟨_, loadDueProgramsBatch_ok hv hbounded hnow kind limit, ?_⟩
  simp [programsOf, hlimit, hbound, hlt, hget, ProgramRow.program]

/-- Nothing but its arguments keeps `claim_run` at this time from granting the task. -/
structure Db.Claimable (db : Db) (t : TaskId) (time : ℕ) : Prop where
  isOpen : db.IsOpen t
  program : (db.programs.get? t).isSome
  free : db.claimBlocked t time = false

def Db.GenerationFits (db : Db) (t : TaskId) : Prop :=
  ∀ r, db.executions.get? t = some r → r.generation + 1 < 2 ^ 63

theorem Db.generationFits_iff : db.GenerationFits t ↔
    ∃ g, nextGeneration (db.executions.get? t) = .ok g := by
  simp only [nextGeneration_ok, exists_eq_left, Db.GenerationFits]
  cases db.executions.get? t <;> simp

theorem ownerToken_some_iff {token : String} : ownerToken owner drawn = .ok token ↔
      validateLeaseOwner owner = .ok () ∧ drawn = some token := by
  cases drawn with
  | none => simp [ownerToken, bind_ok, reduceCtorEq, -bind_pure_comp]
  | some =>
    simp only [ownerToken, bind_ok, pure_ok, exists_and_right, Option.some.injEq]
    exact and_congr_left fun _ => Unique.exists_iff

/-- The state of the store and of the clock in which a claim was granted. -/
structure GrantedAt (db : Db) (t : TaskId) (owner : String) (dur : ℕ)
    (drawn : Option String) (t₁ t₂ : ℤ) (k : ExecutionClaim) (time again : ℕ) :
    Prop where
  owner_ok : validateLeaseOwner owner = .ok ()
  drawn_some : drawn.isSome = true
  first : now t₁ = .ok time
  second : now t₂ = .ok again
  positive : 0 < dur
  deadline : k.leaseUntilMs = time + dur
  range : time + dur < 2 ^ 63
  unexpired : again < time + dur
  generation : db.GenerationFits t
  claimable : db.Claimable t time

theorem claimRun_grantedAt {k : ExecutionClaim} {db' : Db}
    (h : claimRun db t owner dur drawn t₁ t₂ = .ok (some k, db')) :
    ∃ time again, GrantedAt db t owner dur drawn t₁ t₂ k time again := by
  simp only [claimRun, bind_ok, ownerToken_some_iff] at h
  obtain ⟨_, ⟨howner, rfl⟩, h⟩ := h
  split at h
  · simp at h
  rename_i hopen
  split at h
  · simp at h
  rename_i hprogram
  simp only [bind_ok, executionDeadline_ok] at h
  obtain ⟨time, htime, _, ⟨-, _, rfl⟩, h⟩ := h
  split at h
  · simp at h
  rename_i hfree
  simp only [bind_ok, toSqlInteger_ok] at h
  obtain ⟨generation, hgen, _, ⟨hrange, rfl⟩, again, hagain, h⟩ := h
  split at h
  · simp at h
  obtain ⟨rfl, rfl⟩ := h
  refine ⟨time, again, howner, rfl, htime, hagain, by omega, rfl, hrange, by omega,
    generationFits_iff.mpr ⟨_, hgen⟩, ?_, ?_, by simpa using hfree⟩
  · simpa [Db.IsOpen] using hopen
  · simpa [Option.isSome_iff_ne_none] using hprogram

theorem GrantedAt.grants {k : ExecutionClaim} {time again : ℕ}
    (h : GrantedAt db t owner dur drawn t₁ t₂ k time again) :
    ∃ k db', claimRun db t owner dur drawn t₁ t₂ = .ok (some k, db') := by
  obtain ⟨howner, hdrawn, htime, hagain, hpos, -, hrange, hlate, hgen, hclaimable⟩ := h
  obtain ⟨token, rfl⟩ := Option.isSome_iff_exists.mp hdrawn
  obtain ⟨generation, hgeneration⟩ := generationFits_iff.mp hgen
  have htoken : ownerToken owner (some token) = .ok token := ownerToken_some_iff.mpr ⟨howner, rfl⟩
  have hdeadline : executionDeadline time dur = .ok (time + dur) :=
    executionDeadline_ok.mpr ⟨by omega, by omega, rfl⟩
  have hopen : ¬ (db.completions.get? t).isSome = true := by
    rw [show db.completions.get? t = none from hclaimable.isOpen]
    simp
  have hprogram : ¬ (db.programs.get? t).isNone = true := by
    rw [Option.isNone_iff_eq_none, ← Option.not_isSome_iff_eq_none]
    exact not_not_intro hclaimable.program
  refine ⟨⟨t, token, generation, time + dur, (db.wakeups.get? t).map fun w =>
    ⟨t, w.sequence, w.wakeAtMs, token, time + dur⟩⟩,
    db.grantRun t generation token (time + dur), ?_⟩
  rw [claimRun, htoken, ok_bind, if_neg hopen, if_neg hprogram, htime, ok_bind, hdeadline,
    ok_bind, if_neg (by simp [hclaimable.free]), hgeneration, ok_bind,
    toSqlInteger_of_lt _ hrange, ok_bind, hagain, ok_bind, if_neg (by omega)]
  rfl

variable {time : ℕ}

theorem asI64_of_lt (h : time < 2 ^ 63) : asI64 time = time := if_pos h

section

variable (htime : time < 2 ^ 63)

include htime

theorem leaseFree_iff {lease : Option ℕ} :
    leaseFree lease time ↔ (lease.any fun u => asI64 time < (u : ℤ)) = false := by
  cases lease with
  | none => simp [leaseFree]
  | some => simp [leaseFree, asI64_of_lt htime]

theorem ExecutionRow.blocks_eq_false {r : ExecutionRow} :
    r.blocks time = false ↔ (r.state = .ready ∨ r.state = .running ∨ r.state = .suspended) ∧
        leaseFree r.leaseUntilMs time := by
  rw [leaseFree_iff htime]
  unfold ExecutionRow.blocks
  cases r.state <;> simp

theorem WakeupRow.blocks_eq_false {w : WakeupRow} :
    w.blocks time = false ↔ w.wakeAtMs ≤ time ∧ leaseFree w.leaseUntilMs time := by
  rw [leaseFree_iff htime, WakeupRow.blocks, Bool.or_eq_false_iff, asI64_of_lt htime]
  simp

/-- A claim is free of the rows of its task if they are due, or if there is neither a wakeup nor
a wait and the execution is suspended or was never claimed. -/
theorem claimBlocked_eq_false : db.claimBlocked t time = false ↔ (∃ due, (due, t) ∈ db.due time) ∨
        db.wakeups.get? t = none ∧ db.signalWaits.get? t = none ∧
          ∀ r, db.executions.get? t = some r →
            r.state = .suspended ∧ leaseFree r.leaseUntilMs time := by
  have hro : (db.executions.get? t).any (·.blocks time) = false ↔
      ∀ r, db.executions.get? t = some r →
        (r.state = .ready ∨ r.state = .running ∨ r.state = .suspended) ∧
          leaseFree r.leaseUntilMs time := by
    cases db.executions.get? t with
    | none => simp
    | some => simp [ExecutionRow.blocks_eq_false htime]
  rw [claimBlocked, Bool.or_eq_false_iff, hro]
  simp only [mem_due]
  cases hwakeup : db.wakeups.get? t with
  | some w =>
    rw [WakeupRow.blocks_eq_false htime]
    constructor
    · rintro ⟨hexecution, hwake, hlease⟩
      exact .inl ⟨_, .inl ⟨w, rfl, ⟨hwake, hlease, hexecution⟩, rfl⟩⟩
    rintro (⟨due, ⟨w', hw', ⟨hwake, hlease, hexecution⟩, -⟩ | ⟨r, -, hdue, -⟩⟩ | ⟨hnone, -⟩)
    · obtain rfl := Option.some.inj hw'
      exact ⟨hexecution, hwake, hlease⟩
    · exact absurd (hwakeup.symm.trans hdue.2.2.1) (by simp)
    · cases hnone
  | none =>
    constructor
    · rintro ⟨hexecution, hwait⟩
      replace hwait : db.signalWaits.get? t = none := by simpa using hwait
      cases hstored : db.executions.get? t with
      | none => exact .inr ⟨rfl, hwait, by simp⟩
      | some r =>
        obtain ⟨hstate, hlease⟩ := hexecution r hstored
        rcases hstate with hready | hrunning | hsuspended
        · exact .inl ⟨_, .inr ⟨r, rfl, ⟨.inl hready, hlease, hwakeup, hwait⟩, rfl⟩⟩
        · exact .inl ⟨_, .inr ⟨r, rfl, ⟨.inr hrunning, hlease, hwakeup, hwait⟩, rfl⟩⟩
        · refine .inr ⟨rfl, hwait, fun r' hr' => ?_⟩
          obtain rfl := Option.some.inj hr'
          exact ⟨hsuspended, hlease⟩
    · rintro (⟨_, ⟨_, hw', -⟩ | ⟨r, hr, ⟨hstate, hlease, -, hwait⟩, -⟩⟩ | ⟨-, hwait, hexecution⟩)
      · cases hw'
      · refine ⟨fun r' hr' => ?_, by simp [hwait]⟩
        obtain rfl := Option.mem_unique hr hr'
        exact ⟨hstate.imp_right .inl, hlease⟩
      · exact ⟨fun r hr => ⟨.inr (.inr (hexecution r hr).1), (hexecution r hr).2⟩, by simp [hwait]⟩

end

instance {ρ : Type} : Std.Total (dueOrder (ρ := ρ)) where
  total a b := by
    unfold dueOrder
    rcases lt_trichotomy a.1 b.1 with h | h | h
    · exact .inl (.inl h)
    · exact (le_total a.2.1 b.2.1).imp (fun hle => .inr ⟨h, hle⟩) fun hle => .inr ⟨h.symm, hle⟩
    · exact .inr (.inl h)

instance {ρ : Type} : IsTrans (ℕ × TaskId × ρ) dueOrder where
  trans a b c := by
    unfold dueOrder
    rintro (hab | ⟨hab, hab'⟩) (hbc | ⟨hbc, hbc'⟩)
    · exact .inl (hab.trans hbc)
    · exact .inl (hbc ▸ hab)
    · exact .inl (hab ▸ hbc)
    · exact .inr ⟨hab.trans hbc, hab'.trans hbc'⟩

theorem loadDueProgramsBatch_time {limit : ℕ} {progs : List DurableProgram}
    (h : loadDueProgramsBatch S db time kind limit = .ok progs) : time < 2 ^ 63 := by
  simp only [loadDueProgramsBatch, bind_ok, toSqlInteger_ok] at h
  obtain ⟨_, ⟨htime, -⟩, -⟩ := h
  exact htime

theorem now_natCast (h : time < 2 ^ 63) : now (time : ℤ) = .ok time :=
  now_ok.mpr ⟨by omega, by omega, by simp⟩

theorem mem_programsOf_dueOrdered {now : ℕ} {q : DurableProgram} :
    q ∈ programsOf (db.dueOrdered now kind) ↔
      ∃ due row, (due, q.taskId, row) ∈ db.duePrograms now kind ∧ q = row.program q.taskId := by
  simp only [programsOf, mem_map, Prod.exists]
  constructor
  · rintro ⟨_, row, hmem, rfl⟩
    obtain ⟨due, hdue⟩ := mem_dueOrdered.mp hmem
    exact ⟨due, row, hdue, rfl⟩
  · rintro ⟨due, row, hdue, hprogram⟩
    exact ⟨_, row, mem_dueOrdered.mpr ⟨due, hdue⟩, hprogram.symm⟩

/-- In every reachable state: the batch lists distinct tasks, at most `limit`, in the order of
the query. Each of them is granted at the time of the query, for every positive lease that ends
at a SQL integer and while its generation fits one. A task of the kind that is granted at that
time and is not listed by an unlimited batch has neither a wakeup nor a wait, and its execution
row is absent or suspended. -/
theorem due_programs_claimable (S : Crates J) (ops : List (Op J)) (time : ℕ)
    (kind : DurableProgramKind) (limit : ℕ) : (time < 2 ^ 63 →
      ∃ progs, loadDueProgramsBatch S (after S fresh ops) time kind limit = .ok progs) ∧
    (∀ progs, loadDueProgramsBatch S (after S fresh ops) time kind limit = .ok progs →
      (progs.map taskId).Nodup ∧ progs.length ≤ limit ∧
      (∃ rows : List (ℕ × TaskId × ProgramRow), rows.Pairwise dueOrder ∧
        (∀ d ∈ rows, d ∈ (after S fresh ops).duePrograms time kind) ∧
        progs = programsOf (rows.map Prod.snd)) ∧
      ∀ q ∈ progs, ∀ owner dur token, validateLeaseOwner owner = .ok () →
        0 < dur → time + dur < 2 ^ 63 →
        (after S fresh ops).GenerationFits q.taskId →
        ∃ k db', claimRun (after S fresh ops) q.taskId owner dur (some token)
          time time = .ok (some k, db')) ∧ (maxDurablePrograms ≤ limit → ∀ progs,
      loadDueProgramsBatch S (after S fresh ops) time kind limit = .ok progs →
      ∀ t row owner dur drawn k db',
        (after S fresh ops).programs.get? t = some row → row.programKind = kind →
        claimRun (after S fresh ops) t owner dur drawn time time =
          .ok (some k, db') → t ∉ progs.map taskId →
        (after S fresh ops).wakeups.get? t = none ∧ (after S fresh ops).signalWaits.get? t = none ∧
          ∀ r, (after S fresh ops).executions.get? t = some r → r.state = .suspended) := by
  have hv := (sound_after (S := S) ops).programs
  have hbounded : (after S fresh ops).QuotaBounded :=
    quotaBounded_after fresh_opened rfl ⟨by decide, by decide⟩ ops
  generalize after S fresh ops = db at hv hbounded ⊢
  refine ⟨fun htime => ⟨_, loadDueProgramsBatch_ok hv hbounded htime kind limit⟩,
    fun progs hload => ?_, fun hlimit progs hload => ?_⟩
  · have htime := loadDueProgramsBatch_time hload
    rw [loadDueProgramsBatch_ok hv hbounded htime] at hload
    obtain rfl := ok.inj hload
    have hfront := take_sublist (min limit maxDurablePrograms) (db.dueOrdered time kind)
    refine ⟨?_, ?_, ?_, ?_⟩
    · rw [programsOf, map_map]
      exact (db.dueOrdered_nodup time kind).sublist (hfront.map _)
    · simp [programsOf]
    · refine ⟨((db.duePrograms time kind).insertionSort dueOrder).take _,
        (pairwise_insertionSort dueOrder _).sublist (take_sublist _ _), fun d hd => ?_,
        by rw [dueOrdered, map_take]⟩
      exact (mem_insertionSort dueOrder).mp (mem_of_mem_take hd)
    intro q hmem owner dur token howner hpos hlease hgen
    obtain ⟨due, _, hdue, -⟩ := mem_programsOf_dueOrdered.mp ((hfront.map _).subset hmem)
    have hnow := now_natCast htime
    obtain ⟨hdue, hro, -, hopen⟩ := mem_duePrograms.mp hdue
    have hfree := (claimBlocked_eq_false htime).mpr (.inl ⟨due, hdue⟩)
    exact GrantedAt.grants (k := ⟨q.taskId, owner, 0, _, none⟩) ⟨howner, rfl, hnow, hnow, hpos,
      rfl, hlease, by omega, hgen, hopen, by rw [hro]; rfl, hfree⟩
  · intro t row owner dur drawn k db' hro hkind hclaim hunlisted
    have htime := loadDueProgramsBatch_time hload
    rw [loadDueProgramsBatch_ok hv hbounded htime, min_eq_right hlimit,
      take_of_length_le (hbounded.dueOrdered time kind).1] at hload
    obtain rfl := ok.inj hload
    obtain ⟨_, _, hg⟩ := claimRun_grantedAt hclaim
    obtain rfl := ok.inj ((now_natCast htime).symm.trans hg.first)
    rcases (claimBlocked_eq_false htime).mp hg.claimable.free with
      ⟨due, hdue⟩ | ⟨hwakeup, hwait, hstate⟩
    · refine absurd ?_ hunlisted
      have hlisted : (due, t, row) ∈ db.duePrograms time kind :=
        mem_duePrograms.mpr ⟨hdue, hro, hkind, hg.claimable.isOpen⟩
      exact mem_map.mpr ⟨row.program t, mem_programsOf_dueOrdered.mpr ⟨due, row, hlisted, rfl⟩, rfl⟩
    · exact ⟨hwakeup, hwait, fun r hr => (hstate r hr).1⟩

/-- A program that was just admitted is listed and granted. -/
theorem due_programs_claimable_ready : (loadDueProgramsBatch bools
        (after bools fresh [.admitModule 7 "key" "42" "true" 0]) 5 .module 1).toOption.map
        (List.map taskId) = some [7] ∧
      ∃ k db', claimRun (after bools fresh [.admitModule 7 "key" "42" "true" 0]) 7
        "host" 10 (some "token") 5 5 = .ok (some k, db') := by
  have hlisted : (loadDueProgramsBatch bools
      (after bools fresh [.admitModule 7 "key" "42" "true" 0]) 5 .module 1).toOption.map
      (map taskId) = some [7] := by
    decide +kernel
  refine ⟨hlisted, ?_⟩
  obtain ⟨hloads, hbatch, -⟩ := due_programs_claimable bools
    [.admitModule 7 "key" "42" "true" 0] 5 .module 1
  obtain ⟨progs, hload⟩ := hloads (by decide)
  obtain ⟨-, -, -, hgrants⟩ := hbatch progs hload
  rw [hload] at hlisted
  obtain ⟨q, hmem, htask⟩ : ∃ q ∈ progs, q.taskId = 7 :=
    mem_map.mp ((Option.some.inj hlisted).symm ▸ mem_singleton_self 7)
  have hgranted := hgrants q hmem "host" 10 "token" (by decide) (by decide) (by decide)
  rw [htask] at hgranted
  refine hgranted fun r hr => ?_
  obtain rfl := Option.some.inj (hr.symm.trans (show _ = some ⟨.ready, 0, none, none,
    some "key", some (bools.sha256 "42\x00true")⟩ by decide +kernel))
  decide

/-- At the last time that SQL can hold no lease is granted, and the batch still lists the task. -/
theorem last_time_not_claimable : (loadDueProgramsBatch bools
        (after bools fresh [.admitModule 7 "key" "42" "true" 0]) (2 ^ 63 - 1) .module
        1).toOption.map (List.map taskId) = some [7] ∧
      ∀ owner dur drawn, ¬ ∃ k db', claimRun
        (after bools fresh [.admitModule 7 "key" "42" "true" 0]) 7 owner dur drawn
        (2 ^ 63 - 1) (2 ^ 63 - 1) = .ok (some k, db') := by
  refine ⟨by decide +kernel, fun owner dur drawn ⟨_, _, hgranted⟩ => ?_⟩
  obtain ⟨_, _, -, -, hnow, -, _, -, _, -⟩ := claimRun_grantedAt hgranted
  obtain ⟨-, -, rfl⟩ := now_ok.mp hnow
  omega

instance : Std.Total fun a b : TaskId × ProgramRow => a.1 ≤ b.1 := ⟨fun a b => le_total a.1 b.1⟩

instance : IsTrans (TaskId × ProgramRow) fun a b => a.1 ≤ b.1 := ⟨fun _ _ _ => le_trans⟩

/-- In every reachable state `load_programs` succeeds: the quota of the store keeps the open
programs within the limits of the decoder. It returns all of them, in the order of their tasks, and
`program_count` is their number. -/
theorem open_programs_loaded (S : Crates J) (ops : List (Op J)) :
    ∃ rows, rows.Perm (after S fresh ops).openPrograms ∧ rows.Pairwise (fun a b => a.1 ≤ b.1) ∧
      loadPrograms S (after S fresh ops) = .ok (programsOf rows) ∧
      programCount (after S fresh ops) = .ok rows.length := by
  have hv := (sound_after (S := S) ops).programs
  have hquota : (after S fresh ops).QuotaOk := quotaOk_after fresh_opened rfl ops
  have hbounded : (after S fresh ops).QuotaBounded :=
    quotaBounded_after fresh_opened rfl ⟨by decide, by decide⟩ ops
  generalize after S fresh ops = db at hv hquota hbounded ⊢
  have hsorted := pairwise_insertionSort (fun a b => a.1 ≤ b.1) db.openPrograms
  have hperm := perm_insertionSort (fun a b => a.1 ≤ b.1) db.openPrograms
  have hload : loadPrograms S db = decodeProgramRows S
      ((db.openPrograms.insertionSort fun a b => a.1 ≤ b.1).take (maxDurablePrograms + 1)) [] 0 :=
    rfl
  generalize db.openPrograms.insertionSort (fun a b => a.1 ≤ b.1) = rows at hsorted hperm hload
  have hlength : rows.length = db.openSum fun _ => 1 := by simp [hperm.length_eq, openSum_eq]
  have hcount := hbounded.count
  have hbytes : (rows.map fun p => sourceBytes p.2).sum ≤ maxDurableProgramTotalBytes := by
    simpa [(hperm.map _).sum_eq, openSum_eq] using hbounded.bytes
  refine ⟨rows, hperm, hsorted, ?_, ?_⟩
  · rw [hload, take_of_length_le (by omega)]
    refine decodeProgramRows_ok [] 0 (fun p hp => ?_) (by simp; omega) (by simpa using hbytes)
    obtain ⟨_, he, rfl⟩ := mem_map.mp (hperm.subset hp)
    exact hv _ _ (mem_entries.mp (mem_of_mem_filter he))
  · simp only [programCount, selectProgramStats, show db.programStats = _ from hquota, hlength]
    rfl

end Tysel.Durable
