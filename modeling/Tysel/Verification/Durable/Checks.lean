import Tysel.Verification.Durable.Effects

/-! One rule per check: the facts that hold when it passes. The specifications of the
operations are assembled from these rules. -/

namespace Tysel.Durable

open ExecutionClaim Db

variable {J : Type} {u : Unit} {v : ℕ} {clock : ℤ} {key payload : String}
  {k : ExecutionClaim} {program : DurableProgram}

theorem toSqlInteger_ok {r : ℕ} {field : String} :
    toSqlInteger v field = .ok r ↔ v < 2 ^ 63 ∧ v = r := by
  unfold toSqlInteger
  split <;> simp_all

theorem toSqlInteger_of_lt (field : String) (h : v < 2 ^ 63) : toSqlInteger v field = .ok v :=
  if_pos h

theorem checkedAdd_eq_some {a b c : ℕ} : checkedAdd a b = some c ↔ a + b < 2 ^ 64 ∧ a + b = c := by
  unfold checkedAdd
  split <;> simp_all

theorem now_ok {x : ℕ} : now clock = .ok x ↔ 0 ≤ clock ∧ clock < 2 ^ 64 ∧ clock.toNat = x := by
  unfold now
  split
  · simp
    omega
  · split <;> simp <;> omega

theorem validateProgramSource_ok {source : String} : validateProgramSource source = .ok u ↔
      source ≠ "" ∧ source.utf8ByteSize ≤ maxDurableProgramBytes := by
  simp [validateProgramSource]

theorem validateKey_ok :
    validateKey key = .ok u ↔ key ≠ "" ∧ key.utf8ByteSize ≤ maxIdempotencyKeyBytes := by
  simp [validateKey]

variable {S : Crates J} {ev : NewEvent J} {time : ℕ}

theorem parseJson_ok {text : String} {v : J} :
    parseJson S text = .ok v ↔ S.fromStr text = some v := by
  unfold parseJson
  split <;> simp_all

theorem validateEvent_ok : validateEvent S ev = .ok (payload, time) ↔
      ev.key.utf8ByteSize ≤ maxEventKeyBytes ∧
        (S.toStr ev.payload).utf8ByteSize ≤ maxEventPayloadBytes ∧
        ev.recordedAtMs < 2 ^ 63 ∧ S.toStr ev.payload = payload ∧
        ev.recordedAtMs = time := by
  simp only [validateEvent, bind_ok, reject_ok, pure_ok, toSqlInteger_ok,
    Prod.mk.injEq, not_lt, exists_const]
  constructor
  · rintro ⟨hk, hp, _, ⟨ht, rfl⟩, rfl, rfl⟩
    exact ⟨hk, hp, ht, rfl, rfl⟩
  · rintro ⟨hk, hp, ht, rfl, rfl⟩
    exact ⟨hk, hp, _, ⟨ht, rfl⟩, rfl, rfl⟩

theorem rawEvent_ok {kind : EventKind} {payloadJson : String} :
    rawEvent S kind key payloadJson time = .ok ev ↔
      key.utf8ByteSize ≤ maxEventKeyBytes ∧ payloadJson.utf8ByteSize ≤ maxEventPayloadBytes ∧
        ∃ v, S.fromStr payloadJson = some v ∧ ⟨kind, key, v, time⟩ = ev := by
  simp only [rawEvent, bind_ok, parseJson_ok, reject_ok, pure_ok, not_lt, exists_const]

variable {db : Db} {t : TaskId}

theorem ensureOpen_ok : ensureOpen db t = .ok u ↔ db.IsOpen t := by
  simp [ensureOpen, Db.IsOpen]

def ExecutionClaim.Passes (k : ExecutionClaim) (db : Db) (t : TaskId) (clock : ℤ) : Prop :=
  guardExecution (some k) db t clock = .ok ()

theorem ExecutionClaim.passes_iff :
    k.Passes db t clock ↔ k.generation < 2 ^ 63 ∧ 0 ≤ clock ∧ clock.toNat < 2 ^ 63 ∧ t = k.taskId ∧
        ∃ r, db.executions.get? t = some r ∧ k.holds clock.toNat r = true := by
  simp only [Passes, guardExecution, bind_ok, toSqlInteger_ok, now_ok,
    reject_ok, not_or, not_not, Bool.not_eq_false, Option.any_eq_true_iff_get]
  constructor
  · rintro ⟨_, ⟨hg, _⟩, x, ⟨h0, _, ht⟩, _, ⟨h63, rfl⟩, htask, hval⟩
    subst ht
    refine ⟨hg, h0, h63, htask, ?_⟩
    cases hr : db.executions.get? t with
    | none => simp [hr] at hval
    | some r => exact ⟨r, rfl, by simpa [hr] using hval⟩
  · rintro ⟨hg, h0, h63, htask, r, hr, hval⟩
    exact ⟨_, ⟨hg, rfl⟩, _, ⟨h0, by omega, rfl⟩, _, ⟨h63, rfl⟩, htask, by simp [hr, hval]⟩

theorem ExecutionClaim.holds_iff {r : ExecutionRow} : k.holds time r = true ↔
      r.state = .running ∧ r.owner = some k.owner ∧ r.generation = k.generation ∧
        ∃ u, r.leaseUntilMs = some u ∧ time < u := by
  cases h : r.leaseUntilMs <;> simp [holds, h, and_assoc]

theorem guardExecution_ok {execution : Option ExecutionClaim} :
    guardExecution execution db t clock = .ok u ↔
      ∀ k, execution = some k → k.Passes db t clock := by
  cases execution with
  | none => simp [guardExecution]
  | some => simp [Passes]

theorem decodeProgram_ok {row : ProgramRow} : decodeProgram S t row = .ok program ↔ row.Valid S ∧
        ⟨t, row.programKind, row.source, row.sourceSha256, row.registeredAtMs⟩ = program := by
  simp only [decodeProgram, bind_ok, validateProgramSource_ok, reject_ok, pure_ok,
    not_not, exists_const]
  constructor
  · rintro ⟨⟨hne, hb⟩, hd, rfl⟩
    exact ⟨⟨hne, hb, hd⟩, rfl⟩
  · rintro ⟨⟨hne, hb, hd⟩, rfl⟩
    exact ⟨⟨hne, hb⟩, hd, rfl⟩

theorem selectProgram_eq_none : selectProgram S db t = .ok none ↔ db.programs.get? t = none := by
  unfold selectProgram
  cases db.programs.get? t with
  | none => simp
  | some => simp only [bind_ok, pure_ok, reduceCtorEq, and_false, exists_false]

theorem selectProgram_eq_some : selectProgram S db t = .ok (some program) ↔
      ∃ row, db.programs.get? t = some row ∧ decodeProgram S t row = .ok program := by
  unfold selectProgram
  cases db.programs.get? t with
  | none => simp
  | some => simp only [bind_ok, pure_ok, Option.some.injEq, exists_eq_right, exists_eq_left']

theorem selectProgramStats_ok {stats : ProgramStatsRow} :
    selectProgramStats db = .ok stats ↔ db.programStats = some stats := by
  unfold selectProgramStats
  split <;> simp_all

theorem dischargeProgram_ok {db' : Db} {bs : ℕ} :
    db.dischargeProgram bs = .ok db' ↔ db.ProgramCharged bs ∧ db.discharge bs = db' := by
  unfold dischargeProgram
  cases h : db.programStats with
  | none =>
    have hsame : db.discharge bs = db := by
      obtain ⟨⟩ := db
      simp_all [discharge]
    simp [ProgramCharged, h, hsame]
  | some s =>
    by_cases hc : 1 ≤ s.activeCount ∧ bs ≤ s.activeBytes
    · simp [hc, ProgramCharged, discharge, h]
    · simp [hc, ProgramCharged, h]

theorem insertEvent_ok {db' : Db} {expected : Option ℕ} {sequence : ℕ} :
    insertEvent db t expected ev payload time = .ok (sequence, db') ↔
      db.Appendable ⟨t, sequence, ev.kind, ev.key, payload, time⟩ ∧
        (∀ n, expected = some n → n = sequence) ∧
        db.insertEventRow ⟨t, sequence, ev.kind, ev.key, payload, time⟩ = db' := by
  cases expected with
  | none =>
    simp only [insertEvent, bind_ok, ensureOpen_ok, reject_ok, pure_ok, not_le,
      not_lt, Prod.mk.injEq, exists_const]
    constructor
    · rintro ⟨hopen, hcount, hbytes, rfl, rfl⟩
      exact ⟨⟨hopen, ⟨hcount, hbytes⟩, rfl⟩, by simp, rfl⟩
    · rintro ⟨⟨hopen, ⟨hcount, hbytes⟩, hseq⟩, -, rfl⟩
      obtain rfl : sequence = db.nextSequence t := hseq
      exact ⟨hopen, hcount, hbytes, rfl, rfl⟩
  | some n =>
    simp only [insertEvent, bind_ok, ensureOpen_ok, reject_ok, pure_ok, not_le,
      not_lt, not_not, Prod.mk.injEq, exists_const]
    constructor
    · rintro ⟨hopen, hcount, hbytes, rfl, rfl, rfl⟩
      exact ⟨⟨hopen, ⟨hcount, hbytes⟩, rfl⟩, by simp, rfl⟩
    · rintro ⟨⟨hopen, ⟨hcount, hbytes⟩, hseq⟩, hexp, rfl⟩
      obtain rfl : sequence = db.nextSequence t := hseq
      exact ⟨hopen, hcount, hbytes, (hexp n rfl).symm, rfl, rfl⟩

end Tysel.Durable
