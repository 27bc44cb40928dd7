import Tysel.Verification.Durable.Backends
import Tysel.Verification.Durable.Terminal

/-! An admission is recognised by its key and by the digest of its source and canonical input.
The statements are about any store that follows the SQLite store call by call; both stores of
the crate do. -/

namespace Tysel.Durable

open List Db Postgres Sqlite

variable {J : Type} {S : Crates J} {nv : ℕ → ℕ} {σ : Type}

/-- The bytes `fingerprint` hashes: source, NUL, canonical input. -/
def hashedText (S : Crates J) (source input : String) : String :=
  source ++ "\x00" ++ canonicalInput S input

/-- `serde_json` escapes control characters, so printed JSON has no NUL. -/
def Crates.NulFree (S : Crates J) : Prop := ∀ v, '\x00' ∉ (S.toStr v).toList

/-- A separator that does not occur behind it can be found from the end. -/
theorem append_separator_inj {α : Type} [DecidableEq α] {sep : α} {a a' b b' : List α}
    (hb : sep ∉ b) (hb' : sep ∉ b') (h : a ++ sep :: b = a' ++ sep :: b') : a = a' ∧ b = b' := by
  have hlength : b.length = b'.length := by
    have hindex := congrArg (fun l => l.reverse.idxOf sep) h
    simpa [idxOf_append, hb, hb'] using hindex
  obtain ⟨ha, hsep⟩ := append_inj' h (by simp [hlength])
  exact ⟨ha, (cons.inj hsep).2⟩

theorem hashedText_toList (source input : String) : (hashedText S source input).toList =
      source.toList ++ '\x00' :: (canonicalInput S input).toList := by
  simp [hashedText]

/-- The hashed text determines source and canonical input, whatever the source contains. -/
theorem hashedText_injective (hnul : S.NulFree) {source source' input input' : String}
    {v value' : J} (hparse : S.fromStr input = some v) (hparse' : S.fromStr input' = some value')
    (h : hashedText S source input = hashedText S source' input') :
    source = source' ∧ canonicalInput S input = canonicalInput S input' := by
  have hcanon : canonicalInput S input = S.toStr v := by simp [canonicalInput, hparse]
  have hcanon' : canonicalInput S input' = S.toStr value' := by simp [canonicalInput, hparse']
  have hlist := congrArg String.toList h
  rw [hashedText_toList, hashedText_toList, hcanon, hcanon'] at hlist
  obtain ⟨hs, hc⟩ := append_separator_inj (hnul v) (hnul value') hlist
  exact ⟨String.toList_injective hs, by rw [hcanon, hcanon', String.toList_injective hc]⟩

/-- The arguments of an admission other than the task and the time. -/
structure Admission where
  key : String
  source : String
  input : String

namespace Admission

/-- The arguments pass the checks in front of the transaction. -/
structure Valid (S : Crates J) (a : Admission) : Prop where
  key : a.key ≠ "" ∧ a.key.utf8ByteSize ≤ maxIdempotencyKeyBytes
  source : a.source ≠ "" ∧ a.source.utf8ByteSize ≤ maxDurableProgramBytes
  size : a.input.utf8ByteSize ≤ maxEventPayloadBytes
  json : (S.fromStr a.input).isSome

/-- The same key, the same source and the same canonical input. -/
def Same (S : Crates J) (a b : Admission) : Prop :=
  b.key = a.key ∧ b.source = a.source ∧ canonicalInput S b.input = canonicalInput S a.input

instance (S : Crates J) (a b : Admission) : Decidable (a.Same S b) :=
  inferInstanceAs (Decidable (_ ∧ _ ∧ _))

def call (a : Admission) (t : TaskId) (time : ℕ) : StoreCall J :=
  .admitModule t a.key a.source a.input time

def Distinguished (S : Crates J) (a b : Admission) : Prop :=
  S.sha256 (hashedText S a.source a.input) = S.sha256 (hashedText S b.source b.input) →
    hashedText S a.source a.input = hashedText S b.source b.input

end Admission

variable {a : Admission}

theorem fingerprint_of_valid (h : a.Valid S) : fingerprint S a.source a.input =
      .ok (requestHash S a.source a.input, canonicalInput S a.input) := by
  obtain ⟨_, hvalue⟩ := Option.isSome_iff_exists.mp h.json
  have hsource := validateProgramSource_ok (u := ()) |>.mpr h.source
  have hjson := parseJson_ok.mpr hvalue
  simp only [fingerprint, hsource, reject_of_not _ (Nat.not_lt.mpr h.size), hjson, ok_bind,
    requestHash, canonicalInput, hvalue, Option.map_some, Option.getD_some]
  rfl

/-- The execution row of an admitted task, whatever its state. -/
def Db.Admitted (db : Db) (t : TaskId) (key hash : String) : Prop :=
  ∃ row, db.executions.get? t = some row ∧ row.admissionKey = some key ∧ row.requestHash = some hash

variable {t : TaskId} {db : Db} {row : ExecutionRow} {time : ℕ}

theorem Db.Admitted.apply {key hash : String} (h : db.Admitted t key hash) {e : Effect}
    (hen : e.Enabled S db) (hkeep : e ≠ .prune t) : (e.apply db).Admitted t key hash := by
  obtain ⟨row, hrow, hkey, hhash⟩ := h
  obtain ⟨row', hrow', hkey', hhash', -⟩ := execution_kept hen hkeep hrow
  exact ⟨row', hrow', hkey'.trans hkey, hhash'.trans hhash⟩

structure Created (S : Crates J) (db : Db) (t : TaskId) (a : Admission) (time : ℕ) : Prop where
  program : db.programs.get? t = some ⟨.module, a.source, S.sha256 a.source, time⟩
  events : db.eventsOf t = [⟨t, 0, .step, taskInputKey, canonicalInput S a.input, time⟩]
  execution : db.executions.get? t =
    some ⟨.ready, 0, none, none, some a.key, some (requestHash S a.source a.input)⟩

theorem admitModule_created {db' : Db} (hsound : db.Sound S) {u : Unit}
    (hnone : db.executions.get? t = none)
    (h : admitModule S db t a.key a.source a.input time = .ok (u, db')) :
    Created S db' t a time := by
  simp only [admitModule, bind_ok, Prod.exists] at h
  obtain ⟨-, -, _, _, hfp, h⟩ := h
  obtain ⟨hne, hbytes, hhash, rfl⟩ := fingerprint_ok hfp
  simp only [hnone] at h
  obtain ⟨hen, rfl, -⟩ := admitNew_commits hne hbytes hnone h
  have hempty : db.eventsOf t = [] := by
    have hnext : 0 = db.nextSequence t := hen.1.sequence
    rw [(hsound.history t).nextSequence] at hnext
    exact length_eq_zero_iff.mp hnext.symm
  refine ⟨?_, ?_, ?_⟩
  · exact Table.get?_insert_self _ _ _
  · rw [eventsOf_apply db (by simp), hempty]
    simp [Effect.appended]
  · rw [Effect.apply_executions]
    exact (Table.get?_insert_self _ _ _).trans (by rw [hhash]; rfl)

/-- A store behind the trait, with the tables it holds. -/
structure Backend (J : Type) where
  State : Type
  start : State
  step : State → StoreCall J → Except DurableError (Answer J) × State
  tables : State → Db

def sqliteBackend (S : Crates J) : Backend J := ⟨Db, Db.fresh, step S, id⟩

def postgresBackend (S : Crates J) (nv : ℕ → ℕ) : Backend J :=
  ⟨PostgresDb, PostgresDb.fresh, Postgres.step S nv, PostgresDb.tables⟩

/-- The completion of the task, and with it all of its rows, was deleted by this call. -/
def Backend.Prunes (B : Backend J) (t : TaskId)
    (e : Entry B.State (StoreCall J) (Except DurableError (Answer J))) : Prop :=
  ((B.tables e.before).completions.get? t).isSome ∧ (B.tables e.after).completions.get? t = none

/-- The answer to an admission of a task that has an execution row. -/
def recognise {σ : Type} (S : Crates J) (row : ExecutionRow) (a : Admission) (s : σ) :
    Except DurableError (Unit × σ) := do
  validateKey a.key
  let (hash, _) ← fingerprint S a.source a.input
  reject (row.admissionKey ≠ some a.key ∨ row.requestHash ≠ some hash) .admissionConflict
  return ((), s)

theorem Sqlite.step_recognise (h : db.executions.get? t = some row) : step S db (a.call t time) =
      settle db (answering (fun u => .reply (.unit u)) (recognise S row a db)) := by
  have hadmit : admitModule S db t a.key a.source a.input time = recognise S row a db := by
    unfold admitModule recognise
    simp only [h]
  have hserve : serve S db (a.call t time) =
      answering .reply (replying .unit (recognise S row a db)) := by
    rw [← hadmit]
    rfl
  unfold step
  rw [hserve]
  cases recognise S row a db <;> rfl

theorem Postgres.step_recognise {pg : PostgresDb} (h : pg.tables.executions.get? t = some row) :
    step S nv pg (a.call t time) =
      settle pg (answering (fun u => .reply (.unit u)) (recognise S row a pg)) := by
  have hadmit : admitModule S pg t a.key a.source a.input time = recognise S row a pg := by
    have hget : (pg.lockRow t).tables.executions.get? t = some row := h
    unfold admitModule recognise
    simp only [hget]
  rw [← hadmit]
  rfl

/-- A store that follows the SQLite store call by call. -/
structure Backend.Follows (B : Backend J) (S : Crates J) (Rel : B.State → Db → Prop) : Prop where
  start : Rel B.start Db.fresh
  step : ∀ {s db} c, Rel s db → Rel (B.step s c).2 (Sqlite.step S db c).2
  tables : ∀ {s db}, Rel s db → ∃ nv, B.tables s = db.rename nv
  steady : ∀ {s db}, Rel s db → db.Steady S
  accepts : ∀ {s db} c answer, Rel s db → (B.step s c).1 = .ok answer →
    ∃ answer', (Sqlite.step S db c).1 = .ok answer'
  rollback : ∀ s c e, (B.step s c).1 = .error e → (B.step s c).2 = s
  recognises : ∀ {s db} (t : TaskId) (a : Admission) (time : ℕ) {row : ExecutionRow},
    Rel s db → db.executions.get? t = some row → B.step s (a.call t time) =
        settle s (answering (fun u => .reply (.unit u)) (recognise S row a s))

theorem settle_error {s : σ} {x : Except DurableError (Answer J × σ)} {e : DurableError}
    (h : (settle s x).1 = .error e) : (settle s x).2 = s := by
  cases x with
  | error => rfl
  | ok => cases h

theorem Db.rename_id (db : Db) : db.rename id = db := by
  have hinbox : InboxRow.rename id = id := rfl
  have hreceipts : ReceiptRow.rename id = id := rfl
  simp only [rename, hinbox, hreceipts, map_id]

theorem sqlite_follows (S : Crates J) :
    (sqliteBackend S).Follows S fun s db => s = db ∧ db.Steady S where
  start := ⟨rfl, fresh_steady⟩
  step := by
    rintro _ _ c ⟨rfl, h⟩
    exact ⟨rfl, h.step c⟩
  tables := by
    rintro s _ ⟨rfl, -⟩
    exact ⟨id, (rename_id s).symm⟩
  steady h := h.2
  accepts := by
    rintro _ _ _ answer ⟨rfl, -⟩ h
    exact ⟨answer, h⟩
  rollback _ _ _ h := settle_error h
  recognises := by
    rintro _ _ _ _ _ _ ⟨rfl, -⟩ hrow
    exact step_recognise hrow

theorem postgres_follows (S : Crates J) (hmono : StrictMono nv) :
    (postgresBackend S nv).Follows S fun pg db => pg.Mirrors nv db ∧ db.Steady S where
  start := ⟨⟨rfl, fun _ hs => by cases hs⟩, fresh_steady⟩
  step := by
    rintro _ _ c ⟨hm, h⟩
    have hagree := step_agree hmono hm h c
    exact ⟨⟨hagree.tables, hagree.locked⟩, h.step c⟩
  tables h := ⟨nv, h.1.tables⟩
  steady h := h.2
  accepts := by
    rintro pg db c answer ⟨hm, h⟩ hok
    have hout := (step_agree hmono hm h c).outcome
    change Related _ _ (step S db c).1 (step S nv pg c).1 at hout
    rw [show (step S nv pg c).1 = .ok answer from hok] at hout
    generalize (step S db c).1 = x at hout
    cases hout with
    | ok => exact ⟨_, rfl⟩
  rollback _ _ _ h := settle_error h
  recognises := by
    rintro pg _ t _ _ row ⟨hm, -⟩ hrow
    have hget : pg.tables.executions.get? t = some row := by
      rw [hm.tables]
      exact hrow
    exact step_recognise hget

section Follows

variable {B : Backend J} {Rel : B.State → Db → Prop}

theorem Backend.Follows.run (h : B.Follows S Rel) {s : B.State} (hrel : Rel s db)
    (calls : List (StoreCall J)) : Rel (run B.step s calls) (run (Sqlite.step S) db calls) := by
  induction calls generalizing s db with
  | nil => exact hrel
  | cons c _ ih => exact ih (h.step c hrel)

theorem Backend.Follows.admitted (h : B.Follows S Rel) {key hash : String}
    {s : B.State} (hrel : Rel s db) (hadmitted : db.Admitted t key hash)
    (calls : List (StoreCall J)) (hkept : ∀ e ∈ trace B.step s calls, ¬ B.Prunes t e) :
    (Tysel.run (Sqlite.step S) db calls).Admitted t key hash := by
  induction calls generalizing s db with
  | nil => exact hadmitted
  | cons c _ ih =>
    obtain ⟨hhead, htail⟩ := forall_mem_cons.mp hkept
    refine ih (h.step c hrel) ?_ htail
    cases hop : c.op? with
    | none =>
      have hstate : (Sqlite.step S db c).2 = db := Sqlite.step_of_read hop
      rw [hstate]
      exact hadmitted
    | some op =>
      have hstate : (Sqlite.step S db c).2 = (call S db op).2 := Sqlite.step_of_op hop
      rw [hstate]
      refine run_keeps (P := fun d => d.Admitted t key hash)
        (fun e => e ≠ .prune t) (fun c => ¬ c.Prunes t) Committed.keeps_task
        (fun _ _ hgood hp hen => hp.apply hen hgood) (h.steady hrel).opened hadmitted [op] ?_
      intro e he hprunes
      obtain rfl := mem_singleton.mp he
      obtain ⟨_, hbefore⟩ := h.tables hrel
      obtain ⟨m, hafter⟩ := h.tables (h.step c hrel)
      refine hhead ⟨?_, ?_⟩
      · change ((B.tables s).completions.get? t).isSome
        rw [hbefore]
        exact hprunes.2.1
      · change (B.tables (B.step s c).2).completions.get? t = none
        rw [hafter, hstate]
        exact hprunes.2.2

end Follows

theorem Admission.valid_of_ok {u : Unit} {p : String × String} (hkey : validateKey a.key = .ok u)
    (hfp : fingerprint S a.source a.input = .ok p) : a.Valid S := by
  simp only [fingerprint, bind_ok, validateProgramSource_ok, parseJson_ok, reject_ok,
    pure_ok, not_lt, exists_const] at hfp
  obtain ⟨hsource, hsize, _, hvalue, -⟩ := hfp
  exact ⟨validateKey_ok.mp hkey, hsource, hsize, by simp [hvalue]⟩

theorem recognise_invalid (row : ExecutionRow) (h : ¬ a.Valid S) (s : σ) :
    ∃ e, e.isArgument = true ∧ recognise S row a s = .error e := by
  unfold recognise
  cases hkey : validateKey a.key with
  | error e => exact ⟨e, (validateKey_errs a.key).isArgument rfl hkey, rfl⟩
  | ok =>
    cases hfp : fingerprint S a.source a.input with
    | error e => exact ⟨e, (fingerprint_errs a.source a.input).isArgument rfl hfp, rfl⟩
    | ok => exact absurd (Admission.valid_of_ok hkey hfp) h

theorem recognise_valid (row : ExecutionRow) (h : a.Valid S) (s : σ) :
    recognise S row a s = (reject (row.admissionKey ≠ some a.key ∨
        row.requestHash ≠ some (requestHash S a.source a.input)) .admissionConflict >>=
          fun _ => .ok ((), s)) := by
  unfold recognise
  rw [validateKey_ok (u := ()) |>.mpr h.key, fingerprint_of_valid h]
  rfl

theorem recognised_iff (hnul : S.NulFree) {b : Admission} (ha : a.Valid S)
    (hb : b.Valid S) (hdistinct : b.Distinguished S a) (hkey : row.admissionKey = some a.key)
    (hhash : row.requestHash = some (requestHash S a.source a.input)) :
    (row.admissionKey ≠ some b.key ∨
      row.requestHash ≠ some (requestHash S b.source b.input)) ↔ ¬ a.Same S b := by
  obtain ⟨_, hvalue⟩ := Option.isSome_iff_exists.mp ha.json
  obtain ⟨value', hvalue'⟩ := Option.isSome_iff_exists.mp hb.json
  rw [hkey, hhash, ← not_and_or, not_iff_not]
  constructor
  · rintro ⟨hk, hh⟩
    have htext := hdistinct (Option.some.inj hh).symm
    obtain ⟨hs, hc⟩ := hashedText_injective hnul hvalue' hvalue htext
    exact ⟨(Option.some.inj hk).symm, hs, hc⟩
  · rintro ⟨hk, hs, hc⟩
    rw [hk, requestHash, requestHash, hs, hc]
    exact ⟨rfl, rfl⟩

theorem Backend.Follows.admits {B : Backend J} {Rel : B.State → Db → Prop} (h : B.Follows S Rel)
    {s : B.State} (hrel : Rel s db) {answer : Answer J}
    (hok : (B.step s (a.call t time)).1 = .ok answer) : a.Valid S ∧
      (Sqlite.step S db (a.call t time)).2.Admitted t a.key (requestHash S a.source a.input) ∧
      (db.executions.get? t = none → Created S (Sqlite.step S db (a.call t time)).2 t a time) := by
  obtain ⟨_, hok'⟩ := h.accepts _ answer hrel hok
  have hstep : Sqlite.step S db (a.call t time) = settle db (answering .reply (replying .unit
        (admitModule S db t a.key a.source a.input time))) := rfl
  cases hadmit : admitModule S db t a.key a.source a.input time with
  | error =>
    rw [hstep, hadmit] at hok'
    cases hok'
  | ok p =>
    obtain ⟨u, db'⟩ := p
    have hafter : (Sqlite.step S db (a.call t time)).2 = db' := by
      rw [hstep, hadmit]
      rfl
    have hparts := hadmit
    simp only [admitModule, bind_ok, Prod.exists] at hparts
    obtain ⟨_, hkey, hash, _, hfp, hbranch⟩ := hparts
    have hvalid := Admission.valid_of_ok hkey hfp
    rw [hafter]
    refine ⟨hvalid, ?_, fun hnone => admitModule_created (h.steady hrel).sound hnone hadmit⟩
    cases hrow : db.executions.get? t with
    | none =>
      have hcreated := admitModule_created (h.steady hrel).sound hrow hadmit
      exact ⟨_, hcreated.execution, rfl, rfl⟩
    | some row =>
      obtain rfl : hash = requestHash S a.source a.input := by
        rw [fingerprint_of_valid hvalid] at hfp
        exact (Prod.mk.inj (Except.ok.inj hfp)).1.symm
      simp only [hrow, bind_ok, reject_ok, not_or, not_not, pure_ok, Prod.mk.injEq] at hbranch
      obtain ⟨-, ⟨hk, hh⟩, -, rfl⟩ := hbranch
      exact ⟨row, hrow, hk, hh⟩

/-- After a successful admission, over any calls that do not prune the task: an admission that
passes the argument checks is acknowledged if it has the same key, source and canonical input
and is a conflict otherwise; one that does not pass them fails with an argument error; none of
them changes the store. The first admission of a task creates its program, one input event and
a ready execution, and an admission that fails creates nothing. The digests of the two requests
are assumed to collide only if the hashed texts are equal; these determine source and canonical
input. -/
theorem admission_idempotent (S : Crates J) (hnul : S.NulFree) (B : Backend J)
    (hB : B = sqliteBackend S ∨ ∃ nv, StrictMono nv ∧ B = postgresBackend S nv)
    (before between : List (StoreCall J)) (t : TaskId) (a b : Admission) (time time' : ℕ)
    (answer : Answer J) (hok : (B.step (run B.step B.start before) (a.call t time)).1 = .ok answer)
    (hkept : ∀ e ∈ trace B.step (B.step (run B.step B.start before) (a.call t time)).2 between,
      ¬ B.Prunes t e) (hdistinct : b.Distinguished S a) :
    let s₀ := run B.step B.start before
    let s₁ := (B.step s₀ (a.call t time)).2
    let s₂ := run B.step s₁ between
    ((B.tables s₀).executions.get? t = none → Created S (B.tables s₁) t a time) ∧
      (b.Valid S → a.Same S b → B.step s₂ (b.call t time') = (.ok (.reply (.unit ())), s₂)) ∧
      (b.Valid S → ¬ a.Same S b → B.step s₂ (b.call t time') = (.error .admissionConflict, s₂)) ∧
      (¬ b.Valid S → ∃ e, e.isArgument = true ∧ B.step s₂ (b.call t time') = (.error e, s₂)) ∧
      (∀ (c : Admission) other e,
        (B.step s₂ (c.call other time')).1 = .error e → (B.step s₂ (c.call other time')).2 = s₂) ∧
      (b.Valid S → hashedText S b.source b.input = hashedText S a.source a.input →
        b.source = a.source ∧ canonicalInput S b.input = canonicalInput S a.input) := by
  intro s₀ s₁ s₂
  obtain ⟨Rel, h⟩ : ∃ Rel, B.Follows S Rel := by
    rcases hB with rfl | ⟨_, hmono, rfl⟩
    · exact ⟨_, sqlite_follows S⟩
    · exact ⟨_, postgres_follows S hmono⟩
  have hrel₀ := h.run h.start before
  obtain ⟨ha, hadmitted, hcreated⟩ := h.admits hrel₀ hok
  have hrel₁ := h.step (a.call t time) hrel₀
  obtain ⟨row, hrow, hkey, hhash⟩ := h.admitted hrel₁ hadmitted between hkept
  have hanswer := h.recognises t b time' (h.run hrel₁ between) hrow
  refine ⟨fun hnone => ?_, fun hb hsame => ?_, fun hb hother => ?_, fun hb => ?_,
    fun c other e he => h.rollback _ _ e he, fun hb htext => ?_⟩
  · obtain ⟨_, htables₀⟩ := h.tables hrel₀
    obtain ⟨m, htables₁⟩ := h.tables hrel₁
    rw [htables₀] at hnone
    have hrows := hcreated hnone
    rw [htables₁]
    exact ⟨hrows.program, hrows.events, hrows.execution⟩
  · have hiff := recognised_iff hnul ha hb hdistinct hkey hhash
    rw [hanswer, recognise_valid row hb, reject_of_not _ fun hne => hiff.mp hne hsame]
    rfl
  · have hiff := recognised_iff hnul ha hb hdistinct hkey hhash
    rw [hanswer, recognise_valid row hb, reject_of _ (hiff.mpr hother)]
    rfl
  · obtain ⟨e, harg, hfail⟩ := recognise_invalid row hb s₂
    refine ⟨e, harg, ?_⟩
    rw [hanswer, hfail]
    rfl
  · obtain ⟨_, hvalue⟩ := Option.isSome_iff_exists.mp ha.json
    obtain ⟨value', hvalue'⟩ := Option.isSome_iff_exists.mp hb.json
    exact hashedText_injective hnul hvalue' hvalue htext

def sampleAdmission : Admission := ⟨"request", "42", "true"⟩

theorem bools_nulFree : bools.NulFree := by
  intro v
  cases v <;> decide

/-- The request repeated while its task is running. -/
theorem admission_idempotent_running :
    let B := sqliteBackend bools
    let claim : StoreCall Bool := .claimExecution 7 "worker" 10 (some "token") 0 0
    let s₂ := run B.step (B.step B.start (sampleAdmission.call 7 1)).2 [claim]
    (s₂.executions.get? 7).map (·.state) = some .running ∧
      B.step s₂ (sampleAdmission.call 7 5) = (.ok (.reply (.unit ())), s₂) := by
  intro B claim s₂
  have hvalid : sampleAdmission.Valid bools := ⟨by decide, by decide, by decide, by decide⟩
  have hall := admission_idempotent bools bools_nulFree B (.inl rfl) [] [claim] 7
    sampleAdmission sampleAdmission 1 5 (.reply (.unit ())) rfl ?_ fun _ => rfl
  · exact ⟨by decide +kernel, hall.2.1 hvalid ⟨rfl, rfl, rfl⟩⟩
  · intro e he hprunes
    obtain rfl := mem_singleton.mp he
    cases hprunes.1

/-- A request under another key is not a conflict when the key itself is rejected. -/
theorem empty_key_not_conflict :
    let B := sqliteBackend bools
    let s₁ := (B.step B.start (sampleAdmission.call 7 1)).2
    let other : Admission := { sampleAdmission with key := "" }
    (B.step B.start (sampleAdmission.call 7 1)).1 = .ok (.reply (.unit ())) ∧
      ¬ sampleAdmission.Same bools other ∧
      (B.step s₁ (other.call 7 5)).1 = .error .invalidIdempotencyKey :=
  ⟨rfl, by decide, rfl⟩

end Tysel.Durable
