import Tysel.Verification.Durable.Fencing

/-! The replies that the store gives about a task whose completion is stored. None of them
changes the store. -/

namespace Tysel.Durable

open Option Db

variable {J : Type} {S : Crates J} {op : Op J}

/-- Errors about the arguments of a call, the clock or the entropy source. -/
def DurableError.isArgument : DurableError → Bool
  | .integerRange _ | .eventKeyTooLarge | .eventPayloadTooLarge | .invalidLeaseOwner
  | .invalidSignalName | .invalidProgram | .invalidIdempotencyKey | .json | .io => true
  | _ => false

variable {v : ℕ} {field : String}

abbrev ArgErrs {α : Type} (errors : List DurableError) (x : Except DurableError α) : Prop :=
  Errs (· ∈ errors) x

theorem toSqlInteger_errs : ArgErrs [.integerRange field] (toSqlInteger v field) := by
  unfold toSqlInteger
  split
  · exact .ok _
  · exact .error (by simp)

theorem now_errs (clock : ℤ) : ArgErrs [.io, .integerRange "time"] (now clock) := by
  unfold now
  split
  · exact .error (by simp)
  split
  · exact .ok _
  · exact .error (by simp)

theorem validateProgramSource_errs (source : String) :
    ArgErrs [.invalidProgram] (validateProgramSource source) :=
  .reject fun _ => by simp

theorem validateLeaseOwner_errs (owner : String) :
    ArgErrs [.invalidLeaseOwner] (validateLeaseOwner owner) :=
  .reject fun _ => by simp

theorem validateSignalName_errs (name : String) :
    ArgErrs [.invalidSignalName] (validateSignalName name) :=
  .reject fun _ => by simp

theorem validateKey_errs (key : String) : ArgErrs [.invalidIdempotencyKey] (validateKey key) :=
  .reject fun _ => by simp

theorem parseJson_errs (text : String) : ArgErrs [.json] (parseJson S text) := by
  unfold parseJson
  split
  · exact .ok _
  · exact .error (by simp)

theorem ArgErrs.mono {α : Type} {errors errors' : List DurableError} {x : Except DurableError α}
    (h : ArgErrs errors x) (hsub : errors ⊆ errors') : ArgErrs errors' x :=
  Errs.mono h fun _ he => hsub he

theorem ArgErrs.isArgument {α : Type} {errors : List DurableError} {x : Except DurableError α}
    {e : DurableError} (h : ArgErrs errors x) (hall : errors.all DurableError.isArgument = true)
    (he : x = .error e) : e.isArgument = true :=
  List.all_eq_true.mp hall e (h e he)

theorem validateEvent_errs (event : NewEvent J) :
    ArgErrs [.eventKeyTooLarge, .eventPayloadTooLarge, .integerRange "recorded_at_ms"]
      (validateEvent S event) :=
  .bind (.reject fun _ => by simp) fun _ _ => .bind (.reject fun _ => by simp) fun _ _ =>
    .bind (toSqlInteger_errs.mono (by simp)) fun _ _ => .ok _

theorem rawEvent_errs (kind : EventKind) (key payload : String) (time : ℕ) :
    ArgErrs [.eventKeyTooLarge, .eventPayloadTooLarge, .json] (rawEvent S kind key payload time) :=
  .bind (.reject fun _ => by simp) fun _ _ => .bind (.reject fun _ => by simp) fun _ _ =>
    .bind ((parseJson_errs _).mono (by simp)) fun _ _ => .ok _

theorem fingerprint_errs (source input : String) :
    ArgErrs [.invalidProgram, .eventPayloadTooLarge, .json] (fingerprint S source input) :=
  .bind ((validateProgramSource_errs _).mono (by simp)) fun _ _ =>
    .bind (.reject fun _ => by simp) fun _ _ =>
      .bind ((parseJson_errs _).mono (by simp)) fun _ _ => .ok _

theorem leaseDeadline_errs (ms dur : ℕ) :
    ArgErrs [.integerRange "lease_until_ms"] (leaseDeadline ms dur) := by
  unfold leaseDeadline
  split
  · exact .ok _
  · exact .error (by simp)

theorem WakeupClaim.toSql_errs (claim : WakeupClaim) :
    ArgErrs (["sequence", "wake_at_ms", "lease_until_ms"].map .integerRange) claim.toSql :=
  .bind (toSqlInteger_errs.mono (by simp)) fun _ _ =>
    .bind (toSqlInteger_errs.mono (by simp)) fun _ _ =>
      .bind (toSqlInteger_errs.mono (by simp)) fun _ _ => .ok _

/-- The errors that a call can return about a completed task for its arguments. The last one of
`claimRun` is that of the entropy source. -/
@[simp]
def Op.argumentErrors : Op J → List DurableError
  | .putProgram .. => [.invalidProgram, .integerRange "registered_at_ms"]
  | .appendEventJsonAt .. =>
    [.eventKeyTooLarge, .eventPayloadTooLarge, .json, .integerRange "recorded_at_ms"]
  | .appendEventJsonWithWakeupAt .. =>
    [.eventKeyTooLarge, .eventPayloadTooLarge, .json, .integerRange "recorded_at_ms",
      .integerRange "wake_at_ms"]
  | .appendEvent .. => [.eventKeyTooLarge, .eventPayloadTooLarge, .integerRange "recorded_at_ms"]
  | .appendEventWithWakeup .. =>
    [.eventKeyTooLarge, .eventPayloadTooLarge, .integerRange "recorded_at_ms",
      .integerRange "wake_at_ms"]
  | .claimWakeup .. =>
    [.invalidLeaseOwner, .integerRange "now_ms", .integerRange "lease_until_ms"]
  | .completeWakeup .. =>
    [.integerRange "sequence", .integerRange "now_ms", .invalidLeaseOwner]
  | .renewWakeupClaim .. =>
    .invalidLeaseOwner :: ["sequence", "wake_at_ms", "lease_until_ms", "now_ms"].map .integerRange
  | .releaseWakeupClaim .. =>
    .invalidLeaseOwner :: ["sequence", "wake_at_ms", "lease_until_ms"].map .integerRange
  | .sendSignal .. =>
    [.invalidSignalName, .eventPayloadTooLarge, .integerRange "sent_at_ms", .invalidIdempotencyKey]
  | .pollSignal .. => [.invalidSignalName, .integerRange "now_ms"]
  | .admitModule .. => [.invalidIdempotencyKey, .invalidProgram, .eventPayloadTooLarge, .json]
  | .claimRun .. => [.invalidLeaseOwner, .io]
  | .finishTask .. => [.eventPayloadTooLarge, .integerRange "next_sequence", .json]
  | _ => []

/-- The calls that are refused with `TaskCompleted` whatever they ask for. -/
def Op.refused : Op J → Bool
  | .putProgram .. | .removeProgram _ | .appendEventJsonAt .. | .appendEventJsonWithWakeupAt ..
  | .appendEvent .. | .appendEventWithWakeup .. | .scheduleWakeup _ | .sendSignal ..
  | .pollSignal .. => true
  | _ => false

/-- The digest by which an admission recognises a repeated request. -/
def requestHash (S : Crates J) (source input : String) : String :=
  S.sha256 (source ++ "\x00" ++ canonicalInput S input)

/-- What a call that addresses the completed `task` can return. -/
inductive ClosedReply (S : Crates J) (db : Db) (t : TaskId) (row : CompletionRow) :
    Op J → Outcome J → Prop
  | completed (op : Op J) (h : op.refused = true) :
      ClosedReply S db t row op (.error (.taskCompleted t))
  | argument (op : Op J) {e : DurableError} (h : e ∈ op.argumentErrors) :
      ClosedReply S db t row op (.error e)
  /-- The call is made through a handle that is scoped to an execution. -/
  | fenced (op : Op J) {claim : ExecutionClaim} {e : DurableError} (h : op.store? = some claim)
      (he : e ∈ [.executionLeaseLost, .integerRange "generation", .integerRange "time", .io]) :
      ClosedReply S db t row op (.error e)
  | unclaimed (owner : String) (dur : ℕ) (drawn : Option String) (c₁ c₂ : ℤ) :
      ClosedReply S db t row (.claimRun t owner dur drawn c₁ c₂) (.ok (.execution none))
  | sameCompletion {store : Option ExecutionClaim} {exp : ℕ} {v stored : J} {time : ℕ}
      {lease : Option ℕ} {clocks : FinishClocks} (hseq : row.nextSequence = exp)
      (hstored : S.fromStr row.resultJson = some stored) (heq : S.eq stored v = true) :
      ClosedReply S db t row (.finishTask store t exp v time lease clocks)
        (.ok (.bool true))
  | otherCompletion {store : Option ExecutionClaim} {exp : ℕ} {v : J} {time : ℕ}
      {lease : Option ℕ} {clocks : FinishClocks} (h : row.nextSequence ≠ exp ∨
        ∃ stored, S.fromStr row.resultJson = some stored ∧ S.eq stored v = false) :
      ClosedReply S db t row (.finishTask store t exp v time lease clocks)
        (.error (.taskCompleted t))
  | sameAdmission {key source input : String} {time : ℕ} {r : ExecutionRow}
      (hr : db.executions.get? t = some r) (hkey : r.admissionKey = some key)
      (hhash : r.requestHash = some (requestHash S source input)) :
      ClosedReply S db t row (.admitModule t key source input time) (.ok (.unit ()))
  | otherAdmission {key source input : String} {time : ℕ}
      (h : ∀ r, db.executions.get? t = some r →
        r.admissionKey ≠ some key ∨ r.requestHash ≠ some (requestHash S source input)) :
      ClosedReply S db t row (.admitModule t key source input time)
        (.error .admissionConflict)
  | sameSignal {name key : String} {payload : J} {time : ℕ} {receipt : ReceiptRow}
      (hr : db.receipt? t key = some receipt) (hname : receipt.signalName = name)
      (hpayload : receipt.payload = S.sha256 (S.toStr payload)) :
      ClosedReply S db t row (.sendSignal t name payload time (some key))
        (.ok (.signalId receipt.signalId))
  | otherSignal {name key : String} {payload : J} {time : ℕ} {receipt : ReceiptRow}
      (hr : db.receipt? t key = some receipt)
      (h : receipt.signalName ≠ name ∨ receipt.payload ≠ S.sha256 (S.toStr payload)) :
      ClosedReply S db t row (.sendSignal t name payload time (some key))
        (.error .admissionConflict)
  | receiptLimit {name key : String} {payload : J} {time : ℕ}
      (hr : db.receipt? t key = none)
      (hfull : maxHistoryEvents ≤ (db.receiptsOf t).length) :
      ClosedReply S db t row (.sendSignal t name payload time (some key))
        (.error .signalInboxLimit)
  | noWakeup (ms : ℕ) (owner : String) (dur : ℕ) :
      ClosedReply S db t row (.claimWakeup t ms owner dur) (.ok (.wakeupClaim none))
  | notCompleted (store : Option ExecutionClaim) (sequence : ℕ) (owner : Option String) (ms : ℕ)
      (c₁ c₂ : ℤ) :
      ClosedReply S db t row (.completeWakeup store t sequence owner ms c₁ c₂)
        (.ok (.bool false))
  | notRenewed (claim : WakeupClaim) (ms dur : ℕ) :
      ClosedReply S db t row (.renewWakeupClaim claim ms dur) (.ok (.wakeupClaim none))
  | notReleased (claim : WakeupClaim) :
      ClosedReply S db t row (.releaseWakeupClaim claim) (.ok (.bool false))

section Closed

variable {db : Db} {t : TaskId} {row : CompletionRow} {α : Type}
  {x : Except DurableError (α × Db)} {store : Option ExecutionClaim} {claim : WakeupClaim}
  {f : α → Reply J}

/-- The call leaves the store unchanged and gives one of the replies. -/
def Answered (S : Crates J) (db : Db) (t : TaskId) (row : CompletionRow) (op : Op J) : Prop :=
  ∃ out, call S db op = (out, db) ∧ ClosedReply S db t row op out

abbrev ClosedError (S : Crates J) (db : Db) (t : TaskId) (row : CompletionRow) (op : Op J) :
    DurableError → Prop :=
  fun e => ClosedReply S db t row op (.error e)

theorem ArgErrs.closed {errors : List DurableError} {x : Except DurableError α}
    (h : ArgErrs errors x) (hsub : errors ⊆ op.argumentErrors) :
    Errs (ClosedError S db t row op) x :=
  Errs.mono h fun _ he => .argument op (hsub he)

theorem ArgErrs.fenced {errors : List DurableError} {x : Except DurableError α}
    {claim : ExecutionClaim} (h : ArgErrs errors x) (hstore : op.store? = some claim)
    (hsub : errors ⊆ [.executionLeaseLost, .integerRange "generation", .integerRange "time", .io]) :
    Errs (ClosedError S db t row op) x :=
  Errs.mono h fun _ he => .fenced op hstore (hsub he)

theorem ensureOpen_fails (hro : db.completions.get? t = some row) (hop : op.refused = true) :
    Fails (ClosedError S db t row op) (ensureOpen db t) :=
  ⟨_, reject_of _ (by simp [hro]), .completed op hop⟩

theorem guardExecution_closed (hstore : op.store? = store) (s : Db) (u : TaskId) (clock : ℤ) :
    Errs (ClosedError S db t row op) (guardExecution store s u clock) := by
  cases store with
  | none => exact .ok ()
  | some =>
    refine .bind (toSqlInteger_errs.fenced hstore (by simp)) fun _ _ => ?_
    refine .bind ((now_errs _).fenced hstore (by simp)) fun _ _ => ?_
    refine .bind (toSqlInteger_errs.fenced hstore (by simp)) fun _ _ => ?_
    exact .reject fun _ => .fenced op hstore (by simp)

theorem appendValidated_fails (hro : db.completions.get? t = some row)
    (hop : op.refused = true) (hstore : op.store? = store) (exp : Option ℕ)
    (event : NewEvent J) (payload : String) (time : ℕ) (wake : Option ℕ) (c₁ c₂ : ℤ) :
    Fails (ClosedError S db t row op)
      (appendValidated store db t exp event payload time wake c₁ c₂) :=
  .bind (guardExecution_closed hstore db t c₁) fun _ _ =>
    .stop (.stop (ensureOpen_fails hro hop))

theorem releaseRun_fails {claim : ExecutionClaim} (hcl : db.Closed claim.taskId row)
    (failed : Bool) (c₁ c₂ : ℤ) :
    Fails (ClosedError S db claim.taskId row (.releaseRun claim failed c₁ c₂))
      (releaseRun db claim failed c₁ c₂) := by
  refine .stop ?_
  have herrs : Errs (ClosedError S db claim.taskId row (.releaseRun claim failed c₁ c₂))
      (guardExecution (some claim) db claim.taskId c₁) :=
    guardExecution_closed rfl db claim.taskId c₁
  cases hguard : guardExecution (some claim) db claim.taskId c₁ with
  | error e => exact ⟨e, rfl, herrs e hguard⟩
  | ok =>
    obtain ⟨-, -, -, -, r, hr, hholds⟩ := ExecutionClaim.passes_iff.mp hguard
    have hrunning := (ExecutionClaim.holds_iff.mp hholds).1
    rw [hcl.execution r hr] at hrunning
    cases hrunning

/-- A call with only refused or acknowledging outcomes leaves the store as it is. -/
theorem call_of_ends (hop : perform S db op = replying f x) (h : Ends (ClosedError S db t row op)
    (fun r => r.2 = db ∧ ClosedReply S db t row op (.ok (f r.1))) x) :
    Answered S db t row op := by
  rcases call_cases S db op with ⟨e, he, hcall⟩ | ⟨_, _, hr, hcall⟩
  · exact ⟨_, hcall, h.errs e (replying_eq_error.mp (hop.symm.trans he))⟩
  · obtain ⟨a, ha, rfl⟩ := replying_ok.mp (hop.symm.trans hr)
    obtain ⟨rfl, hreply⟩ := h.result _ ha
    exact ⟨_, hcall, hreply⟩

theorem call_of_fails (hop : perform S db op = replying f x)
    (h : Fails (ClosedError S db t row op) x) : Answered S db t row op :=
  call_of_ends hop h.ends

theorem admitModule_closed (hcl : db.Closed t row) (hvalid : db.ProgramsValid S)
    (key source input : String) (time : ℕ) :
    Answered S db t row (.admitModule t key source input time) := by
  obtain ⟨program, hprog⟩ := isSome_iff_exists.mp hcl.program
  refine call_of_ends rfl (.bind ((validateKey_errs _).closed (by simp)) fun _ _ =>
    .bind ((fingerprint_errs _ _).closed (by simp)) ?_)
  rintro ⟨hash, canonical⟩ hfp
  obtain ⟨-, -, hhash, hcanon⟩ := fingerprint_ok hfp
  obtain rfl : hash = requestHash S source input := by rw [hhash, hcanon, requestHash]
  cases hr : db.executions.get? t with
  | some =>
    refine .bind (.reject fun hdiff => .otherAdmission ?_) fun _ hsame => .ok ⟨rfl, ?_⟩
    · intro r' hr'
      obtain rfl := mem_unique hr hr'
      exact hdiff
    · simp only [reject_ok, not_or, not_not] at hsame
      exact .sameAdmission hr hsame.1 hsame.2
  | none =>
    -- The program of a completed task is still registered.
    have hsel := selectProgram_eq_some.mpr ⟨program, hprog,
      decodeProgram_ok.mpr ⟨hvalid t program hprog, rfl⟩⟩
    refine Fails.ends (.bind (fun e he => by simp [hsel] at he) fun existing hexisting => ?_)
    obtain rfl := Except.ok.inj (hsel.symm.trans hexisting)
    exact .stop ⟨_, reject_of _ rfl, .otherAdmission (by simp [hr])⟩

section

variable (hro : db.completions.get? t = some row)

include hro

theorem sendSignal_closed (hcl : db.Closed t row) (name : String) (payload : J) (time : ℕ)
    (key : Option String) : Answered S db t row (.sendSignal t name payload time key) := by
  refine call_of_ends rfl ⟨.bind ((validateSignalName_errs _).closed (by simp)) fun _ _ =>
    .bind (.reject fun _ => .argument _ (by simp)) fun _ _ =>
      .bind (toSqlInteger_errs.closed (by simp)) fun _ _ => .bind ?_ ?_, ?_⟩
  · cases key with
    | none => exact .ok none
    | some k =>
      refine .bind ((validateKey_errs _).closed (by simp)) fun _ _ => ?_
      cases hr : db.receipt? t k with
      | some => exact .bind (.reject (.otherSignal hr)) fun _ _ => .ok _
      | none =>
        refine .bind (.reject (.receiptLimit hr)) fun _ _ =>
          .bind (.reject fun hnone => ?_) fun _ _ => .ok _
        simp [isSome_iff_ne_none.mp hcl.program] at hnone
  · rintro (_ | -) -
    · exact Fails.errs (.stop (ensureOpen_fails hro rfl))
    · exact .ok _
  · rintro ⟨id, db'⟩ hsend
    rcases sendSignalInner_commits hsend with
      ⟨k, receipt, rfl, hr, hname, hpay, rfl, hdb⟩ | ⟨-, hen, -⟩
    · exact ⟨hdb, .sameSignal hr hname hpay⟩
    · have hopen := hen.1
      rw [Db.IsOpen] at hopen
      simp [hro] at hopen

theorem finishTask_closed (store : Option ExecutionClaim) (exp : ℕ) (v : J) (time : ℕ)
    (lease : Option ℕ) (clocks : FinishClocks) :
    Answered S db t row (.finishTask store t exp v time lease clocks) := by
  refine call_of_ends rfl (.bind (.reject fun _ => .argument _ (by simp)) fun _ _ => ?_)
  rw [hro]
  refine .bind (toSqlInteger_errs.closed (by simp)) fun n hexpected => ?_
  obtain rfl : n = exp := (toSqlInteger_ok.mp hexpected).2.symm
  refine .bind (.reject fun hne => .otherCompletion (.inl hne)) fun _ hseq => ?_
  refine .bind ((parseJson_errs _).closed (by simp)) fun stored hstored => ?_
  have hstored := parseJson_ok.mp hstored
  refine .bind (.reject fun hne => .otherCompletion (.inr ⟨stored, hstored, hne⟩)) fun _ heq => ?_
  simp only [reject_ok, not_not, Bool.not_eq_false] at hseq heq
  exact .ok ⟨rfl, .sameCompletion hseq hstored heq⟩

theorem claimRun_closed (owner : String) (dur : ℕ) (drawn : Option String) (c₁ c₂ : ℤ) :
    Answered S db t row (.claimRun t owner dur drawn c₁ c₂) := by
  refine call_of_ends rfl (.bind ?_ fun _ _ => ?_)
  · refine .bind ((validateLeaseOwner_errs _).closed (by simp)) fun _ _ => ?_
    cases drawn with
    | some => exact .ok _
    | none => exact .error (.argument _ (by simp))
  · rw [hro]
    exact .ok ⟨rfl, .unclaimed _ _ _ _ _⟩

end

theorem completeWakeup_closed (hcl : db.Closed t row) (store : Option ExecutionClaim)
    (sequence : ℕ) (owner : Option String) (ms : ℕ) (c₁ c₂ : ℤ) :
    Answered S db t row (.completeWakeup store t sequence owner ms c₁ c₂) := by
  have howner : ArgErrs [.invalidLeaseOwner] (validateWakeupOwner owner) := by
    cases owner with
    | none => exact .ok ()
    | some owner => exact validateLeaseOwner_errs owner
  refine call_of_ends rfl (.bind (guardExecution_closed rfl _ _ _) fun _ _ =>
    .bind (toSqlInteger_errs.closed (by simp)) fun _ _ => .bind (toSqlInteger_errs.closed (by simp))
      fun _ _ => .bind (howner.closed (by simp)) fun _ _ => ?_)
  rw [hcl.wakeup]
  exact .bind (guardExecution_closed rfl _ _ _) fun _ _ => .ok ⟨rfl, .notCompleted _ _ _ _ _ _⟩

theorem claimWakeup_closed (hcl : db.Closed t row) (ms : ℕ) (owner : String)
    (dur : ℕ) : Answered S db t row (.claimWakeup t ms owner dur) := by
  refine call_of_ends rfl (.bind ((validateLeaseOwner_errs _).closed (by simp)) fun _ _ =>
    .bind (toSqlInteger_errs.closed (by simp)) fun _ _ =>
      .bind ((leaseDeadline_errs _ _).closed (by simp)) fun _ _ =>
        .bind (toSqlInteger_errs.closed (by simp)) fun _ _ => ?_)
  rw [hcl.wakeup]
  exact .ok ⟨rfl, .noWakeup _ _ _⟩

theorem renewWakeupClaim_closed (hcl : db.Closed claim.taskId row) (ms dur : ℕ) :
    Answered S db claim.taskId row (.renewWakeupClaim claim ms dur) := by
  refine call_of_ends rfl (.bind ((validateLeaseOwner_errs _).closed (by simp)) fun _ _ =>
    .bind ((leaseDeadline_errs _ _).closed (by simp)) fun _ _ =>
      .bind (toSqlInteger_errs.closed (by simp)) fun _ _ =>
      .bind ((WakeupClaim.toSql_errs _).closed (by simp)) fun _ _ =>
        .bind (toSqlInteger_errs.closed (by simp)) fun _ _ => ?_)
  rw [hcl.wakeup]
  exact .ok ⟨rfl, .notRenewed _ _ _⟩

theorem releaseWakeupClaim_closed (hcl : db.Closed claim.taskId row) :
    Answered S db claim.taskId row (.releaseWakeupClaim claim) := by
  refine call_of_ends rfl (.bind ((validateLeaseOwner_errs _).closed (by simp)) fun _ _ =>
    .bind ((WakeupClaim.toSql_errs _).closed (by simp)) fun _ _ => ?_)
  rw [hcl.wakeup]
  exact .ok ⟨rfl, .notReleased _⟩

/-- Every call that addresses a completed task leaves the store unchanged. -/
theorem closed_call (hsound : db.Sound S) (hro : db.completions.get? t = some row) (op : Op J)
    (hop : op.task? = some t) : Answered S db t row op := by
  have hcl := hsound.closed t row hro
  cases op
  case claimDueWakeups => cases hop
  case pruneCompleted => cases hop
  case initializeSchema => cases hop
  all_goals obtain rfl := some.inj hop
  case putProgram =>
    exact call_of_fails rfl (.bind ((validateProgramSource_errs _).closed (by simp)) fun _ _ =>
      .bind (toSqlInteger_errs.closed (by simp)) fun _ _ => .stop (ensureOpen_fails hro rfl))
  case removeProgram =>
    exact call_of_fails rfl (.stop (ensureOpen_fails hro rfl))
  case appendEventJsonAt =>
    exact call_of_fails rfl (.bind ((rawEvent_errs _ _ _ _).closed (by simp)) fun _ _ =>
      .bind (toSqlInteger_errs.closed (by simp)) fun _ _ =>
        appendValidated_fails hro rfl rfl _ _ _ _ _ _ _)
  case appendEventJsonWithWakeupAt =>
    exact call_of_fails rfl (.bind ((rawEvent_errs _ _ _ _).closed (by simp)) fun _ _ =>
      .bind (toSqlInteger_errs.closed (by simp)) fun _ _ =>
        .bind (toSqlInteger_errs.closed (by simp)) fun _ _ =>
          appendValidated_fails hro rfl rfl _ _ _ _ _ _ _)
  case appendEvent =>
    exact call_of_fails rfl (.bind ((validateEvent_errs _).closed (by simp)) fun _ _ =>
      appendValidated_fails hro rfl rfl _ _ _ _ _ _ _)
  case appendEventWithWakeup =>
    exact call_of_fails rfl (.bind ((validateEvent_errs _).closed (by simp)) fun _ _ =>
      .bind (toSqlInteger_errs.closed (by simp)) fun _ _ =>
        appendValidated_fails hro rfl rfl _ _ _ _ _ _ _)
  case scheduleWakeup =>
    exact call_of_fails rfl (.stop (ensureOpen_fails hro rfl))
  case claimWakeup ms owner dur =>
    exact claimWakeup_closed hcl ms owner dur
  case completeWakeup store _ sequence owner ms c₁ c₂ =>
    exact completeWakeup_closed hcl store sequence owner ms c₁ c₂
  case renewWakeupClaim ms dur =>
    exact renewWakeupClaim_closed hcl ms dur
  case releaseWakeupClaim =>
    exact releaseWakeupClaim_closed hcl
  case sendSignal name payload time key =>
    exact sendSignal_closed hro hcl name payload time key
  case pollSignal =>
    exact call_of_fails rfl (.bind ((validateSignalName_errs _).closed (by simp)) fun _ _ =>
      .bind (toSqlInteger_errs.closed (by simp)) fun _ _ =>
        .bind (guardExecution_closed rfl _ _ _) fun _ _ => .stop (ensureOpen_fails hro rfl))
  case admitModule key source input time =>
    exact admitModule_closed hcl hsound.programs key source input time
  case claimRun owner dur drawn c₁ c₂ =>
    exact claimRun_closed hro owner dur drawn c₁ c₂
  case releaseRun failed c₁ c₂ =>
    exact call_of_fails rfl (releaseRun_fails hcl failed c₁ c₂)
  case finishTask store _ exp v time lease clocks =>
    exact finishTask_closed hro store exp v time lease clocks

end Closed

/-- From a reached state in which a task is completed, through every run that does not prune
it: its completion, events, program and receipts stay, it has neither wakeup nor wait, its
completion counts its events, and every call that addresses it is answered from the list of
`ClosedReply` and leaves the whole store unchanged. -/
theorem completion_final (S : Crates J) (ops later : List (Op J)) (t : TaskId)
    (row : CompletionRow) (hro : (after S fresh ops).completions.get? t = some row)
    (hkept : ∀ c ∈ calls S (after S fresh ops) later, ¬ c.Prunes t) :
    let db := after S fresh ops
    let db' := after S db later
    db'.completions.get? t = some row ∧ db'.eventsOf t = db.eventsOf t ∧
      db'.programs.get? t = db.programs.get? t ∧
      db'.receiptsOf t = db.receiptsOf t ∧
      db'.wakeups.get? t = none ∧ db'.signalWaits.get? t = none ∧
      row.nextSequence = (db'.eventsOf t).length ∧
      ∀ op : Op J, op.task? = some t →
        ∃ out, call S db' op = (out, db') ∧ ClosedReply S db' t row op out := by
  intro db db'
  have hsame : SameRows db db' t :=
    frozen_after (after_opened S fresh_opened ops) (sound_after ops) hro later hkept
  have hsound : db'.Sound S := by
    have := sound_after (S := S) (ops ++ later)
    rwa [after, run_append] at this
  have hrow' := hsame.completion.trans hro
  have hcl := hsound.closed t row hrow'
  exact ⟨hrow', hsame.events, hsame.program, hsame.receipts, hcl.wakeup, hcl.wait,
    hcl.sequence, fun op hop => closed_call hsound hrow' op hop⟩

def completedRun : List (Op Bool) :=
  [.putProgram 7 .module "42" 0, .finishTask none 7 0 true 5 none ⟨0, 0, 0, 0⟩]

theorem completion_final_example :
    (after bools fresh completedRun).completions.get? 7 = some ⟨0, "true", 5⟩ ∧
      ∃ out, call bools (after bools (after bools fresh completedRun)
            [.removeProgram 7]) (.sendSignal 7 "go" true 6 none) =
          (out, after bools (after bools fresh completedRun) [.removeProgram 7]) ∧
        ClosedReply bools (after bools (after bools fresh completedRun)
          [.removeProgram 7]) 7 ⟨0, "true", 5⟩ (.sendSignal 7 "go" true 6 none) out := by
  have hro : (after bools fresh completedRun).completions.get? 7 = some ⟨0, "true", 5⟩ := by decide
  refine ⟨hro, ?_⟩
  exact (completion_final bools completedRun [.removeProgram 7] 7 ⟨0, "true", 5⟩ hro
    (by decide)).2.2.2.2.2.2.2 _ rfl

/-- Completing a wakeup of a completed task is not refused: it reports that there is none. -/
theorem completed_task_complete_wakeup :
    (after bools fresh completedRun).completions.get? 7 = some ⟨0, "true", 5⟩ ∧
      (call bools (after bools fresh completedRun)
        (.completeWakeup none 7 0 none 6 0 0)).1 = .ok (.bool false) :=
  ⟨by decide, rfl⟩

end Tysel.Durable
