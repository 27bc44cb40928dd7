import Tysel.Verification.Runtime.Attempt
import Tysel.Verification.Runtime.Retained

/-! A managed execution under a healthy store reports the failure of a boundary as an error of the
task: the store calls of its session fail only with such errors, the row of the execution is
marked failed or left to its lease, and a poll goes on. The exception is a wait that a recorded
sleep has left behind: a completion or a poll that finds it is refused as if the store had
failed. -/

namespace Tysel.Runtime

open Tysel.Durable Tysel.Engine Option DurableSession Except Bool Db Batch DurableError

variable {J α β : Type} {S : Crates J} {db db' : Db} {c : ExecutionClaim}
  {s : DurableSession J} {y : Except SessionError Unit × DurableSession J × Db}
  {hostCall : HostCall} {res : RunResult J} {task : TaskId} {req : Op J}

/-! ## A running script -/

/-- The script makes host calls of the durable API, in order and in time, none of which finds a
wait left behind, and others make theirs. -/
def Conducted (S : Crates J) (c : ExecutionClaim) : DurableSession J × Db → List (Moment J) → Prop
  | _, [] => True
  | x, .host hostCall :: rest =>
    x.1.issues hostCall = true ∧ hostCall.Orderly ∧ x.1.Entitled x.2 hostCall ∧
      Conducted S c (x.1.host S x.2 hostCall) rest
  | x, .other op :: rest => Elsewhere c op ∧ Conducted S c (x.1, (call S x.2 op).2) rest

/-- A run of a script up to some moment. -/
structure Tracked (S : Crates J) (c : ExecutionClaim) (x : DurableSession J × Db) : Prop where
  reached : ∃ ops, x.2 = after S fresh ops
  scope : x.1.Scoped c
  errors : ∀ e, x.1.storageError = some e → Discarded e
  standing : Attuned c x.1 x.2 ∨ c.Stale x.2

theorem stored_call {op : Op J} {f : α → Reply J} {res : Except DurableError (α × Db)}
    (hop : perform S db op = replying f res) (next : α → Except SessionError β × DurableSession J) :
    (s.stored db res next).2.2 = (call S db op).2 := by
  cases res with
  | error =>
    rw [call_of_error (hop.trans (replying_eq_error.mpr rfl))]
    rfl
  | ok p =>
    obtain ⟨v, _⟩ := p
    rw [call_of_ok (hop.trans (replying_ok.mpr ⟨v, rfl, rfl⟩))]
    rfl

theorem host_calls (hhost : Hosted S s db hostCall y) : ∃ ops, y.2.2 = run (call S) db ops := by
  cases hhost with
  | moved => exact ⟨[], rfl⟩
  | recorded => exact ⟨[.appendEventJsonAt ..], stored_call rfl _⟩
  | slept => exact ⟨[.appendEventJsonWithWakeupAt ..], stored_call rfl _⟩
  | woken => exact ⟨[.completeWakeup ..], stored_call rfl _⟩
  | polled => exact ⟨[.pollSignal ..], stored_call rfl _⟩

variable {x : DurableSession J × Db}

theorem Tracked.host (h : Tracked S c x) (howner : ValidOwner c)
    (hissues : x.1.issues hostCall = true) (htime : hostCall.Orderly)
    (hleft : x.1.Entitled x.2 hostCall) : Tracked S c (x.1.host S x.2 hostCall) := by
  obtain ⟨s, db⟩ := x
  obtain ⟨⟨ops, hdb⟩, hscope, herrors, hstanding⟩ := h
  dsimp only at hdb hscope herrors hstanding hissues ⊢
  have hhost := host_hosted S s db hostCall
  have hreached : ∃ ops', (s.host S db hostCall).2 = after S fresh ops' := by
    obtain ⟨more, hmore⟩ := host_calls hhost
    exact ⟨ops ++ more, by rw [after_append, ← hdb]; exact hmore⟩
  rcases hstanding with hattuned | hstale
  · have hist : db.HistoryOk c.taskId := hdb ▸ (sound_after ops).history _
    have hstays := host_stays (S := S) ⟨herrors, hattuned⟩ hscope hist howner hissues htime hleft
    exact ⟨hreached, hscope.host hostCall, hstays.errors, .inl hstays.attuned⟩
  have hnothing := host_fruitless hstale hscope.store htime.inTime hhost
  refine ⟨hreached, hscope.host hostCall, fun e he => ?_, .inr ?_⟩
  · exact (hnothing.errors e he).elim (herrors e) id
  · rw [hnothing.db]
    exact hstale

theorem Tracked.other (h : Tracked S c x) (hgen : c.generation < 2 ^ 63) {op : Op J}
    (hop : Elsewhere c op) : Tracked S c (x.1, (call S x.2 op).2) := by
  obtain ⟨_, db⟩ := x
  obtain ⟨⟨ops, hdb⟩, hscope, herrors, hstanding⟩ := h
  dsimp only at hdb hscope herrors hstanding ⊢
  have hopened : db.Opened := hdb ▸ after_opened S fresh_opened ops
  refine ⟨⟨ops ++ [op], ?_⟩, hscope, herrors, ?_⟩
  · rw [hdb, after, after, run_append]
    rfl
  rcases hstanding with hattuned | hstale
  · rcases elsewhere_keeps hopened hgen hattuned.current hop with hkept | hstale
    · exact .inl (hattuned.kept hkept)
    · exact .inr hstale
  · exact .inr (elsewhere_stale hopened hstale hop)

variable {ms : List (Moment J)}

theorem Tracked.moments (h : Tracked S c x) (howner : ValidOwner c) (hgen : c.generation < 2 ^ 63)
    (hconducted : Conducted S c x ms) :
    Tracked S c (ms.foldl (Moment.apply S) x) := by
  induction ms generalizing x with
  | nil => exact h
  | cons moment _ ih =>
    cases moment with
    | host =>
      obtain ⟨hissues, htime, hleft, hrest⟩ := hconducted
      exact ih (h.host howner hissues htime hleft) hrest
    | other =>
      obtain ⟨hop, hrest⟩ := hconducted
      exact ih (h.other hgen hop) hrest

/-! ## Opening the session -/

/-- A claim before its session is opened. -/
structure Awaiting (c : ExecutionClaim) (db : Db) : Prop where
  current : Current c db
  awake : c.wakeup = none → Awake db c.taskId
  leased : ∀ wakeup, c.wakeup = some wakeup → Leased c db wakeup

theorem Awaiting.kept (h : Awaiting c db) (hkept : Kept db db' c.taskId) : Awaiting c db' :=
  ⟨h.current.congr hkept.execution hkept.completion, fun hnone => (h.awake hnone).kept hkept,
    fun wakeup hsome => (h.leased wakeup hsome).kept hkept⟩

theorem awaiting_of_granted {drawn : Option String} (h : Granted S db db' task drawn c) :
    Awaiting c db' := by
  obtain rfl := h.task_eq
  obtain ⟨hopen, -, -, -, hwakeup⟩ := h.enabled
  have hwakes : db'.wakeups.get? c.taskId = (db.wakeups.get? c.taskId).map fun w =>
      { w with leaseOwner := some c.owner, leaseUntilMs := some c.leaseUntilMs } := by
    rw [h.commits, Effect.apply_wakeups]
    exact Table.get?_modify_self _ _ _
  refine ⟨⟨?_, ?_⟩, fun hnone _ => ?_, fun wakeup hsome => ?_⟩
  · rw [h.commits]
    exact ⟨_, claim_row _ _, rfl, rfl, rfl, rfl⟩
  · rw [h.commits]
    exact hopen
  · rw [hwakeup, map_eq_none_iff] at hnone
    rw [hwakes, hnone]
    rfl
  · rw [hwakeup, map_eq_some_iff] at hsome
    obtain ⟨_, hw, rfl⟩ := hsome
    exact ⟨rfl, rfl, rfl, _, by rw [hwakes, hw]; rfl, by simp [WakeupClaim.matches]⟩

variable {clock : ℤ} {others ops : List (Op J)}

theorem Awaiting.opens (h : Awaiting c db) (hist : db.HistoryOk c.taskId)
    (hopen : fromExecution S db c clock = .ok s) : Attuned c s db := by
  rcases fromExecution_loaded hopen with
    ⟨hwakeup, hloaded⟩ | ⟨wakeup, -, hwakeup, -, -, hloaded⟩
  · refine ⟨h.current, fun _ _ => hloaded.nextSequence hist, fun _ _ => .idle ?_ (h.awake hwakeup)⟩
    exact (ok.inj hloaded.token).symm
  have hleased := h.leased wakeup hwakeup
  rw [hleased.task] at hloaded
  have hsequence := hloaded.nextSequence hist
  obtain ⟨⟨q, kind, presented⟩, htoken, hok⟩ := hloaded.resumed
  obtain ⟨rfl, rfl, ⟨rfl, -, event, hlast, hevent, hkind⟩ | ⟨rfl, -, wait, hwait, hat⟩⟩ :=
    wakeupToken_cases hok
  · refine ⟨h.current, fun _ _ => hsequence, fun _ _ => .sleep wakeup htoken hleased
      ⟨⟨event, hlast, hkind, hevent⟩, .inl ?_⟩⟩
    rw [hloaded.position]
    exact List.length_pos_iff.mpr fun hnil => by simp [hnil] at hlast
  · refine ⟨h.current, fun _ _ => hsequence, fun _ _ => .signal wakeup wait.signalName htoken
      hleased ?_⟩
    rw [hwait, ← hat]

theorem awaiting_after (hgen : c.generation < 2 ^ 63)
    (h : Awaiting c (after S fresh ops) ∨ c.Stale (after S fresh ops))
    (hothers : ∀ op ∈ others, Elsewhere c op) :
    Awaiting c (after S fresh (ops ++ others)) ∨ c.Stale (after S fresh (ops ++ others)) := by
  induction others generalizing ops with
  | nil => rwa [List.append_nil]
  | cons op rest ih =>
    have hop := hothers op (List.mem_cons_self ..)
    have hopened := after_opened S fresh_opened ops
    have hcall : after S fresh (ops ++ [op]) = (call S (after S fresh ops) op).2 :=
      after_append _ ops [op]
    rw [show ops ++ op :: rest = (ops ++ [op]) ++ rest by simp]
    refine ih ?_ fun o ho => hothers o (List.mem_cons_of_mem _ ho)
    rw [hcall]
    rcases h with hawaiting | hstale
    · rcases elsewhere_keeps hopened hgen hawaiting.current hop with hkept | hstale
      · exact .inl (hawaiting.kept hkept)
      · exact .inr hstale
    · exact .inr (elsewhere_stale hopened hstale hop)

/-! ## The end of a run -/

def TaskError (res : RunResult J) : Prop :=
  res = .error .leaseLost ∨ (∃ e, res = .error (.boundary e)) ∨ ∃ e, res = .error (.engine e)

/-- How a run ends when neither the store nor the session fails. -/
def Reported (res : RunResult J) : Prop := (∃ status, res = .ok status) ∨ TaskError res

theorem Reported.ne_store (h : Reported res) (e : DurableError) : res ≠ .error (.store e) := by
  rcases h with ⟨status, rfl⟩ | rfl | ⟨e, rfl⟩ | ⟨e, rfl⟩ <;> simp

theorem Discarded.taskError {error : DurableError} (h : Discarded error) :
    TaskError (.error (.ofBoundary error) : RunResult J) := by
  rcases h with hlost | hboundary
  · exact .inl (by rw [hlost])
  · exact .inr (.inl ⟨error, by rw [hboundary]⟩)

/-- No fault of the driver, and readings that are SQL integers, in order. -/
structure Healthy (ending : Ending J) : Prop where
  fault : ending.env.fault = none
  guard₁ : 0 ≤ ending.env.finish.guard₁
  time₁ : ending.env.finish.guard₁ ≤ ending.env.finish.time₁
  time₂ : ending.env.finish.time₁ ≤ ending.env.finish.time₂
  guard₂ : ending.env.finish.time₂ ≤ ending.env.finish.guard₂
  clock : ending.env.finish.guard₂ ≤ ending.env.clock
  range : ending.env.clock < 2 ^ 63
  release₁ : InTime ending.clock₁
  release₂ : InTime ending.clock₂

def Overdue (c : ExecutionClaim) (clock : ℤ) (error : DurableError) : Prop :=
  Discarded error ∨ error = .taskSuspended c.taskId ∧ 0 ≤ clock ∧ c.leaseUntilMs ≤ clock.toNat

theorem completionTime_overdue {timestamp until_ : ℕ} {time : ℤ} (htask : task = c.taskId)
    (huntil : until_ = c.leaseUntilMs) (hnonneg : 0 ≤ time) (hle : time ≤ clock) :
    Errs (Overdue c clock) (completionTime task timestamp (some until_) time) := by
  subst htask huntil
  unfold completionTime
  dsimp only
  rw [if_neg (by omega)]
  split
  · exact .error (.inr ⟨rfl, by omega, by omega⟩)
  · exact .ok _

variable {ending : Ending J} {t₁ t₂ : ℤ}

theorem finishOpen_overdue (h : Current c db) (hidle : Idle db c.taskId)
    (hquota : db.QuotaOk) (hhealthy : Healthy ending) (json : String) :
    Errs (Overdue c ending.env.clock) (finishOpen (some c) db c.taskId
      (db.nextSequence c.taskId) json 0 (some c.leaseUntilMs) ending.env.finish) := by
  obtain ⟨-, h₁, h₂, h₃, h₄, h₅, h₆, -, -⟩ := hhealthy
  have hguard : ∀ db clock, InTime clock →
      Errs (Overdue c ending.env.clock) (guardExecution (some c) db c.taskId clock) :=
    fun _ _ hclock => (guardExecution_discarded hclock).mono fun _ => .inl
  refine .bind (hguard _ _ ⟨h₁, by omega⟩) fun _ _ => ?_
  cases hprogram : db.programs.get? c.taskId with
  | none => exact .ok _
  | some program =>
    have hcharged : ∀ at_, (db.insertCompletion c.taskId
        ⟨db.nextSequence c.taskId, json, at_⟩).ProgramCharged program.source.utf8ByteSize :=
      fun _ => hquota.charged hprogram h.isOpen
    refine .bind (.reject fun hne => absurd rfl hne) fun _ _ => .bind (.reject fun hpending => ?_)
      fun _ _ => .bind (completionTime_overdue rfl rfl (by omega) (by omega)) fun at_ _ =>
        .bind (toSqlInteger_discarded.mono fun _ => .inl) fun at_ _ => .bind ?_
          fun _ _ => .bind (completionTime_overdue rfl rfl (by omega) (by omega)) fun _ _ =>
            .bind (hguard _ _ ⟨by omega, by omega⟩) fun _ _ => .ok _
    · simp [pending, hidle.1, hidle.2] at hpending
    · rw [dischargeProgram_ok.mpr ⟨hcharged _, rfl⟩]
      exact .ok _

/-- The completion of a value finds no wait left behind. -/
def Unawaited (S : Crates J) (c : ExecutionClaim) (db : Db) (v : J) : Prop :=
  (S.toStr v).utf8ByteSize ≤ maxEventPayloadBytes → Current c db →
    db.signalWaits.get? c.taskId = none

theorem complete_discarded (h : Current c db) (hawake : Awake db c.taskId) {v : J}
    (hwait : Unawaited S c db v) (hquota : db.QuotaOk) (hhealthy : Healthy ending) :
    Errs Discarded ((handleOf c (db.nextSequence c.taskId)).complete S db v ending.env) := by
  have hwrite : Errs (Overdue c ending.env.clock)
      ((handleOf c (db.nextSequence c.taskId)).write S db v 0 ending.env) := by
    refine .bind (.reject fun _ => .inl (.inr rfl)) fun _ hsize => ?_
    have hwait := hwait (not_lt.mp (reject_ok.mp hsize)) h
    rw [hhealthy.fault]
    refine .bind (.reject fun _ => .inl (.inr rfl)) fun _ _ => ?_
    simp only [handleOf, show db.completions.get? c.taskId = none from h.isOpen]
    exact finishOpen_overdue h ⟨hawake hwait, hwait⟩ hquota hhealthy _
  intro e he
  simp only [DurableCompletion.complete, handleOf] at he hwrite
  split at he
  · -- the refusal of an overdue completion is reported as lost authority
    rename_i hsuspended
    rcases hwrite _ hsuspended with hdiscarded | ⟨-, hlate⟩
    · rcases hdiscarded with h | h <;> cases h
    · rw [if_pos hlate] at he
      obtain rfl := error.inj he
      exact .inl rfl
  · rename_i hother
    rcases hwrite e he with hdiscarded | ⟨rfl, -⟩
    · exact hdiscarded
    · exact absurd he (hother _)

/-- A failure of the run: an error that the session keeps, or an exception that leaves the
script. -/
def RunFailed (s : DurableSession J) (outcome : Except EngineError J) : Prop :=
  s.storageError.isSome ∨ ∃ e, outcome = .error e ∧ e ≠ .suspended

theorem evaluate_reported (d : DurableDispatcher) (hscope : s.Scoped c)
    (herrors : ∀ e, s.storageError = some e → Discarded e)
    {outcome : Except EngineError J} {env : CompletionEnv}
    (hcomplete : ∀ v, outcome = .ok v → s.settled = true →
      Errs Discarded ((handleOf c s.nextSequence).complete S db v env)) :
    ∃ res d' db', evaluate S d db s outcome env = (res, d', db') ∧ Reported res ∧
      (RunFailed s outcome → TaskError res) ∧
      ((∀ v, res ≠ .ok (.completed v)) → db' = db) := by
  unfold evaluate
  cases herror : s.storageError with
  | some error =>
    have htask := (herrors error herror).taskError (J := J)
    exact ⟨_, _, _, rfl, .inr htask, fun _ => htask, fun _ => rfl⟩
  | none =>
    cases hvalue : s.evaluated outcome with
    | error e =>
      have hfailed : RunFailed s outcome → e ≠ .suspended := by
        rintro (hkept | ⟨e', rfl, hne⟩)
        · simp [herror] at hkept
        · obtain rfl : e' = e := by simpa [evaluated] using hvalue
          exact hne
      cases e with
      | suspended =>
        exact ⟨_, _, _, rfl, .inl ⟨_, rfl⟩, fun h => absurd rfl (hfailed h), fun _ => rfl⟩
      | _ =>
        exact ⟨_, _, _, rfl, .inr (.inr (.inr ⟨_, rfl⟩)), fun _ => .inr (.inr ⟨_, rfl⟩),
          fun _ => rfl⟩
    | ok v =>
      obtain ⟨rfl, hsettled⟩ := evaluated_ok.mp hvalue
      have hnotFailed : ¬ RunFailed s (.ok v) := by
        rintro (hkept | ⟨e, he, -⟩)
        · simp [herror] at hkept
        · cases he
      unfold finish
      rw [hscope.completionHandle hsettled]
      dsimp only
      cases hdone : (handleOf c s.nextSequence).complete S db v env with
      | ok =>
        exact ⟨_, _, _, rfl, .inl ⟨_, rfl⟩, fun h => absurd h hnotFailed,
          fun hne => absurd rfl (hne v)⟩
      | error e =>
        have hdiscarded := hcomplete v rfl hsettled e hdone
        dsimp only
        have hretryable : ¬ e.isRetryable := by
          cases e with
          | io => rcases hdiscarded with h | h <;> cases h
          | _ => simp [isRetryable]
        rw [if_neg hretryable]
        exact ⟨_, _, _, rfl, .inr hdiscarded.taskError, fun h => absurd h hnotFailed, fun _ => rfl⟩

theorem releaseRun_lost (hgen : c.generation < 2 ^ 63) (db : Db) (failed : Bool)
    (hclock₁ : InTime t₁) (hclock₂ : InTime t₂) :
    Errs (fun e => e = executionLeaseLost)
      (releaseRun db c failed t₁ t₂) := by
  have hguard : ∀ db clock, InTime clock → Errs (fun e => e = executionLeaseLost)
      (guardExecution (some c) db c.taskId clock) := by
    rintro db clock ⟨hnonneg, hlt⟩
    have hnow : now clock = .ok clock.toNat := now_ok.mpr ⟨hnonneg, by omega, rfl⟩
    simp only [guardExecution, toSqlInteger_of_lt _ hgen, hnow, ok_bind,
      toSqlInteger_of_lt "time" (show clock.toNat < 2 ^ 63 by omega)]
    exact .reject fun _ => rfl
  exact .bind (hguard _ _ hclock₁) fun _ _ => .bind (hguard _ _ hclock₂) fun _ _ => .ok _

def MarkedFailed (db : Db) (task : TaskId) : Prop :=
  ∃ r, db.executions.get? task = some r ∧ r.state = .failed

theorem releaseRun_marks {u : Unit} (h : releaseRun db c true t₁ t₂ = .ok (u, db')) :
    MarkedFailed db' c.taskId := by
  simp only [releaseRun, bind_ok, pure_ok, Prod.mk.injEq] at h
  obtain ⟨_, hguard, -, -, -, rfl⟩ := h
  obtain ⟨-, -, -, -, r, hr, -⟩ := ExecutionClaim.passes_iff.mp hguard
  refine ⟨{ r with state := .failed, owner := none, leaseUntilMs := none }, ?_, rfl⟩
  rw [closeExecution, Table.get?_modify_self, clearWakeupLease, hr]
  rfl

/-- The end of `execute_managed` after a result that is not an error of the store. -/
theorem closeRun_cases (hgen : c.generation < 2 ^ 63) (db : Db) (hreported : Reported res)
    (hclock₁ : InTime t₁) (hclock₂ : InTime t₂) :
    (∃ db', closeRun db c res t₁ t₂ = (res, db') ∧
      ∀ e, res = .error e → MarkedFailed db' c.taskId ∨ e = .leaseLost ∧ db' = db) ∨
      closeRun db c res t₁ t₂ = (.error .leaseLost, db) ∧ ∀ v, res ≠ .ok (.completed v) := by
  unfold closeRun
  cases htransition : transition res with
  | none =>
    refine .inl ⟨db, rfl, ?_⟩
    rintro _ rfl
    rcases hreported with ⟨status, h⟩ | h | ⟨e', h⟩ | ⟨e', h⟩
    · cases h
    · exact .inr ⟨error.inj h, rfl⟩
    · simp [error.inj h, transition] at htransition
    · simp [error.inj h, transition] at htransition
  | some failed =>
    dsimp only
    cases hrelease : releaseRun db c failed t₁ t₂ with
    | error e =>
      obtain rfl := releaseRun_lost hgen db failed hclock₁ hclock₂ e hrelease
      refine .inr ⟨rfl, ?_⟩
      rintro _ rfl
      cases htransition
    | ok p =>
      obtain ⟨_, db'⟩ := p
      refine .inl ⟨db', rfl, ?_⟩
      rintro e rfl
      obtain rfl : failed = true := by
        cases e <;> simp [transition] at htransition <;> exact htransition
      exact .inl (releaseRun_marks hrelease)

/-- What a run leaves behind. -/
structure Accounted (task : TaskId) (failed : Prop) (left : Db) (res : RunResult J)
    (db : Db) : Prop where
  reported : Reported res
  failure : failed → TaskError res
  row : ∀ e, res = .error e → MarkedFailed db task ∨ e = .leaseLost ∧ db = left

theorem Tracked.ends (d : DurableDispatcher) (h : Tracked S c x) (hgen : c.generation < 2 ^ 63)
    (hhealthy : Healthy ending)
    (hfinds : ∀ v, ending.outcome = .ok v → x.1.settled = true →
      Uncontested S x.2 c.taskId x.1.nextSequence v ∧ Unawaited S c x.2 v) :
    ∃ res d' db', proceed S d x.2 c x.1 [] ending = (⟨c.taskId, res⟩, d', db') ∧
      Accounted c.taskId (RunFailed x.1 ending.outcome)
        (run (call S) x.2 ending.others) res db' := by
  obtain ⟨s, db⟩ := x
  obtain ⟨⟨ops, hdb⟩, hscope, herrors, hstanding⟩ := h
  have hcomplete : ∀ v, ending.outcome = .ok v → s.settled = true →
      Errs Discarded ((handleOf c s.nextSequence).complete S db v ending.env) := by
    intro v hvalue hsettled
    rcases hstanding with hattuned | hstale
    · obtain ⟨hclean, hactive⟩ : s.storageError = none ∧ s.suspended = false ∧
          s.activeWakeup = none := by
        simp only [settled, resolved, and_eq_true, isNone_iff_eq_none, not_eq_true'] at hsettled
        exact ⟨hsettled.1.1, hsettled.2.2, hsettled.2.1⟩
      rw [hattuned.sequence hclean hactive.1]
      have hawake : Awake db c.taskId := by
        cases hattuned.resumes hclean hactive.1 with
        | idle _ hawake => exact hawake
        | sleep _ htoken | signal _ _ htoken => rw [hactive.2] at htoken; cases htoken
      exact complete_discarded hattuned.current hawake (hfinds v hvalue hsettled).2
        (hdb ▸ quotaOk_after fresh_opened rfl ops) hhealthy
    · obtain ⟨hfault, h₁, _, _, _, _, _, -, -⟩ := hhealthy
      rw [complete_stale hstale (hdb ▸ sound_after ops) (hfinds v hvalue hsettled).1
        ⟨hfault, h₁, by omega⟩]
      split_ifs
      · exact .error (.inr rfl)
      · exact .ok _
      · exact .error (.inl rfl)
  obtain ⟨res, d', db', hevaluate, hreported, hfailure, hleft⟩ :=
    evaluate_reported d hscope herrors hcomplete
  simp only [proceed, List.foldl_nil, hevaluate]
  rcases closeRun_cases hgen (run (call S) db' ending.others) hreported hhealthy.release₁
    hhealthy.release₂ with ⟨db'', hclose, hrow⟩ | ⟨hclose, hopen⟩
  · rw [hclose]
    refine ⟨res, d', db'', rfl, hreported, hfailure, ?_⟩
    rintro e rfl
    rw [← hleft (by simp)]
    exact hrow e rfl
  · rw [hclose]
    refine ⟨_, d', _, rfl, .inr (.inl rfl), fun _ => .inl rfl, ?_⟩
    rintro _ he
    rw [hleft hopen]
    exact .inr ⟨(error.inj he).symm, rfl⟩

/-! ## Failures that a session keeps -/

/-- A host call of the script was refused by the store, whether or not the handler has caught
the exception. -/
def FailedInStore (S : Crates J) : DurableSession J × Db → List (Moment J) → Prop
  | _, [] => False
  | x, .host hostCall :: rest =>
    (∃ e, x.1.reply S x.2 hostCall = .error (.storage e)) ∨
      FailedInStore S (x.1.host S x.2 hostCall) rest
  | x, .other op :: rest => FailedInStore S (x.1, (call S x.2 op).2) rest

/-- A method that fails with an error of the store leaves it in the session. -/
def Captures (x : Except SessionError α × DurableSession J × Db) : Prop :=
  ∀ e, x.1 = .error (.storage e) → x.2.1.storageError.isSome = true

theorem Captures.stored {res : Except DurableError (α × Db)}
    {next : α → Except SessionError β × DurableSession J}
    (hnext : ∀ v e, (next v).1 ≠ .error (.storage e)) :
    Captures (s.stored db res next) := by
  intro e he
  cases res with
  | error => rfl
  | ok p =>
    obtain ⟨v, _⟩ := p
    exact absurd he (hnext v e)

/-- A session keeps the error that the store has refused a host call with. -/
theorem host_captures (hhost : Hosted S s db hostCall y) : Captures y := by
  cases hhost with
  | moved _ _ _ hreply => exact fun e he => by simp [hreply e he]
  | recorded | slept => exact .stored fun _ _ => by simp
  | woken | polled =>
    refine .stored fun v e => ?_
    cases v <;> simp

theorem failedInStore_kept (h : FailedInStore S x ms) :
    (ms.foldl (Moment.apply S) x).1.storageError.isSome = true := by
  have hkeeps : ∀ (ms : List (Moment J)) x, x.1.storageError.isSome = true →
      (ms.foldl (Moment.apply S) x).1.storageError.isSome = true := by
    intro ms
    induction ms with
    | nil => exact fun _ hsome => hsome
    | cons moment _ ih =>
      intro x hsome
      refine ih _ ?_
      cases moment with
      | host =>
        obtain ⟨_, herror⟩ := isSome_iff_exists.mp hsome
        rw [Moment.apply, host_of_error herror]
        exact hsome
      | other => exact hsome
  induction ms generalizing x with
  | nil => exact h.elim
  | cons moment rest ih =>
    cases moment with
    | host =>
      rcases h with ⟨_, hrefused⟩ | hlater
      · exact hkeeps rest _ (host_captures (host_hosted ..) _ hrefused)
      · exact ih hlater
    | other => exact ih h

/-! ## Runs in a batch -/

theorem turns_keep {run : DurableRun J} (n : ℕ) (turns : List (Batch.Turn J))
    {b : Batch J} (h : run ∈ b.runs) : run ∈ (turns.foldl (turn n) b).runs := by
  induction turns generalizing b with
  | nil => exact h
  | cons t _ ih =>
    refine ih ?_
    rw [← fill_runs maxPollConcurrency n t.cancelled b] at h
    unfold turn turnWithin collect
    cases t.joined with
    | error => exact h
    | ok run? =>
      cases run? with
      | none => exact h
      | some =>
        dsimp only
        split
        · exact h
        · exact List.mem_append_left _ h

/-! ## Errors stay with the task -/

/-- A managed execution: the store has granted the claim of a task, its session is opened after
calls of others, the script runs and ends. -/
structure Managed (S : Crates J) (ops : List (Op J)) (req : Op J) (c : ExecutionClaim)
    (others : List (Op J)) (clock : ℤ) (s : DurableSession J) (ms : List (Moment J))
    (ending : Ending J) : Prop where
  granted : (call S (after S fresh ops) req).1 = .ok (.execution (some c))
  owner : ValidOwner c
  elsewhere : ∀ op ∈ others, Elsewhere c op
  opens : fromExecution S (after S fresh (ops ++ req :: others)) c clock = .ok s
  conducted : Conducted S c (s, after S fresh (ops ++ req :: others)) ms
  healthy : Healthy ending
  finds : let x := ms.foldl (Moment.apply S) (s, after S fresh (ops ++ req :: others))
    ∀ v, ending.outcome = .ok v → x.1.settled = true →
      Uncontested S x.2 c.taskId x.1.nextSequence v ∧ Unawaited S c x.2 v

theorem Managed.claimed (h : Managed S ops req c others clock s ms ending) :
    Granted S (after S fresh ops) (after S fresh (ops ++ [req])) c.taskId
      (some c.owner) c := by
  have hissued : c ∈ Call.issued (entry (call S) (after S fresh ops) req) := by
    simp [Call.issued, entry, h.granted]
  obtain ⟨_, _, _, _, _, -, hgranted⟩ := issued_granted hissued
  obtain rfl := hgranted.task_eq
  rw [after_append]
  exact hgranted

theorem Managed.tracked (h : Managed S ops req c others clock s ms ending) :
    Tracked S c (ms.foldl (Moment.apply S) (s, after S fresh (ops ++ req :: others))) := by
  have hissued : c.Issued := .of_enabled h.claimed.enabled
  obtain ⟨hscope, hclean⟩ := fromExecution_scoped hissued h.opens
  refine Tracked.moments ⟨⟨_, rfl⟩, hscope, ?_, ?_⟩ h.owner hissued.generation h.conducted
  · intro e he
    rw [hclean] at he
    cases he
  · have hawaiting := awaiting_after hissued.generation
      (.inl (awaiting_of_granted h.claimed)) h.elsewhere
    rw [List.append_assoc, List.singleton_append] at hawaiting
    exact hawaiting.imp_left fun hw => hw.opens ((sound_after _).history _) h.opens

/-- In every managed execution, whatever boundaries the handler calls and whatever exceptions it
catches: the run is not reported as an error of the store; if the store has refused one of its
calls, or an exception leaves the script, it is reported as an error of the task; with an error
the row is marked failed, or authority was lost and the row is left as it was; and a batch
delivers the run. -/
theorem task_errors_stay_with_task (S : Crates J) (d : DurableDispatcher) {ops others : List (Op J)}
    {req : Op J} {c : ExecutionClaim} {clock : ℤ} {s : DurableSession J}
    {ending : Ending J} (h : Managed S ops req c others clock s ms ending) : ∃ res d' db',
      executeManaged S d (after S fresh (ops ++ req :: others)) c clock ms ending =
        (⟨c.taskId, res⟩, d', db') ∧ (∀ e, res ≠ .error (.store e)) ∧
      (FailedInStore S (s, after S fresh (ops ++ req :: others)) ms ∨
        (∃ e, ending.outcome = .error e ∧ e ≠ .suspended) → TaskError res) ∧
      (∀ e, res = .error e → MarkedFailed db' c.taskId ∨ e = .leaseLost ∧
        db' = run (call S) (ms.foldl (Moment.apply S)
          (s, after S fresh (ops ++ req :: others))).2 ending.others) ∧
      ∀ n cursor completed programs earlier later cancelled,
        (∀ t ∈ earlier, Harmless t) → (∀ t ∈ later, Harmless t) →
        ∃ runs, pollBatch n cursor (some (completed, none)) (.ok programs)
            (earlier ++ ⟨cancelled, c.taskId, .ok (some ⟨c.taskId, res⟩)⟩ :: later) =
              .ok runs ∧ ⟨c.taskId, res⟩ ∈ runs := by
  have hissued : c.Issued := .of_enabled h.claimed.enabled
  obtain ⟨res, d', db', hproceed, hreported, hfailure, hrow⟩ :=
    h.tracked.ends d hissued.generation h.healthy h.finds
  refine ⟨res, d', db', ?_, hreported.ne_store, ?_, hrow, ?_⟩
  · rw [executeManaged, h.opens]
    exact hproceed
  · rintro (hrefused | huncaught)
    · exact hfailure (.inl (failedInStore_kept hrefused))
    · exact hfailure (.inr huncaught)
  intro n cursor completed programs earlier later cancelled hearlier hlater
  have hharmless : ∀ t ∈ earlier ++
      ⟨cancelled, c.taskId, .ok (some ⟨c.taskId, res⟩)⟩ :: later, Harmless t := by
    intro t ht
    rcases List.mem_append.mp ht with ht | ht
    · exact hearlier t ht
    · rcases List.mem_cons.mp ht with rfl | ht
      · exact ⟨_, rfl, fun r hr => some.inj hr ▸ hreported.ne_store⟩
      · exact hlater t ht
  rw [pollBatch_eq, result, turns_failure hharmless]
  refine ⟨_, rfl, ?_⟩
  rw [List.foldl_append, List.foldl_cons]
  refine turns_keep n later ?_
  unfold turn turnWithin collect
  dsimp only
  split
  · exact absurd rfl (hreported.ne_store _)
  · simp

/-! ## Caught failures -/

def sleepPayload : String := "\x7b\"durationMs\":10\x7d"

def textCrates : Crates String where
  toStr text := text
  fromStr text := if text = "true" ∨ text = sleepPayload then some text else none
  eq a b := a == b
  sha256 := bools.sha256

def endingAt (outcome : Except EngineError String) (clock : ℤ) : Ending String :=
  ⟨outcome, ⟨⟨clock, clock, clock, clock⟩, clock, none⟩, [], clock, clock⟩

def moduleAdmission : Op String := .admitModule 7 "key" "42" "true" 0

def claimAt (owner : String) (clock : ℤ) : Op String :=
  .claimRun 7 "host" 10 (some owner) clock clock

def claimOne : ExecutionClaim := ⟨7, "token-1", 1, 11, none⟩

def longName : String := String.ofList (List.replicate 257 'n')

/-- The handler catches the exception of a step whose name is too long. -/
def longStep : List (Moment String) :=
  [.host (.recordInput "true" 2 2 2), .host (.lookup .step longName),
    .host (.record .step longName "true" 2 2 2)]

def sessionOne : DurableSession String :=
  ⟨some claimOne, 7, ⟨[⟨7, 0, .step, taskInputKey, "true", 0, "true"⟩], 0⟩, 1, none, false,
    some 11, none, none⟩

theorem longStep_managed :
    Managed textCrates [moduleAdmission] (claimAt "token-1" 1) claimOne [] 2 sessionOne longStep
      (endingAt (.ok "true") 3) := by
  refine ⟨by rfl, by decide, by simp, by rfl, ?_,
    ⟨rfl, by decide, le_rfl, le_rfl, le_rfl, le_rfl, by decide, by decide, by decide⟩,
    fun v _ _ => ⟨fun _ row hrow => ?_, fun _ _ => by decide +kernel⟩⟩
  · exact ⟨by decide +kernel, by decide, trivial, by decide +kernel, by decide, trivial,
      by decide +kernel, by decide, trivial, trivial⟩
  · exact absurd (hrow.symm.trans (show _ = none by decide +kernel)) nofun

/-- The handler catches the error and returns: the run is an error of the task, and the batch
delivers it. -/
theorem task_errors_stay_with_task_longStep : FailedInStore textCrates
        (sessionOne, after textCrates fresh [moduleAdmission, claimAt "token-1" 1]) longStep ∧
      ∃ res d' db', executeManaged textCrates ⟨∅, 1⟩
          (after textCrates fresh [moduleAdmission, claimAt "token-1" 1]) claimOne 2 longStep
          (endingAt (.ok "true") 3) = (⟨7, res⟩, d', db') ∧ TaskError res ∧
        ∃ runs, pollBatch 8 0 (some ([], none)) (.ok [])
          [⟨false, 7, .ok (some ⟨7, res⟩)⟩] = .ok runs ∧ ⟨7, res⟩ ∈ runs := by
  have hfailed : FailedInStore textCrates
      (sessionOne, after textCrates fresh [moduleAdmission, claimAt "token-1" 1]) longStep :=
    .inr (.inr (.inl ⟨.eventKeyTooLarge, by decide +kernel⟩))
  obtain ⟨res, d', db', hrun, -, herror, -, hbatch⟩ :=
    task_errors_stay_with_task textCrates ⟨∅, 1⟩ longStep_managed
  exact ⟨hfailed, res, d', db', hrun, herror (.inl hfailed),
    hbatch 8 0 [] [] [] [] false (by simp) (by simp)⟩

/-! ## A wait left behind

The handler `try { step("note", () => undefined) } catch {}`, then `effect("probe", ..)` with its
exception caught, then a sleep if the probe has succeeded and a wait for the signal `go`
otherwise. -/

/-- The first run: the probe fails and the script waits. -/
def firstWaits : Db :=
  (executeManaged textCrates ⟨∅, 1⟩
    (after textCrates fresh [moduleAdmission, claimAt "token-1" 1]) claimOne 2
    [.host (.recordInput "true" 2 2 2), .host (.lookup .step "note"),
      .host (.lookup .effect "probe"), .host (.lookup .signal "go"),
      .host (.pollSignal "go" 2 2 2)] (endingAt (.error .suspended) 2)).2.2

def claimTwo : ExecutionClaim := ⟨7, "token-2", 2, 14, some ⟨7, 1, 3, "token-2", 14⟩⟩

/-- The second run, resumed by the signal: the probe succeeds and the script sleeps. -/
def secondSleeps : Db :=
  (executeManaged textCrates ⟨∅, 1⟩
    (after textCrates firstWaits [.sendSignal 7 "go" "true" 3 none, claimAt "token-2" 4]) claimTwo 5
    [.host (.recordInput "true" 5 5 5), .host (.lookup .step "note"),
      .host (.lookup .effect "probe"), .host (.record .effect "probe" "true" 5 5 5),
      .host (.lookup .sleep "sleep:10"), .host (.recordSleep "sleep:10" sleepPayload 5 15 5 5)]
    (endingAt (.error .suspended) 5)).2.2

def claimThree : ExecutionClaim := ⟨7, "token-3", 3, 30, some ⟨7, 2, 15, "token-3", 30⟩⟩

/-- The third run: the step finds the event of the probe and fails, the handler catches the
exception, finds the probe and the sleep, and returns. -/
def thirdReturns : DurableRun String × DurableDispatcher × Db :=
  executeManaged textCrates ⟨∅, 1⟩ (after textCrates secondSleeps [claimAt "token-3" 20]) claimThree
    20 [.host (.recordInput "true" 21 21 21), .host (.lookup .step "note"),
      .host (.lookup .effect "probe"), .host (.lookup .sleep "sleep:10"),
      .host (.completeSleep 21 21 21)] (endingAt (.ok "true") 22)

def noteReply : Option (Except SessionError Unit) := do
  let db := after textCrates secondSleeps [claimAt "token-3" 20]
  let s ← (fromExecution textCrates db claimThree 20).toOption
  let (s, db) := s.host textCrates db (.recordInput "true" 21 21 21)
  return s.reply textCrates db (.lookup .step "note")

/-- The wait of the first run is still there when the third one returns: a boundary of this run
has failed, and its completion is reported as a failure of the store, which stops the poller
and leaves the row running. -/
theorem left_wait_stops_poller :
    (call textCrates secondSleeps (claimAt "token-3" 20)).1 = .ok (.execution (some claimThree)) ∧
      (∃ e, noteReply = some (.error (.replay e))) ∧
      thirdReturns.1.result = .error (.store (.taskSuspended 7)) ∧
      (thirdReturns.2.2.executions.get? 7).map ExecutionRow.state = some .running ∧
      runSupervised [pollBatch 8 0 (some ([], none)) (.ok [(7, "42")])
          [⟨false, 7, .ok (some (⟨7, .error (.store (.taskSuspended 7))⟩ : DurableRun String))⟩]] =
        .error (.dispatch (.store (.taskSuspended 7))) := by
  refine ⟨by rfl, ⟨_, rfl⟩, by decide +kernel, by decide +kernel, rfl⟩

end Tysel.Runtime
