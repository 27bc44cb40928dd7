import Tysel.Algorithm.Runtime.Poller
import Tysel.Verification.Durable.Terminal
import Tysel.Verification.Engine.Sessions

/-! An execution claim that another claim of its task has superseded passes no guard. What its
attempt still does is discarded as lost authority, or acknowledged when the stored completion
is the same. -/

namespace Tysel.Durable

open List Db

variable {J : Type} {S : Crates J} {db : Db} {k : ExecutionClaim}

/-- A claim was issued, and after it another claim of the same task. -/
def Superseded (S : Crates J) (ops : List (Op J)) (k : ExecutionClaim) : Prop :=
  ∃ new, [k, new].Sublist (issuedIn (calls S Db.fresh ops)) ∧ k.taskId = new.taskId

def DistinctOwners (S : Crates J) (ops : List (Op J)) : Prop :=
  ((issuedIn (calls S Db.fresh ops)).map ExecutionClaim.owner).Nodup

theorem issuedIn_append (ops more : List (Op J)) : issuedIn (calls S fresh (ops ++ more)) =
      issuedIn (calls S fresh ops) ++ issuedIn (calls S (after S fresh ops) more) := by
  simp only [issuedIn, calls, after, trace_append, flatMap_append]

variable {ops : List (Op J)}

theorem Superseded.append (h : Superseded S ops k) (more : List (Op J)) :
    Superseded S (ops ++ more) k := by
  obtain ⟨new, hsub, htask⟩ := h
  refine ⟨new, ?_, htask⟩
  rw [issuedIn_append]
  exact hsub.trans (sublist_append_left _ _)

theorem DistinctOwners.of_append {more : List (Op J)} (h : DistinctOwners S (ops ++ more)) :
    DistinctOwners S ops := by
  unfold DistinctOwners at h
  rw [issuedIn_append, map_append] at h
  exact h.of_append_left

/-- What the store guarantees about the claims it issues. -/
structure ExecutionClaim.Issued (k : ExecutionClaim) : Prop where
  generation : k.generation < 2 ^ 63
  wakeup : ∀ w, k.wakeup = some w → w.taskId = k.taskId

theorem ExecutionClaim.Issued.of_enabled (h : Effect.Enabled S db (.claim k)) : k.Issued := by
  obtain ⟨-, -, hgen, -, hwakeup⟩ := h
  refine ⟨(nextGeneration_ok.mp hgen).2, fun w hw => ?_⟩
  rw [hwakeup, Option.map_eq_some_iff] at hw
  obtain ⟨-, -, rfl⟩ := hw
  rfl

theorem issued_of_mem (h : k ∈ issuedIn (calls S fresh ops)) : k.Issued := by
  have hall := run_tracks (S := S) (P := fun issued _ => ∀ c ∈ issued, c.Issued)
    Call.issued Effect.issued (fun _ => True) (fun _ => True) (fun c es h => h.issued)
    (fun _ _ _ _ _ _ => trivial) ?_ fresh_opened (by simp) ops (fun _ _ => trivial)
  · exact hall k h
  intro issued db e _ hissued hen c hc
  rcases mem_append.mp hc with hc | hc
  · exact hissued c hc
  cases e with
  | claim c' =>
    obtain rfl : c = c' := by simpa [Effect.issued] using hc
    exact .of_enabled hen
  | _ => simp [Effect.issued] at hc

/-- A claim that owns no execution row, although its generation is a valid one. -/
structure ExecutionClaim.Stale (k : ExecutionClaim) (db : Db) : Prop where
  generation : k.generation < 2 ^ 63
  notOwner : ∀ r, db.executions.get? k.taskId = some r → r.owner ≠ some k.owner

theorem Superseded.stale (h : Superseded S ops k) (hdistinct : DistinctOwners S ops) :
    k.Stale (after S fresh ops) := by
  obtain ⟨new, hsub, htask⟩ := h
  have howned : OwnedByLast k.taskId (issuedIn (calls S fresh ops)) (after S fresh ops) :=
    ownedByLast_after fresh_opened (fun r hr => by cases hr) ops
  exact ⟨(issued_of_mem (hsub.subset (by simp))).generation,
    fun r hr => superseded_not_owner howned hdistinct hsub htask hr⟩

def InTime (clock : ℤ) : Prop := 0 ≤ clock ∧ clock < 2 ^ 63

instance (clock : ℤ) : Decidable (InTime clock) := inferInstanceAs (Decidable (_ ∧ _))

theorem guardExecution_stale (h : k.Stale db) (u : TaskId) {clock : ℤ} (hclock : InTime clock) :
    guardExecution (some k) db u clock = .error .executionLeaseLost := by
  obtain ⟨hnonneg, hlt⟩ := hclock
  have hnow : now clock = .ok clock.toNat := now_ok.mpr ⟨hnonneg, by omega, rfl⟩
  have hinvalid : u ≠ k.taskId ∨ (db.executions.get? u).any (k.holds clock.toNat) = false := by
    by_cases htask : u = k.taskId
    · right
      subst htask
      cases hr : db.executions.get? k.taskId with
      | none => rfl
      | some r =>
        rw [Option.any_some, Bool.eq_false_iff]
        exact fun hholds => h.notOwner r hr (ExecutionClaim.holds_iff.mp hholds).2.1
    · exact .inl htask
  simp only [guardExecution, toSqlInteger_of_lt _ h.generation, hnow, ok_bind,
    toSqlInteger_of_lt "time" (show clock.toNat < 2 ^ 63 by omega)]
  exact reject_of _ hinvalid

end Tysel.Durable

namespace Tysel.Engine

open Tysel.Durable DurableSession

/-- The readings of the guards of a host call are SQL integers. -/
def HostCall.InTime : HostCall → Prop
  | .recordInput _ _ t₁ t₂ | .record _ _ _ _ t₁ t₂
  | .recordSleep _ _ _ _ t₁ t₂ | .completeSleep _ t₁ t₂
  | .pollSignal _ _ t₁ t₂ => Durable.InTime t₁ ∧ Durable.InTime t₂
  | .lookup .. | .findRetryOutcome _ => True

/-- The clock readings of a host call are SQL integers, in the order in which it takes them. -/
def HostCall.Orderly : HostCall → Prop
  | .recordInput _ clock t₁ t₂ | .completeSleep clock t₁ t₂
  | .pollSignal _ clock t₁ t₂ =>
    0 ≤ clock ∧ clock ≤ t₁ ∧ t₁ ≤ t₂ ∧ t₂ < 2 ^ 63
  | .record _ _ _ _ t₁ t₂ | .recordSleep _ _ _ _ t₁ t₂ =>
    0 ≤ t₁ ∧ t₁ ≤ t₂ ∧ t₂ < 2 ^ 63
  | .lookup .. | .findRetryOutcome _ => True

instance (hostCall : HostCall) : Decidable hostCall.Orderly := by
  cases hostCall <;> unfold HostCall.Orderly <;> infer_instance

theorem HostCall.Orderly.inTime {hostCall : HostCall} (h : hostCall.Orderly) : hostCall.InTime := by
  cases hostCall with
  | lookup | findRetryOutcome => trivial
  | record | recordSleep =>
    obtain ⟨h₁, _, h₃⟩ := h
    exact ⟨⟨h₁, by omega⟩, ⟨by omega, h₃⟩⟩
  | recordInput | completeSleep | pollSignal =>
    obtain ⟨_, _, _, h₃⟩ := h
    exact ⟨⟨by omega, by omega⟩, ⟨by omega, h₃⟩⟩

/-- A poll that finds a signal finds no wait for it that the session was not resumed for. -/
def DurableSession.Entitled {J : Type} (s : DurableSession J) (db : Db) : HostCall → Prop
  | .pollSignal name .. => s.signalClaim = none → (db.oldestSignal s.taskId name).isSome →
      db.signalWaits.get? s.taskId ≠ some ⟨s.nextSequence, name⟩
  | _ => True

structure DurableSession.Scoped {J : Type} (s : DurableSession J) (k : ExecutionClaim) :
    Prop where
  store : s.store = some k
  task : s.taskId = k.taskId
  lease : s.leaseUntilMs = some k.leaseUntilMs

variable {k : ExecutionClaim}

theorem fromExecution_scoped {J : Type} {S : Crates J} {db : Db} {clock : ℤ} {s : DurableSession J}
    (hissued : k.Issued) (h : fromExecution S db k clock = .ok s) :
    s.Scoped k ∧ s.storageError = none := by
  have hlease : s.leaseUntilMs = some k.leaseUntilMs := by
    unfold fromExecution at h
    cases hwakeup : k.wakeup <;> simp only [hwakeup, bind_ok, pure_ok] at h <;>
      obtain ⟨-, -, rfl⟩ := h <;> rfl
  rcases fromExecution_loaded h with ⟨-, hloaded⟩ | ⟨wakeup, -, hwakeup, -, -, hloaded⟩
  · exact ⟨⟨hloaded.ofStore, hloaded.ofTask, hlease⟩, hloaded.noError⟩
  · exact ⟨⟨hloaded.ofStore, hloaded.ofTask.trans (hissued.wakeup wakeup hwakeup), hlease⟩,
      hloaded.noError⟩

variable {J : Type} {S : Crates J} {db : Db} {s : DurableSession J}

theorem Hosted.lease {hostCall : HostCall} {x : Except SessionError Unit × DurableSession J × Db}
    (h : Hosted S s db hostCall x) : x.2.1.leaseUntilMs = s.leaseUntilMs := by
  cases h <;> simp only [stored] <;> repeat' first | rfl | split

theorem DurableSession.Scoped.host (h : s.Scoped k) (hostCall : HostCall) :
    (s.host S db hostCall).1.Scoped k :=
  have hhost := host_hosted S s db hostCall
  ⟨hhost.scope.1.trans h.store, hhost.scope.2.trans h.task, hhost.lease.trans h.lease⟩

theorem host_of_error {error : DurableError} (h : s.storageError = some error)
    (hostCall : HostCall) : s.host S db hostCall = (s, db) := by
  cases hostCall <;>
    simp only [host, recordInputJson, lookupJson, findRetryOutcomeJson, record, recordSleep,
      completeSleep, pollSignalJson, checked, h]

def handleOf (k : ExecutionClaim) (sequence : ℕ) : DurableCompletion :=
  ⟨some k, k.taskId, sequence, some k.leaseUntilMs⟩

theorem DurableSession.Scoped.completionHandle (h : s.Scoped k) (hsettled : s.settled = true) :
    s.completionHandle = .ok (handleOf k s.nextSequence) := by
  simp [DurableSession.completionHandle, hsettled, reject, h.store, h.task, h.lease, handleOf,
    pure, Except.pure]

end Tysel.Engine

namespace Tysel.Runtime

open Tysel.Durable Tysel.Engine DurableSession

variable {J α β : Type} {S : Crates J} {db : Db} {k : ExecutionClaim}
  {s : DurableSession J} {ops : List (Op J)} {sequence : ℕ} {v : J} {env : CompletionEnv}
  {o : Except EngineError J}

/-- An error that `DurableRunError::boundary` does not take for a failure of the store. -/
def Discarded (error : DurableError) : Prop :=
  DurableRunError.ofBoundary error = .leaseLost ∨ DurableRunError.ofBoundary error = .boundary error

theorem toSqlInteger_discarded {v : ℕ} {field : String} :
    Errs Discarded (toSqlInteger v field) := by
  unfold toSqlInteger
  split
  · exact .ok _
  · exact .error (.inr rfl)

theorem rawEvent_discarded {kind : EventKind} {key payload : String} {time : ℕ} :
    Errs Discarded (rawEvent S kind key payload time) := by
  refine .bind (.reject fun _ => .inr rfl) fun _ _ => .bind (.reject fun _ => .inr rfl)
    fun _ _ => .bind ?_ fun _ _ => .ok _
  unfold parseJson
  split
  · exact .ok _
  · exact .error (.inr rfl)

theorem guardExecution_fails (h : k.Stale db) (u : TaskId) {t₁ : ℤ}
    (hclock : InTime t₁) : Fails Discarded (guardExecution (some k) db u t₁) :=
  ⟨_, guardExecution_stale h u hclock, .inl rfl⟩

/-- A call of the session has changed neither the store nor the position in the history, and
the error it may have left in the session is not one of the store. -/
structure Fruitless (s : DurableSession J) (db : Db) (x : DurableSession J × Db) : Prop where
  db : x.2 = db
  store : x.1.store = s.store
  task : x.1.taskId = s.taskId
  lease : x.1.leaseUntilMs = s.leaseUntilMs
  sequence : x.1.nextSequence = s.nextSequence
  errors : ∀ e, x.1.storageError = some e → s.storageError = some e ∨ Discarded e

theorem Fruitless.refl : Fruitless s db (s, db) := ⟨rfl, rfl, rfl, rfl, rfl, fun _ => .inl⟩

theorem Fruitless.trans {db' : Db} {x y : DurableSession J × Db} (hx : Fruitless s db x)
    (hy : Fruitless x.1 db' y) : Fruitless s db' y where
  db := hy.db
  store := hy.store.trans hx.store
  task := hy.task.trans hx.task
  lease := hy.lease.trans hx.lease
  sequence := hy.sequence.trans hx.sequence
  errors := fun e he => (hy.errors e he).elim (hx.errors e) .inr

theorem Fruitless.stored {taken : DurableSession J} (h : Fruitless s db (taken, db))
    {result : Except DurableError (α × Db)} (hfails : Fails Discarded result)
    (next : α → Except SessionError β × DurableSession J) :
    Fruitless s db (taken.stored db result next).2 := by
  obtain ⟨error, rfl, herror⟩ := hfails
  refine ⟨rfl, h.store, h.task, h.lease, h.sequence, fun e he => ?_⟩
  cases hkept : taken.storageError with
  | none =>
    have : error = e := by
      simpa [DurableSession.stored, captureStorage, hkept] using he
    exact .inr (this ▸ herror)
  | some kept =>
    have : kept = e := by
      simpa [DurableSession.stored, captureStorage, hkept] using he
    exact h.errors e (by rw [hkept, this])

theorem host_fruitless (h : k.Stale db) (hstore : s.store = some k) {hostCall : HostCall}
    (htime : hostCall.InTime) {x : Except SessionError Unit × DurableSession J × Db}
    (hhost : Hosted S s db hostCall x) : Fruitless s db x.2 := by
  have hmoved : ∀ replay sleep, Fruitless s db
      ({ s with replay := replay, replayedSleep := sleep }, db) :=
    fun _ _ => ⟨rfl, rfl, rfl, rfl, rfl, fun _ => .inl⟩
  cases hhost with
  | moved => exact hmoved _ _
  | recorded hcall =>
    rw [hstore]
    refine .stored .refl (.bind rawEvent_discarded fun _ _ => .bind toSqlInteger_discarded
      fun _ _ => (guardExecution_fails h _ ?_).stop) _
    rcases hcall with rfl | ⟨⟨clock, rfl⟩, -⟩ <;> exact htime.1
  | slept =>
    rw [hstore]
    exact .stored .refl (.bind rawEvent_discarded fun _ _ => .bind toSqlInteger_discarded
      fun _ _ => .bind toSqlInteger_discarded fun _ _ =>
        (guardExecution_fails h _ htime.1).stop) _
  | woken =>
    refine .stored (hmoved _ _) ?_ _
    rw [hstore]
    exact (guardExecution_fails h _ htime.1).stop
  | polled =>
    rw [hstore]
    exact .stored .refl (.bind (.reject fun _ => .inr rfl) fun _ _ =>
      .bind toSqlInteger_discarded fun _ _ => (guardExecution_fails h _ htime.1).stop) _

def Moment.InTime : Moment J → Prop
  | .host hostCall => hostCall.InTime
  | .other _ => True

def othersIn (ms : List (Moment J)) : List (Op J) :=
  ms.filterMap fun
    | .host _ => none
    | .other op => some op

theorem moments_fruitless (hsuperseded : Superseded S ops k)
    (hstore : s.store = some k) (ms : List (Moment J))
    (hdistinct : DistinctOwners S (ops ++ othersIn ms)) (htime : ∀ m ∈ ms, m.InTime) :
    Fruitless s (after S Db.fresh (ops ++ othersIn ms))
      (ms.foldl (Moment.apply S) (s, after S Db.fresh ops)) := by
  induction ms generalizing s ops with
  | nil =>
    rw [show ops ++ othersIn [] = ops from List.append_nil ops]
    exact .refl
  | cons moment rest ih =>
    have hrest : ∀ m ∈ rest, m.InTime := fun m hm => htime m (List.mem_cons_of_mem _ hm)
    cases moment with
    | host hostCall =>
      have hstale := hsuperseded.stale hdistinct.of_append
      have hstep : Fruitless s (after S Db.fresh ops)
          (s.host S (after S Db.fresh ops) hostCall) :=
        host_fruitless hstale hstore (htime _ (List.mem_cons_self ..)) (host_hosted ..)
      have hsame : s.host S (after S Db.fresh ops) hostCall =
          ((s.host S (after S Db.fresh ops) hostCall).1, after S Db.fresh ops) :=
        Prod.ext rfl hstep.db
      rw [List.foldl_cons, Moment.apply, hsame]
      exact hstep.trans (ih hsuperseded (hstep.store.trans hstore) hdistinct hrest)
    | other op =>
      have hsplit : ops ++ othersIn (.other op :: rest) = (ops ++ [op]) ++ othersIn rest := by
        simp [othersIn]
      have hcall : (call S (after S Db.fresh ops) op).2 = after S Db.fresh (ops ++ [op]) := by
        simp [after, run_append]
      rw [hsplit] at hdistinct ⊢
      rw [List.foldl_cons, Moment.apply, hcall]
      exact ih (hsuperseded.append [op]) hstore hdistinct hrest

/-- No driver fault, and clock readings that are SQL integers. -/
structure Calm (env : CompletionEnv) : Prop where
  fault : env.fault = none
  guard : InTime env.finish.guard₁

/-- No completion of the task is stored, or the same one, if the value is offered to the store. -/
def Uncontested (S : Crates J) (db : Db) (u : TaskId) (sequence : ℕ) (v : J) : Prop :=
  (S.toStr v).utf8ByteSize ≤ maxEventPayloadBytes → ∀ row, db.completions.get? u = some row →
    row.nextSequence = sequence ∧
      ∃ stored, S.fromStr row.resultJson = some stored ∧ S.eq stored v = true

/-- A stored completion that is the same acknowledges; without one the authority is lost. -/
theorem finishTask_stale (h : k.Stale db) (hsound : db.Sound S) {u : TaskId}
    (hsize : (S.toStr v).utf8ByteSize ≤ maxEventPayloadBytes)
    (hsame : Uncontested S db u sequence v) (time : ℕ) (lease : Option ℕ)
    {clocks : FinishClocks} (hclock : InTime clocks.guard₁) :
    finishTask S (some k) db u sequence v time lease clocks =
      if (db.completions.get? u).isSome then .ok (true, db) else .error .executionLeaseLost := by
  unfold finishTask
  dsimp only
  rw [reject_of_not _ (by omega), ok_bind]
  cases hrow : db.completions.get? u with
  | none =>
    simp only [Option.isSome_none, Bool.false_eq_true, if_false, finishOpen]
    rw [guardExecution_stale h u hclock, error_bind]
  | some row =>
    obtain ⟨rfl, _, hstored, heq⟩ := hsame hsize row hrow
    have hbound : row.nextSequence < 2 ^ 63 := by
      rw [(hsound.closed u row hrow).sequence]
      have := (hsound.history u).count
      unfold maxHistoryEvents at this
      omega
    simp [toSqlInteger_of_lt _ hbound, parseJson, hstored, heq, reject, pure, Except.pure]

theorem complete_stale (h : k.Stale db) (hsound : db.Sound S)
    (hsame : Uncontested S db k.taskId sequence v) (hcalm : Calm env) :
    (handleOf k sequence).complete S db v env =
      if maxEventPayloadBytes < (S.toStr v).utf8ByteSize then .error .eventPayloadTooLarge
      else if (db.completions.get? k.taskId).isSome then .ok (true, db)
      else .error .executionLeaseLost := by
  unfold DurableCompletion.complete DurableCompletion.write
  by_cases hsize : maxEventPayloadBytes < (S.toStr v).utf8ByteSize
  · rw [reject_of _ hsize, if_pos hsize]
    rfl
  · rw [reject_of_not _ hsize, ok_bind, hcalm.fault, if_neg hsize]
    dsimp only [handleOf]
    rw [finishTask_stale h hsound (by omega) hsame 0 _ hcalm.guard]
    split_ifs <;> rfl

/-- What a stale attempt may end with: lost authority, or the acknowledgement of a stored
completion, or a result that `execute_managed` still has to release. -/
def Surrendered (db : Db) (u : TaskId) (o : Except EngineError J) (result : RunResult J) : Prop :=
  result = .error .leaseLost ∨ ∃ v, o = .ok v ∧
    result = .ok (.completed v) ∧ (db.completions.get? u).isSome

theorem evaluated_ok : s.evaluated o = .ok v ↔ o = .ok v ∧ s.settled = true := by
  unfold evaluated
  cases o with
  | error => simp
  | ok =>
    simp only [ok_bind, bind_ok, reject_ok, pure_ok, exists_const, Except.ok.injEq,
      Bool.not_eq_false, and_comm]

theorem evaluate_stale (h : k.Stale db) (hsound : db.Sound S) (d : DurableDispatcher)
    (hscope : s.Scoped k) (herrors : ∀ e, s.storageError = some e → Discarded e)
    (hsame : ∀ v, o = .ok v → s.settled = true → Uncontested S db k.taskId s.nextSequence v)
    (hcalm : Calm env) :
    ∃ result, evaluate S d db s o env = (result, d.dropSlot, db) ∧
      (Surrendered db k.taskId o result ∨ ∃ failed, transition result = some failed) := by
  unfold evaluate
  cases herror : s.storageError with
  | some error =>
    refine ⟨_, rfl, ?_⟩
    rcases herrors error herror with hlost | hboundary
    · exact .inl (.inl (by rw [hlost]))
    · exact .inr ⟨true, by rw [hboundary]; rfl⟩
  | none =>
    cases hvalue : s.evaluated o with
    | error e =>
      cases e with
      | suspended => exact ⟨_, rfl, .inr ⟨false, rfl⟩⟩
      | _ => exact ⟨_, rfl, .inr ⟨true, rfl⟩⟩
    | ok v =>
      obtain ⟨rfl, hsettled⟩ := evaluated_ok.mp hvalue
      unfold finish
      rw [hscope.completionHandle hsettled]
      dsimp only
      rw [complete_stale h hsound (hsame v rfl hsettled) hcalm]
      split_ifs with hsize hstored
      · exact ⟨_, rfl, .inr ⟨true, rfl⟩⟩
      · exact ⟨_, rfl, .inl (.inr ⟨v, rfl, rfl, hstored⟩)⟩
      · exact ⟨_, rfl, .inl (.inl rfl)⟩

/-- A stale attempt that runs to its end surrenders: it changes nothing in the store, retains
nothing and gives its slot back. -/
theorem proceed_stale (hsuperseded : Superseded S ops k)
    (d : DurableDispatcher) (hscope : s.Scoped k) (hclean : s.storageError = none)
    (ms : List (Moment J)) (htime : ∀ m ∈ ms, m.InTime) (ending : Ending J)
    (hcalm : Calm ending.env) (hclock : InTime ending.clock₁)
    (hdistinct : DistinctOwners S (ops ++ othersIn ms ++ ending.others))
    (hsame : ∀ v, ending.outcome = .ok v →
      (ms.foldl (Moment.apply S) (s, after S Db.fresh ops)).1.settled = true →
      Uncontested S (after S Db.fresh (ops ++ othersIn ms)) k.taskId
        s.nextSequence v) : ∃ result,
      proceed S d (after S Db.fresh ops) k s ms ending = (⟨k.taskId, result⟩, d.dropSlot,
          after S Db.fresh (ops ++ othersIn ms ++ ending.others)) ∧
      Surrendered (after S Db.fresh (ops ++ othersIn ms)) k.taskId ending.outcome
        result := by
  have hlate := (hsuperseded.append (othersIn ms)).stale hdistinct.of_append
  have hlast := ((hsuperseded.append (othersIn ms)).append ending.others).stale hdistinct
  have hmoments := moments_fruitless hsuperseded hscope.store ms hdistinct.of_append htime
  unfold proceed
  generalize ms.foldl (Moment.apply S) (s, after S Db.fresh ops) = x at hmoments hsame ⊢
  obtain ⟨s', db'⟩ := x
  obtain rfl : db' = after S Db.fresh (ops ++ othersIn ms) := hmoments.db
  have hscope' : s'.Scoped k := ⟨hmoments.store.trans hscope.store,
    hmoments.task.trans hscope.task, hmoments.lease.trans hscope.lease⟩
  have herrors : ∀ e, s'.storageError = some e → Discarded e := fun e he =>
    (hmoments.errors e he).elim (fun h => by simp [hclean] at h) id
  have hsequence : s'.nextSequence = s.nextSequence := hmoments.sequence
  obtain ⟨result, heval, hresult⟩ := evaluate_stale hlate (sound_after _) d hscope' herrors
    (fun v hvalue hsettled => hsequence ▸ hsame v hvalue hsettled) hcalm
  have hafter : run (call S) (after S Db.fresh (ops ++ othersIn ms)) ending.others =
      after S Db.fresh (ops ++ othersIn ms ++ ending.others) :=
    (run_append _ _ _ _).symm
  dsimp only
  rw [heval]
  rw [hafter]
  rcases hresult with hsurrendered | ⟨failed, hfailed⟩
  · have hkept : transition result = none := by
      rcases hsurrendered with rfl | ⟨v, -, rfl, -⟩ <;> rfl
    refine ⟨result, ?_, hsurrendered⟩
    rw [closeRun, hkept]
  · refine ⟨.error .leaseLost, ?_, .inl rfl⟩
    simp only [closeRun, hfailed, releaseRun, guardExecution_stale hlast _ hclock, error_bind]
    rfl

end Tysel.Runtime
