import Tysel.Verification.Runtime.Stale

/-! A retry pass releases the retained completions of superseded claims and goes on, and a poll
does not fail because of them. Only a different stored completion is reported as a failure of
the store, and then the supervised poller stops. Each finalization slot belongs to an execution
or to a retained completion. -/

namespace Tysel.Runtime

open Tysel.Durable Tysel.Engine List Option Batch Db DurableDispatcher Table

variable {J : Type} {S : Crates J} {db : Db} {c : ExecutionClaim} {σ : DurableSession J}
  {d : DurableDispatcher} {ops : List (Op J)} {sequence : ℕ}

def Retains (S : Crates J) (d : DurableDispatcher) (c : ExecutionClaim) (sequence : ℕ)
    (v : J) : Prop :=
  ∃ text, d.pending.get? c.taskId = some ⟨handleOf c sequence, text⟩ ∧
    S.fromStr text = some v ∧ (S.toStr v).utf8ByteSize ≤ maxEventPayloadBytes

/-- A retained completion that another claim has superseded meets no different completion. -/
structure StaleVisit (S : Crates J) (ops : List (Op J)) (d : DurableDispatcher) (visit : Visit J)
    (c : ExecutionClaim) (sequence : ℕ) (v : J) : Prop where
  task : visit.task = c.taskId
  superseded : Superseded S ops c
  distinct : DistinctOwners S (ops ++ visit.others)
  retained : Retains S d c sequence v
  calm : Calm visit.env
  same : Uncontested S (after S fresh (ops ++ visit.others)) c.taskId sequence v

/-- The run that a retry pass reports for a completion that is stored already. -/
def acknowledged (db : Db) (task : TaskId) (v : J) : List (DurableRun J) :=
  if (db.completions.get? task).isSome then [⟨task, .ok (.completed v)⟩] else []

theorem retryLoop_stale {visit : Visit J} {v : J} (h : StaleVisit S ops d visit c sequence v)
    (rest : List (Visit J)) (runs : List (DurableRun J)) :
    retryLoop S (visit :: rest) runs d (after S fresh ops) = retryLoop S rest
        (runs ++ acknowledged (after S fresh (ops ++ visit.others)) visit.task v)
        (d.release visit.task) (after S fresh (ops ++ visit.others)) := by
  obtain ⟨text, hentry, htext, hsize⟩ := h.retained
  have hstale := (h.superseded.append visit.others).stale h.distinct
  have hafter : run (call S) (after S fresh ops) visit.others =
      after S fresh (ops ++ visit.others) :=
    (run_append _ _ _ _).symm
  have hcomplete := complete_stale hstale (sound_after _) h.same h.calm
  rw [if_neg (by omega)] at hcomplete
  rw [← h.task] at hentry hcomplete
  rw [retryLoop]
  simp only [hentry, htext, bind_eq_bind, bind_some, hafter, hcomplete]
  unfold acknowledged
  by_cases hstored : ((after S fresh (ops ++ visit.others)).completions.get? visit.task).isSome
  · simp only [hstored, if_true]
  · simp only [hstored, Bool.false_eq_true, if_false, append_nil]

theorem release_get? (d : DurableDispatcher) (task other : TaskId) :
    (d.release task).pending.get? other = if other = task then none else d.pending.get? other :=
  get?_erase ..

theorem Retains.release_slots {v : J} (h : Retains S d c sequence v) :
    (d.release c.taskId).slots = d.slots - 1 := by
  obtain ⟨_, hentry, -⟩ := h
  simp [release, hentry]

def StalePass (S : Crates J) : List (Op J) → DurableDispatcher → List (Visit J) → Prop
  | _, _, [] => True
  | ops, d, visit :: rest =>
    (∃ c sequence v, StaleVisit S ops d visit c sequence v) ∧
      StalePass S (ops ++ visit.others) (d.release visit.task) rest

theorem retryLoop_stalePass {visits : List (Visit J)} (h : StalePass S ops d visits)
    (runs : List (DurableRun J)) :
    ∃ runs' d' db', retryLoop S visits runs d (after S fresh ops) = some ((runs', none), d', db') ∧
      (∀ task, d.pending.get? task = none ∨ task ∈ visits.map Visit.task →
        d'.pending.get? task = none) ∧ d'.slots = d.slots - visits.length := by
  induction visits generalizing ops d runs with
  | nil => exact ⟨runs, d, _, rfl, by simp, rfl⟩
  | cons visit rest ih =>
    obtain ⟨⟨_, _, _, hvisit⟩, hrest⟩ := h
    obtain ⟨runs', d', db', hloop, hreleased, hslots⟩ := ih hrest _
    refine ⟨runs', d', db', (retryLoop_stale hvisit rest runs).trans hloop, ?_, ?_⟩
    · intro task htask
      refine hreleased task ?_
      rw [release_get?]
      by_cases hhere : task = visit.task
      · exact .inl (if_pos hhere)
      · rw [if_neg hhere]
        refine htask.imp_right fun hmem => ?_
        exact (mem_cons.mp hmem).resolve_left hhere
    · rw [hslots, hvisit.task, hvisit.retained.release_slots, length_cons]
      omega

/-- A turn whose task ended without an error of the store. -/
def Harmless (t : Batch.Turn J) : Prop :=
  ∃ run?, t.joined = .ok run? ∧ ∀ run, run? = some run → ∀ e, run.result ≠ .error (.store e)

section

variable (limit n : ℕ)

/-- The inner loop sends a front part of the programs, and stops with no program left or without
room. -/
theorem fillFrom_spec (progs : List (TaskId × String)) (b : Batch J) :
    ∃ front rest, progs = front ++ rest ∧ b.fillFrom limit n progs =
        { b with programs := rest, inFlight := b.inFlight ++ front.map Prod.fst } ∧
      (rest = [] ∨ (b.fillFrom limit n progs).hasRoom limit n = false) := by
  induction progs generalizing b with
  | nil => exact ⟨[], [], rfl, by simp [fillFrom], .inl rfl⟩
  | cons program progs ih =>
    unfold fillFrom
    by_cases hroom : b.hasRoom limit n
    · obtain ⟨front, rest, rfl, hfill, hstop⟩ := ih { b with inFlight := b.inFlight ++ [program.1] }
      rw [if_pos hroom]
      exact ⟨program :: front, rest, rfl, by simp [hfill], hstop⟩
    · rw [if_neg hroom]
      exact ⟨[], program :: progs, rfl, by simp, .inr (by simpa [hasRoom] using hroom)⟩

section

variable (cancelled : Bool) (b : Batch J)

theorem fill_spec : ∃ front rest, b.programs = front ++ rest ∧ b.fill limit n cancelled =
        { b with programs := rest, inFlight := b.inFlight ++ front.map Prod.fst } ∧
      (cancelled = true ∨ rest = [] ∨ (b.fill limit n cancelled).hasRoom limit n = false) := by
  cases cancelled with
  | true => exact ⟨[], b.programs, rfl, by simp [fill], .inl rfl⟩
  | false =>
    obtain ⟨front, rest, hprograms, hfill, hstop⟩ := fillFrom_spec limit n b.programs b
    exact ⟨front, rest, hprograms, hfill, .inr hstop⟩

theorem fill_failure : (b.fill limit n cancelled).failure = b.failure := by
  obtain ⟨_, _, -, hfill, -⟩ := fill_spec limit n cancelled b
  rw [hfill]

theorem fill_runs : (b.fill limit n cancelled).runs = b.runs := by
  obtain ⟨_, _, -, hfill, -⟩ := fill_spec limit n cancelled b
  rw [hfill]

end

end

theorem turn_failure {t : Batch.Turn J} (h : Harmless t) (n : ℕ) (b : Batch J) :
    (b.turn n t).failure = b.failure := by
  obtain ⟨run?, hjoined, hrun⟩ := h
  rw [← fill_failure maxPollConcurrency n t.cancelled b]
  unfold turn turnWithin collect
  rw [hjoined]
  cases run? with
  | none => rfl
  | some run =>
    dsimp only
    split
    · exact absurd ‹_› (hrun run rfl _)
    · rfl

theorem turns_failure {turns : List (Batch.Turn J)} (h : ∀ t ∈ turns, Harmless t)
    (n : ℕ) (b : Batch J) : (turns.foldl (turn n) b).failure = b.failure := by
  induction turns generalizing b with
  | nil => rfl
  | cons t _ ih =>
    rw [foldl_cons, ih fun t ht => h t (mem_cons_of_mem _ ht)]
    exact turn_failure (h t (mem_cons_self ..)) n b

theorem pollBatch_eq (n cursor : ℕ) (completed : List (DurableRun J))
    (progs : List (TaskId × String)) (turns : List (Batch.Turn J)) :
    pollBatch n cursor (some (completed, none)) (.ok progs) turns = (turns.foldl (turn n)
        ⟨progs.rotate (cursor % progs.length), [], completed, none⟩).result :=
  rfl

theorem Surrendered.ne_store {task : TaskId} {o : Except EngineError J} {result : RunResult J}
    (h : Surrendered db task o result) (e : DurableError) : result ≠ .error (.store e) := by
  rcases h with rfl | ⟨v, -, rfl, -⟩ <;> simp

/-- After another claim of its task has been issued, whatever an attempt still does is
surrendered, unless a different completion is stored: the rest of its script and its end leave
no trace in the store and no error in a batch, a retry pass releases its retained completion
with the slot and goes on, and a poll over such completions succeeds. -/
theorem stale_attempt_surrenders (S : Crates J) (ops : List (Op J)) :
    (∀ c ∈ issuedIn (calls S fresh ops), ∀ db clock (σ : DurableSession J),
      (DurableSession.fromExecution S db c clock = .ok σ → σ.Scoped c ∧ σ.storageError = none) ∧
      ∀ hostCall, σ.Scoped c → (σ.host S db hostCall).1.Scoped c) ∧
    (∀ c, Superseded S ops c → ∀ σ : DurableSession J, σ.Scoped c →
      σ.storageError = none → ∀ (d : DurableDispatcher) (moments : List (Moment J))
        (ending : Ending J), (∀ m ∈ moments, m.InTime) → Calm ending.env →
      InTime ending.clock₁ → DistinctOwners S (ops ++ othersIn moments ++ ending.others) →
      (∀ v, ending.outcome = .ok v →
        (moments.foldl (Moment.apply S) (σ, after S fresh ops)).1.settled = true →
        Uncontested S (after S fresh (ops ++ othersIn moments)) c.taskId
          σ.nextSequence v) → ∃ result,
        proceed S d (after S fresh ops) c σ moments ending = (⟨c.taskId, result⟩, d.dropSlot,
            after S fresh (ops ++ othersIn moments ++ ending.others)) ∧
        Surrendered (after S fresh (ops ++ othersIn moments)) c.taskId ending.outcome
          result ∧ ∀ n cancelled (b : Batch J),
          (b.turn n ⟨cancelled, c.taskId, .ok (some ⟨c.taskId, result⟩)⟩).failure = b.failure) ∧
      (∀ c sequence v d visit, StaleVisit S ops d visit c sequence v →
        (∀ rest runs, retryLoop S (visit :: rest) runs d (after S fresh ops) = retryLoop S rest
            (runs ++ acknowledged (after S fresh (ops ++ visit.others)) visit.task v)
            (d.release visit.task) (after S fresh (ops ++ visit.others))) ∧
        (d.release visit.task).pending.get? visit.task = none ∧
        (d.release visit.task).slots = d.slots - 1) ∧
      ∀ d visits, StalePass S ops d visits → ∀ n cursor progs turns, (∀ t ∈ turns, Harmless t) →
        ∃ completed d' db' runs, retryCompletions S visits d (after S fresh ops) =
            some ((completed, none), d', db') ∧
          (∀ visit ∈ visits, d'.pending.get? visit.task = none) ∧
          d'.slots = d.slots - visits.length ∧
          pollBatch n cursor (some (completed, none)) (.ok progs) turns = .ok runs ∧
          ∀ s : Supervisor J, ∃ s', s.round (.ok runs) = .ok s' := by
  refine ⟨?_, ?_, ?_, ?_⟩
  · intro c hissued db clock σ
    exact ⟨fromExecution_scoped (issued_of_mem hissued), fun hostCall h => h.host hostCall⟩
  · intro c hsuperseded σ hscope hclean d moments ending htime hcalm hclock hdistinct
      hsame
    obtain ⟨result, hproceed, hsurrendered⟩ := proceed_stale hsuperseded d hscope hclean moments
      htime ending hcalm hclock hdistinct hsame
    refine ⟨result, hproceed, hsurrendered, fun n cancelled b => ?_⟩
    refine turn_failure ⟨_, rfl, fun run hrun e => ?_⟩ n b
    obtain rfl := some.inj hrun
    exact hsurrendered.ne_store e
  · intro c sequence v d visit hvisit
    refine ⟨retryLoop_stale hvisit, ?_, ?_⟩
    · rw [release_get?, if_pos rfl]
    · rw [hvisit.task, hvisit.retained.release_slots]
  intro d visits hpass n cursor progs turns hturns
  obtain ⟨completed, d', db', hloop, hreleased, hslots⟩ := retryLoop_stalePass hpass []
  obtain ⟨runs, hbatch⟩ : ∃ runs, pollBatch n cursor (some (completed, none))
      (.ok progs) turns = .ok runs := by
    rw [pollBatch_eq, result, turns_failure hturns]
    exact ⟨_, rfl⟩
  exact ⟨completed, d', db', runs, hloop,
    fun visit hmem => hreleased _ (.inr (mem_map_of_mem hmem)), hslots, hbatch,
    fun s => ⟨_, rfl⟩⟩

/-- The first claim of `handover`, which the second one supersedes. -/
def firstClaim : ExecutionClaim := ⟨7, "token-1", 1, 10, none⟩

/-- The session of the first executor after an empty history. -/
def firstSession : DurableSession Bool :=
  ⟨some firstClaim, 7, ⟨[], 0⟩, 0, none, false, some 10, none, none⟩

/-- The second executor completes the task with this value. -/
def secondCompletes (v : Bool) : Op Bool :=
  .finishTask (some ⟨7, "token-2", 2, 30, none⟩) 7 0 v 0 (some 30) ⟨21, 21, 21, 21⟩

def firstRetained : DurableDispatcher := ⟨insertNew ∅ 7 ⟨handleOf firstClaim 0, "true"⟩, 1⟩

def calmEnv : CompletionEnv := ⟨⟨22, 22, 22, 22⟩, 22, none⟩

theorem firstClaim_superseded (more : List (Op Bool)) :
    Superseded bools (handover ++ more) firstClaim := by
  have hissued : Superseded bools handover firstClaim :=
    ⟨⟨7, "token-2", 2, 30, none⟩, by decide, rfl⟩
  exact hissued.append more

/-- The second executor stores the same value: the first one's end and its retained
completion are acknowledged. -/
theorem stale_attempt_surrenders_same_value :
    (∃ result, (proceed bools ⟨∅, 1⟩ (after bools fresh (handover ++ []))
        firstClaim firstSession [.other (secondCompletes true)]
        ⟨.ok true, calmEnv, [], 23, 23⟩).1.result = result ∧ ∀ e, result ≠ .error (.store e)) ∧
      ∃ completed d' db' runs, retryCompletions bools [⟨7, [], calmEnv⟩] firstRetained
          (after bools fresh (handover ++ [secondCompletes true])) =
            some ((completed, none), d', db') ∧ d'.pending.get? 7 = none ∧ d'.slots = 0 ∧
        pollBatch 8 0 (some (completed, none)) (.ok []) [] = .ok runs := by
  have hsame : Uncontested bools
      (after bools fresh (handover ++ [secondCompletes true])) 7 0 true := by
    intro _ row hrow
    obtain rfl := some.inj (hrow.symm.trans (show _ = some ⟨0, "true", 21⟩ by decide +kernel))
    exact ⟨rfl, true, rfl, rfl⟩
  have hdistinct : DistinctOwners bools (handover ++ [secondCompletes true]) := by
    unfold DistinctOwners
    decide +kernel
  have hcalm : Calm calmEnv := ⟨rfl, by decide⟩
  constructor
  · obtain ⟨result, hproceed, hsurrendered, -⟩ :=
      (stale_attempt_surrenders bools (handover ++ [])).2.1 firstClaim
        (firstClaim_superseded []) firstSession ⟨rfl, rfl, rfl⟩ rfl ⟨∅, 1⟩
        [.other (secondCompletes true)] ⟨.ok true, calmEnv, [], 23, 23⟩ (by simp [Moment.InTime])
        hcalm (by decide) hdistinct (by rintro v ⟨⟩ _; exact hsame)
    exact ⟨result, by rw [hproceed], hsurrendered.ne_store⟩
  · have hvisit : StaleVisit bools (handover ++ [secondCompletes true]) firstRetained
        ⟨7, [], calmEnv⟩ firstClaim 0 true :=
      ⟨rfl, firstClaim_superseded _, hdistinct, ⟨"true", rfl, rfl, by decide⟩, hcalm, hsame⟩
    obtain ⟨completed, d', db', runs, hretry, hreleased, hslots, hbatch, -⟩ :=
      (stale_attempt_surrenders bools (handover ++ [secondCompletes true])).2.2.2 firstRetained
        [⟨7, [], calmEnv⟩] ⟨⟨_, _, _, hvisit⟩, trivial⟩ 8 0 [] [] (by simp)
    exact ⟨completed, d', db', runs, hretry, hreleased _ (mem_cons_self ..), hslots, hbatch⟩

/-- The second executor stores another value: the end of the first attempt, and each pass over
its retained completion, is a failure of the store that no retry resolves; the pass keeps the
entry, does not visit the next one, and the supervised poller stops. -/
theorem different_completion_stops_poller :
    (executeManaged bools ⟨∅, 1⟩ (after bools fresh (handover.take 2)) firstClaim 1
        [.other (.claimRun 7 "second" 10 (some "token-2") 20 20), .other (secondCompletes false)]
        ⟨.ok true, calmEnv, [], 23, 23⟩).1.result = .error (.store (.taskCompleted 7)) ∧
      (∀ rest, retryCompletions bools (⟨7, [], calmEnv⟩ :: rest) firstRetained
          (after bools fresh (handover ++ [secondCompletes false])) =
        some (([], some (.store (.taskCompleted 7))), firstRetained,
          after bools fresh (handover ++ [secondCompletes false]))) ∧
      runSupervised [pollBatch 8 0 (some ([], some (.store (.taskCompleted 7)))) (.ok []) [],
          (.ok ([] : List (DurableRun Bool)))] = .error (.dispatch (.store (.taskCompleted 7))) ∧
      runSupervised [pollBatch 8 0 (some ([], none)) (.ok [(7, "42")])
          [⟨false, 7, .ok (some (⟨7, .error (.store (.taskCompleted 7))⟩ : DurableRun Bool))⟩]] =
        .error (.dispatch (.store (.taskCompleted 7))) := by
  refine ⟨by decide +kernel, fun rest => ?_, rfl, rfl⟩
  rfl

def retained (d : DurableDispatcher) : ℕ := d.pending.sum fun _ _ => 1

/-- The reachable dispatchers, with the number of executions that hold a slot. An execution ends
with `evaluate`, or only gives its slot back. -/
inductive Dispatching (S : Crates J) : DurableDispatcher → ℕ → Prop
  | new : Dispatching S ⟨∅, 0⟩ 0
  | reserved {d d' held} : Dispatching S d held → d.reserve = .ok d' → Dispatching S d' (held + 1)
  | dropped {d held} : Dispatching S d (held + 1) → Dispatching S d.dropSlot held
  | evaluated {d held} (db σ o env) : Dispatching S d (held + 1) →
      Dispatching S (evaluate S d db σ o env).2.1 held
  | retried {d held visits db result d' db'} : Dispatching S d held →
      retryCompletions S visits d db = some (result, d', db') → Dispatching S d' held

/-- Each slot belongs to one execution or to one retained completion. -/
def Balanced (d : DurableDispatcher) (held : ℕ) : Prop :=
  d.slots = held + retained d ∧ d.slots ≤ maxFinalizations

variable {d' : DurableDispatcher} {held : ℕ}

theorem reserve_ok : d.reserve = .ok d' ↔
    d.slots < maxFinalizations ∧ { d with slots := d.slots + 1 } = d' := by
  simp only [reserve, reject_bind_ok_iff, pure_ok, not_le]

theorem Balanced.dropSlot (h : Balanced d (held + 1)) : Balanced d.dropSlot held := by
  unfold Balanced DurableDispatcher.dropSlot retained at *
  dsimp only
  omega

/-- A completion that is already retained for the task gives up its slot to the new one. -/
theorem Balanced.retain (h : Balanced d (held + 1)) (task : TaskId) (entry : PendingCompletion) :
    Balanced (d.retain task entry) held := by
  have hsum := sum_add (t := d.pending) (f := fun _ _ => 1) (g := fun _ _ => 1)
    (fun _ hne => get?_insert_ne (k := task) (r := entry) hne) fun _ _ _ => rfl
  unfold Balanced DurableDispatcher.retain retained at *
  dsimp only
  cases hentry : d.pending.get? task <;> simp [hentry] at hsum ⊢ <;> omega

theorem Balanced.release (h : Balanced d held) (task : TaskId) :
    Balanced (d.release task) held := by
  have hsum := sum_erase (fun _ _ => 1) task d.pending
  unfold Balanced DurableDispatcher.release retained at *
  dsimp only
  cases hentry : d.pending.get? task <;> simp [hentry] at hsum ⊢ <;> omega

theorem Balanced.evaluate (h : Balanced d (held + 1)) (db : Db) (σ : DurableSession J)
    (o : Except EngineError J) (env : CompletionEnv) :
    Balanced (evaluate S d db σ o env).2.1 held := by
  unfold Runtime.evaluate finish
  split
  · exact h.dropSlot
  split
  · split
    · exact h.dropSlot
    split
    · exact h.dropSlot
    split
    · exact h.retain ..
    · exact h.dropSlot
  · exact h.dropSlot
  · exact h.dropSlot

theorem Balanced.retryLoop {visits : List (Visit J)} {runs : List (DurableRun J)} {db db' : Db}
    {result : Retried J} (h : Balanced d held)
    (hloop : retryLoop S visits runs d db = some (result, d', db')) : Balanced d' held := by
  induction visits generalizing runs d db with
  | nil =>
    obtain ⟨-, rfl, -⟩ := some.inj hloop
    exact h
  | cons _ _ ih =>
    simp only [Runtime.retryLoop, bind_eq_bind, bind_eq_some_iff] at hloop
    obtain ⟨_, -, _, -, hloop⟩ := hloop
    split at hloop
    · exact ih (h.release _) hloop
    · exact ih (h.release _) hloop
    · obtain ⟨-, rfl, -⟩ := some.inj hloop
      exact h

/-- Over every interleaving of the dispatcher's calls no slot is lost: those in use are the
executions and the retained completions, never more than the limit, and another execution may
start exactly when there are fewer. -/
theorem slots_accounted (h : Dispatching S d held) : d.slots = held + retained d ∧
    held + retained d ≤ maxFinalizations ∧
    ((∃ d', d.reserve = .ok d') ↔ held + retained d < maxFinalizations) := by
  have hbalanced : Balanced d held := by
    induction h with
    | new => exact ⟨rfl, by decide⟩
    | reserved _ hreserve ih =>
      obtain ⟨hroom, rfl⟩ := reserve_ok.mp hreserve
      unfold Balanced retained at *
      dsimp only
      omega
    | dropped _ ih => exact ih.dropSlot
    | evaluated db σ o env _ ih => exact ih.evaluate db σ o env
    | retried _ hretry ih => exact ih.retryLoop hretry
  obtain ⟨hslots, hbound⟩ := hbalanced
  rw [← hslots]
  simp [reserve_ok, hbound]

/-- The store fails at the end of an execution: its completion is retained with the slot, and a
retry pass gives the slot back. -/
theorem slots_accounted_retained :
    let db := after bools fresh (handover ++ [secondCompletes true])
    let d := (evaluate bools ⟨∅, 1⟩ db firstSession (.ok true)
      { calmEnv with fault := some .io }).2.1
    retained d = 1 ∧ ∃ result d' db', retryCompletions bools [⟨7, [], calmEnv⟩] d db =
      some (result, d', db') ∧ retained d' = 0 := by
  intro db d
  have hd : Dispatching bools d 0 := .evaluated db _ _ _ (.reserved .new rfl)
  have hslots : d.slots = 1 := by decide +kernel
  have hpass : (retryCompletions bools [⟨7, [], calmEnv⟩] d db).map (·.2.1.slots) = some 0 := by
    decide +kernel
  obtain ⟨⟨result, d', db'⟩, hretry, hfree⟩ := map_eq_some_iff.mp hpass
  have hd' := (slots_accounted (.retried hd hretry)).1
  have := (slots_accounted hd).1
  dsimp only at hfree
  exact ⟨by omega, result, d', db', hretry, by omega⟩

end Tysel.Runtime
