import Tysel.Verification.Engine.Sessions

/-! The invariant of the executors over one store: the store is managed, every task is parked,
and every executor follows its task while its claim owns it. Each action keeps it, so in
every reachable state a task that is neither completed nor failed will be returned by
`load_due_programs_batch`, or awaits a signal that is not pending. -/

namespace Tysel.Engine

open Tysel.Durable List Option DurableSession Table World Executor Effect
open Effect (apply Enabled apply_executions)

variable {J : Type} {S : Crates J} {db : Db} {σ : DurableSession J} {clock : ℤ}
  {p : ProgramRow}

/-! ## Executors -/

/-- What an executor knows: its claim is not newer than the execution row, and while the claim
owns the task, the session follows it. -/
structure Executor.Ok (x : Executor J) (db : Db) : Prop where
  wakeupTask : ∀ wakeup, x.claim.wakeup = some wakeup → wakeup.taskId = x.claim.taskId
  generation : ∃ r, db.executions.get? x.claim.taskId = some r ∧ x.claim.generation ≤ r.generation
  unopened : x.session = none → x.claim.wakeup = none → Owns x.claim db → Idle db x.claim.taskId
  opened : ∀ σ, x.session = some σ → SessionOf x.claim σ db

theorem Follows.congr (h : Follows σ db) {db' : Db}
    (hwake : db'.wakeups.get? σ.taskId = db.wakeups.get? σ.taskId)
    (hwait : db'.signalWaits.get? σ.taskId = db.signalWaits.get? σ.taskId) :
    Follows σ db' where
  resolved hr := ⟨hwake.trans (h.resolved hr).1, hwait.trans (h.resolved hr).2⟩
  sleeping token ht hk := hwait.trans (h.sleeping token ht hk)
  waiting token ht hk := hwait ▸ h.waiting token ht hk
  suspended hs := hwake ▸ hwait ▸ h.suspended hs

variable {x : Executor J}

theorem Executor.Ok.generation_effect (h : x.Ok db) {e : Effect} (hen : e.Enabled S db)
    (hman : e.Managed) : ∃ r, (e.apply db).executions.get? x.claim.taskId = some r ∧
      x.claim.generation ≤ r.generation := by
  obtain ⟨r, hr, hle⟩ := h.generation
  obtain ⟨r', hr', hle'⟩ := generation_apply hen hman hr
  exact ⟨r', hr', hle.trans hle'⟩

theorem Executor.Ok.frame (h : x.Ok db) {e : Effect} (hen : e.Enabled S db) (hman : e.Managed)
    (hta : x.claim.taskId ≠ e.task) : x.Ok (e.apply db) where
  wakeupTask := h.wakeupTask
  generation := h.generation_effect hen hman
  unopened hs hw howns := by
    have hidle := h.unopened hs hw ((Owns.congr (executions_frame db hta)).mp howns)
    exact ⟨(wakeups_frame db hta).trans hidle.1, (signalWaits_frame db hta).trans hidle.2⟩
  opened σ hs := by
    have hof := h.opened σ hs
    refine ⟨hof.store, hof.task, fun howns => ?_⟩
    refine (hof.follows ((Owns.congr (executions_frame db hta)).mp howns)).congr ?_ ?_
    · rw [hof.task]
      exact wakeups_frame db hta
    · rw [hof.task]
      exact signalWaits_frame db hta

theorem Executor.Ok.disowned (h : x.Ok db) {e : Effect} (hen : e.Enabled S db) (hman : e.Managed)
    (hnot : ¬ Owns x.claim (e.apply db)) : x.Ok (e.apply db) where
  wakeupTask := h.wakeupTask
  generation := h.generation_effect hen hman
  unopened _ _ howns := absurd howns hnot
  opened σ hs := ⟨(h.opened σ hs).store, (h.opened σ hs).task, fun howns => absurd howns hnot⟩

variable {receipt : Option ReceiptRow} {c : ExecutionClaim}

theorem Idle.signal {row : InboxRow} (h : Idle db row.taskId) :
    Idle (apply db (.signal row receipt)) row.taskId := by
  refine ⟨?_, h.2⟩
  rw [wakeups_signal, h.2]
  exact h.1

theorem Follows.signal {row : InboxRow} (h : Follows σ db) (hta : σ.taskId = row.taskId) :
    Follows σ (apply db (.signal row receipt)) where
  resolved hr := by
    rw [hta]
    exact Idle.signal (hta ▸ h.resolved hr)
  sleeping := h.sleeping
  waiting := h.waiting
  suspended hs := by
    rw [hta, wakeups_signal]
    rcases h.suspended hs with hwake | hwait
    · left
      rw [hta] at hwake
      split
      · split
        · rfl
        · exact hwake
      · exact hwake
    · exact .inr (hta ▸ hwait)

theorem Executor.Ok.signal (h : x.Ok db) {row : InboxRow} (hen : Enabled S db (.signal row receipt))
    (hman : Managed (.signal row receipt)) : x.Ok (apply db (.signal row receipt)) := by
  by_cases hta : x.claim.taskId = row.taskId
  · refine ⟨h.wakeupTask, h.generation_effect hen hman, fun hs hw howns => ?_, fun s hs => ?_⟩
    · rw [hta]
      exact Idle.signal (hta ▸ h.unopened hs hw howns)
    · have hof := h.opened s hs
      exact ⟨hof.store, hof.task, fun howns => (hof.follows howns).signal (hof.task.trans hta)⟩
  · exact h.frame hen hman hta

theorem Executor.Ok.open (h : Ok (J := J) ⟨c, none⟩ db) (hist : ∀ t, db.HistoryOk t)
    (hparked : ∀ t, db.Parked t) (hopen : fromExecution S db c clock = .ok σ) :
    Ok ⟨c, some σ⟩ db := by
  refine ⟨h.wakeupTask, h.generation, by simp, ?_⟩
  rintro _ ⟨⟩
  rcases fromExecution_loaded hopen with
    ⟨hnone, hloaded⟩ | ⟨wakeup, w, hsome, hw, hmatch, hloaded⟩
  · have htoken : σ.activeWakeup = none := (Except.ok.inj hloaded.token).symm
    refine ⟨hloaded.ofStore, hloaded.ofTask, fun howns => .of_idle htoken hloaded.awake ?_⟩
    rw [hloaded.ofTask]
    exact h.unopened rfl hnone howns
  have hta : wakeup.taskId = c.taskId := h.wakeupTask wakeup hsome
  rw [hta] at hloaded hw
  obtain ⟨token, htoken, hcases⟩ := hloaded.resumed
  obtain ⟨hseq, hclaim, hkind⟩ := wakeupToken_cases hcases
  refine ⟨hloaded.ofStore, hloaded.ofTask, fun _ => ⟨?_, ?_, ?_, ?_⟩⟩
  · simp [resolved, htoken]
  · -- a wait would be at the next sequence, and its wakeup with it
    intro token' ht hk
    obtain rfl : token = token' := mem_unique htoken ht
    rcases hkind with ⟨-, _, -⟩ | ⟨hsignal, -⟩
    · rw [hloaded.ofTask]
      by_contra hwait
      obtain ⟨q, hq⟩ := ne_none_iff_exists'.mp hwait
      have hat := (hparked c.taskId).wakeAt w q hw hq
      have hnext := hloaded.nextSequence (hist c.taskId)
      have hsequence := (WakeupClaim.matches_iff.mp hmatch).1
      omega
    · rw [hsignal] at hk
      cases hk
  · intro token' ht hk
    obtain rfl : token = token' := mem_unique htoken ht
    rcases hkind with ⟨hsleep, -⟩ | ⟨-, -, _, hwait, -⟩
    · rw [hsleep] at hk
      cases hk
    · refine ⟨?_, wakeup, hclaim, hseq.symm⟩
      rw [hloaded.ofTask, hwait]
      rfl
  · rw [hloaded.awake]
    simp

/-! ## Worlds -/

/-- The executors of one task have different generations. -/
def Distinct (executors : List (Executor J)) : Prop :=
  (executors.map fun x => (x.claim.taskId, x.claim.generation)).Nodup

structure World.Ok (S : Crates J) (w : World J) : Prop where
  managed : w.db.Managed S
  parked : ∀ t, w.db.Parked t
  executors : ∀ x ∈ w.executors, x.Ok w.db
  distinct : Distinct w.executors

variable {w : World J} {e : Effect}

theorem World.Ok.history (h : w.Ok S) (t : TaskId) : w.db.HistoryOk t :=
  h.managed.registered.sound.history t

/-- A next state that is in order and has kept every execution row. -/
structure World.Next (S : Crates J) (w w' : World J) : Prop where
  ok : w'.Ok S
  rows : ∀ t, (w.db.executions.get? t).isSome → (w'.db.executions.get? t).isSome

theorem World.Ok.same (h : w.Ok S) : Next S w w := ⟨h, fun _ => id⟩

variable {executors : List (Executor J)} {t : TaskId}

theorem World.Next.drop {w' : World J} (h : Next S w w') (hsub : executors.Sublist w'.executors) :
    Next S w { w' with executors := executors } where
  ok := ⟨h.ok.managed, h.ok.parked, fun x hx => h.ok.executors x (hsub.subset hx),
    h.ok.distinct.sublist (hsub.map _)⟩
  rows := h.rows

theorem World.Ok.effect (h : w.Ok S) (hen : e.Enabled S w.db) (hman : e.Managed)
    (hparked : (e.apply w.db).Parked e.task) (hdistinct : Distinct executors)
    (hok : ∀ x ∈ executors, x.Ok (e.apply w.db)) : Next S w ⟨e.apply w.db, executors⟩ := by
  refine ⟨⟨h.managed.apply hen hman, fun t => ?_, hok, hdistinct⟩, fun t hsome => ?_⟩
  · by_cases hta : t = e.task
    · exact hta ▸ hparked
    · exact (h.parked t).frame h.managed.registered.inbox hen hta
  · obtain ⟨_, hr⟩ := isSome_iff_exists.mp hsome
    obtain ⟨r', hr', -⟩ := generation_apply hen hman hr
    simp [hr']

theorem World.Ok.disown (h : w.Ok S) (hen : e.Enabled S w.db) (hman : e.Managed)
    (hparked : (e.apply w.db).Parked e.task)
    (hnot : ∀ x ∈ w.executors, x.claim.taskId = e.task → ¬ Owns x.claim (e.apply w.db)) :
    Next S w ⟨e.apply w.db, w.executors⟩ := by
  refine h.effect hen hman hparked h.distinct fun x hx => ?_
  by_cases hta : x.claim.taskId = e.task
  · exact (h.executors x hx).disowned hen hman (hnot x hx hta)
  · exact (h.executors x hx).frame hen hman hta

/-! ## Actions -/

theorem not_owns_of_state (hta : c.taskId = t)
    (hstate : ∀ r, db.executions.get? t = some r → r.state ≠ .running) : ¬ Owns c db := by
  rintro ⟨r, hr, hrunning, -⟩
  exact hstate r (hta ▸ hr) hrunning

theorem World.Ok.admission (h : w.Ok S) {event : EventRow} {key hash : String}
    (hen : Enabled S w.db (.admitModule t p event key hash)) (hkind : p.programKind = .module) :
    Next S w ⟨apply w.db (.admitModule t p event key hash), w.executors⟩ := by
  refine h.disown hen hkind ((h.parked t).admitModule hen) fun x hx hta => ?_
  -- an executor of the task would have left an execution row
  obtain ⟨_, hr, -⟩ := (h.executors x hx).generation
  rw [hta] at hr
  exact absurd (hr.symm.trans hen.2.2.2.2.1) (by simp)

theorem World.Ok.release (h : w.Ok S) {failed : Bool} (hen : Enabled S w.db (.release c failed))
    (hresume : failed = false → (w.db.wakeups.get? c.taskId).isSome ∨
      (w.db.signalWaits.get? c.taskId).isSome) :
    Next S w ⟨apply w.db (.release c failed), w.executors⟩ := by
  refine h.disown hen trivial ((h.parked c.taskId).release hresume) fun x _ hta => ?_
  refine not_owns_of_state hta fun r hr => ?_
  rw [apply_executions, task, get?_modify_self] at hr
  obtain ⟨-, -, rfl⟩ := map_eq_some_iff.mp hr
  cases failed <;> simp

theorem World.Ok.complete (h : w.Ok S) {row : CompletionRow}
    (hen : Enabled S w.db (.complete t row p)) :
    Next S w ⟨apply w.db (.complete t row p), w.executors⟩ := by
  refine h.disown hen trivial (.complete hen) fun x _ hta => ?_
  refine not_owns_of_state hta fun r hr => ?_
  rw [apply_executions, task, get?_modify_self] at hr
  obtain ⟨-, -, rfl⟩ := map_eq_some_iff.mp hr
  simp

theorem World.Ok.signal (h : w.Ok S) {row : InboxRow}
    (hen : Enabled S w.db (.signal row receipt)) (hrange : row.sentAtMs < 2 ^ 63) :
    Next S w ⟨apply w.db (.signal row receipt), w.executors⟩ :=
  h.effect hen hrange (h.parked row.taskId).signal h.distinct fun x hx =>
    (h.executors x hx).signal hen hrange

theorem World.Ok.generation_lt (h : w.Ok S) (hen : Enabled S w.db (.claim c)) (hx : x ∈ w.executors)
    (hta : x.claim.taskId = c.taskId) : x.claim.generation < c.generation := by
  obtain ⟨_, hr, hle⟩ := (h.executors x hx).generation
  obtain ⟨-, -, hgen, -⟩ := hen
  rw [hta] at hr
  rw [hr, nextGeneration_ok] at hgen
  exact hgen.1 ▸ Nat.lt_succ_of_le hle

/-- The executor of a new claim: a claim without a wakeup is granted on an idle task only. -/
theorem Executor.Ok.granted (hen : Enabled S db (.claim c)) :
    Ok (J := J) ⟨c, none⟩ (apply db (.claim c)) := by
  obtain ⟨-, -, -, ⟨_, -, hfree⟩, hwakeup⟩ := hen
  refine ⟨?_, ⟨_, claim_row db c, le_rfl⟩, ?_, by simp⟩
  · intro wakeup hsome
    rw [hwakeup] at hsome
    obtain ⟨w, -, rfl⟩ := map_eq_some_iff.mp hsome
    rfl
  intro _ hnone _
  have hwake : db.wakeups.get? c.taskId = none := by
    rw [hwakeup] at hnone
    exact map_eq_none_iff.mp hnone
  simp only [Db.claimBlocked, hwake, Bool.or_eq_false_iff, isSome_eq_false_iff,
    isNone_iff_eq_none] at hfree
  refine ⟨?_, hfree.2⟩
  rw [apply_wakeups, get?_modify_self, hwake]
  rfl

theorem World.Ok.grant (h : w.Ok S)
    (hen : Enabled S w.db (.claim c)) (hrange : c.leaseUntilMs < 2 ^ 63) :
    Next S w ⟨apply w.db (.claim c), w.executors ++ [⟨c, none⟩]⟩ := by
  have hdisowned : Next S w ⟨apply w.db (.claim c), w.executors⟩ := by
    refine h.disown hen hrange (h.parked c.taskId).claim fun x hx hta => ?_
    rintro ⟨_, hr, -, -, hgen⟩
    rw [hta, task, claim_row] at hr
    obtain rfl := some.inj hr
    exact absurd hgen (h.generation_lt hen hx hta).ne'
  refine ⟨⟨hdisowned.ok.managed, hdisowned.ok.parked, fun x hx => ?_, ?_⟩, hdisowned.rows⟩
  · rcases mem_append.mp hx with hx | hx
    · exact hdisowned.ok.executors x hx
    · obtain rfl := mem_singleton.mp hx
      exact .granted hen
  simp only [Distinct, map_append, map_cons, map_nil]
  refine nodup_append.mpr ⟨h.distinct, by simp, ?_⟩
  rintro _ hp _ hq rfl
  obtain ⟨x, hx, rfl⟩ := mem_map.mp hp
  simp only [mem_singleton, Prod.mk.injEq] at hq
  exact absurd hq.2 (h.generation_lt hen hx hq.1).ne

/-! ## Sessions in a world -/

variable {i : ℕ} {c : ExecutionClaim} {σ : DurableSession J}

variable {y : Executor J}

theorem Distinct.set (h : Distinct executors) (hx : executors[i]? = some x)
    (hclaim : y.claim = x.claim) : Distinct (executors.set i y) := by
  have hsame : (executors.set i y).map (fun x => (x.claim.taskId, x.claim.generation)) =
      executors.map fun x => (x.claim.taskId, x.claim.generation) := by
    rw [map_set, hclaim]
    refine ext_getElem? fun j => ?_
    rw [getElem?_set]
    split
    · rename_i hj
      subst hj
      obtain ⟨hlt, rfl⟩ := List.getElem?_eq_some_iff.mp hx
      simp [hlt]
    · rfl
  rw [Distinct, hsame]
  exact h

theorem mem_set (h : x ∈ executors.set i y) : x = y ∨ ∃ j, j ≠ i ∧ executors[j]? = some x := by
  obtain ⟨j, hj⟩ := mem_iff_getElem?.mp h
  rw [getElem?_set] at hj
  split at hj
  · split at hj
    · exact .inl (some.inj hj).symm
    · cases hj
  · rename_i hne
    exact .inr ⟨j, Ne.symm hne, hj⟩

namespace World.Ok

theorem not_owns_other (h : w.Ok S) {j : ℕ} (hi : w.executors[i]? = some x)
    (hj : w.executors[j]? = some y) (hne : j ≠ i) (hta : y.claim.taskId = x.claim.taskId)
    (howns : Owns x.claim w.db) : ¬ Owns y.claim w.db := by
  rintro ⟨r', hr', -, -, hgen'⟩
  obtain ⟨r, hr, -, -, hgen⟩ := howns
  rw [hta] at hr'
  obtain rfl : r = r' := mem_unique hr hr'
  have hlt : j < (w.executors.map fun x => (x.claim.taskId, x.claim.generation)).length := by
    simpa using (List.getElem?_eq_some_iff.mp hj).1
  refine hne ((getElem?_inj hlt h.distinct).mp ?_)
  simp [hi, hj, hta, ← hgen, ← hgen']

theorem replace (h : w.Ok S) (hi : w.executors[i]? = some x) (hclaim : y.claim = x.claim)
    (hok : y.Ok w.db) : Next S w { w with executors := w.executors.set i y } := by
  refine ⟨⟨h.managed, h.parked, fun z hz => ?_, h.distinct.set hi hclaim⟩, fun _ => id⟩
  rcases mem_set hz with rfl | ⟨_, -, hj⟩
  · exact hok
  · exact h.executors z (mem_of_getElem? hj)

theorem host (h : w.Ok S) (hi : w.executors[i]? = some ⟨c, some σ⟩)
    {hostCall : HostCall} (hpermits : σ.permits hostCall = true) :
    Next S w
      { db := (σ.host S w.db hostCall).2
        executors := w.executors.set i ⟨c, some (σ.host S w.db hostCall).1⟩ } := by
  have hx := h.executors _ (mem_of_getElem? hi)
  have hof : SessionOf c σ w.db := hx.opened σ rfl
  have hhost := host_hosted S σ w.db hostCall
  obtain ⟨hstore, hta⟩ := hhost.scope
  have hok : ∀ db', (∃ r, db'.executions.get? c.taskId = some r ∧ c.generation ≤ r.generation) →
      (Owns c db' → Follows (σ.host S w.db hostCall).1 db') →
      Executor.Ok ⟨c, some (σ.host S w.db hostCall).1⟩ db' := by
    intro db' hgen hfollows
    refine ⟨hx.wakeupTask, hgen, by simp, ?_⟩
    rintro _ ⟨⟩
    exact ⟨hstore.trans hof.store, hta.trans hof.task, hfollows⟩
  cases hhost.step hof hpermits with
  | unchanged hdb hfollows =>
    rw [hdb]
    exact h.replace hi rfl (hok _ hx.generation hfollows)
  | effect e hen hman hdb hta howns hexec hparked hfollows =>
    rw [hdb]
    refine h.effect hen hman (hta ▸ hparked) (h.distinct.set hi rfl) fun y hy => ?_
    rcases mem_set hy with rfl | ⟨_, hne, hj⟩
    · exact hok _ (hx.generation_effect hen hman) fun _ => hfollows
    have hy := h.executors y (mem_of_getElem? hj)
    by_cases hsame : y.claim.taskId = c.taskId
    · refine hy.disowned hen hman ?_
      have hcongr : Owns y.claim (e.apply w.db) ↔ Owns y.claim w.db := Owns.congr (by rw [hexec])
      exact mt hcongr.mp (h.not_owns_other hi hj hne hsame howns)
    · exact hy.frame hen hman (hta ▸ hsame)

theorem openSession (h : w.Ok S) (hi : w.executors[i]? = some ⟨c, none⟩)
    (hopen : fromExecution S w.db c clock = .ok σ) :
    Next S w { w with executors := w.executors.set i ⟨c, some σ⟩ } :=
  h.replace hi rfl ((h.executors _ (mem_of_getElem? hi)).open h.history h.parked hopen)

theorem suspend (h : w.Ok S) (hi : w.executors[i]? = some ⟨c, some σ⟩)
    (hsuspended : σ.suspended = true) (t₁ t₂ : ℤ) :
    Next S w
      { db := (call S w.db (.releaseRun c false t₁ t₂)).2
        executors := w.executors.eraseIdx i } := by
  have hof := (h.executors _ (mem_of_getElem? hi)).opened σ rfl
  refine call_state (P := fun db => Next S w ⟨db, w.executors.eraseIdx i⟩) rfl
    (h.same.drop (eraseIdx_sublist _ _)) fun _ db' hrelease => ?_
  obtain ⟨hpass, hen, rfl⟩ := releaseRun_commits hrelease
  have hresume := (hof.follows (.of_passes hpass)).suspended hsuspended
  rw [hof.task] at hresume
  exact (h.release hen fun _ => hresume).drop (eraseIdx_sublist _ _)

/-! ## Runs -/

/-- A store call of the world, from what its operation commits. -/
theorem store (h : w.Ok S) {op : Op J} {α : Type} {f : α → Reply J}
    {x : Except DurableError (α × Db)} (hop : perform S w.db op = replying f x)
    (hok : ∀ a db', x = .ok (a, db') → Next S w { w with db := db' }) :
    Next S w (w.store S op) :=
  call_state hop h.same hok

theorem step (h : w.Ok S) (act : Act J) : Next S w (w.step S act) := by
  cases act with
  | admission =>
    refine h.store rfl fun _ db' hadmitted => ?_
    rcases admitModule_commits hadmitted with ⟨-, rfl⟩ | ⟨-, p, hash, hen, rfl, hkind, -⟩
    · exact h.same
    · exact h.admission hen hkind
  | claim t owner duration drawn t₁ t₂ =>
    rcases call_cases S w.db (.claimRun t owner duration drawn t₁ t₂) with
      ⟨e, -, hcall⟩ | ⟨r, db', hok, hcall⟩
    · simpa only [World.step, hcall, granted, append_nil] using h.same
    simp only [World.step, hcall]
    obtain ⟨granted, hclaim, rfl⟩ := replying_ok.mp hok
    rcases claimRun_commits hclaim with ⟨rfl, rfl⟩ | ⟨_, rfl, hgranted⟩
    · simpa only [granted, append_nil] using h.same
    · rw [hgranted.commits]
      exact h.grant hgranted.enabled hgranted.inRange
  | signal =>
    refine h.store rfl fun _ db' hsent => ?_
    rcases sendSignalInner_commits hsent with ⟨-, -, -, -, -, -, -, rfl⟩ | ⟨-, hen, rfl⟩
    · exact h.same
    · simp only [sendSignalInner, bind_ok, toSqlInteger_ok] at hsent
      obtain ⟨-, -, -, -, _, ⟨htime, -⟩, -⟩ := hsent
      exact h.signal hen htime
  | openSession =>
    simp only [World.step]
    split
    · rename_i hi
      split
      · rename_i hopen
        exact h.openSession hi hopen
      · exact h.same.drop (eraseIdx_sublist _ _)
    · exact h.same
  | host =>
    simp only [World.step]
    split
    · rename_i hi
      split
      · rename_i hpermits
        exact h.host hi hpermits
      · exact h.same
    · exact h.same
  | suspend _ t₁ t₂ =>
    simp only [World.step]
    split
    · rename_i hi
      split
      · rename_i hsuspended
        exact h.suspend hi hsuspended t₁ t₂
      · exact h.same
    · exact h.same
  | fail =>
    refine h.store rfl fun _ db' hrelease => ?_
    obtain ⟨-, hen, rfl⟩ := releaseRun_commits hrelease
    exact h.release hen (by simp)
  | finish =>
    refine h.store rfl fun _ db' hfinish => ?_
    rcases finishTask_commits hfinish with
      ⟨_, -, -, rfl, -⟩ | ⟨-, -, ⟨-, -, rfl⟩ | ⟨-, _, _, hfin⟩⟩
    · exact h.same
    · exact h.same
    · rw [hfin.commits]
      exact h.complete hfin.enabled
  | crash => exact h.same.drop (eraseIdx_sublist _ _)

end World.Ok

theorem start_ok : start.Ok S where
  managed := Db.fresh_managed
  parked t := .of_idle rfl rfl fun r hr => by cases hr
  executors := by simp [start]
  distinct := nodup_nil

theorem ok_after (S : Crates J) (acts : List (Act J)) : (after S acts).Ok S := by
  unfold World.after
  induction acts using reverseRecOn with
  | nil => exact start_ok
  | append_singleton _ act ih =>
    rw [foldl_append]
    exact (ih.step act).ok

/-- The task has been admitted in the run: an admission of it has returned without error. -/
def Admitted (S : Crates J) (acts : List (Act J)) (t : TaskId) : Prop :=
  ∃ past key source input time rest, acts = past ++ .admission t key source input time :: rest ∧
    (call S (after S past).db (.admitModule t key source input time)).1 = .ok (.unit ())

/-- An admission leaves an execution row, and no later action deletes it. -/
theorem Admitted.row {acts : List (Act J)} (h : Admitted S acts t) :
    ((after S acts).db.executions.get? t).isSome := by
  obtain ⟨past, key, source, input, time, rest, rfl, hreply⟩ := h
  have hadmitted : (((after S past).step S
      (.admission t key source input time)).db.executions.get? t).isSome := by
    rcases call_cases S (after S past).db (.admitModule t key source input time) with
      ⟨e, -, hcall⟩ | ⟨r, db', hok, hcall⟩
    · simp [hcall] at hreply
    simp only [step, World.store, hcall]
    obtain ⟨_, hadmit, -⟩ := replying_ok.mp hok
    rcases admitModule_commits hadmit with ⟨hsome, rfl⟩ | ⟨-, _, _, -, rfl, -⟩
    · exact hsome
    · rw [apply_executions, get?_insert_self]
      rfl
  have hok := ((ok_after S past).step (.admission t key source input time)).ok
  simp only [World.after, foldl_append, foldl_cons] at hadmitted hok ⊢
  -- the rest of the run keeps the row
  generalize step S _ _ = w at hadmitted hok ⊢
  induction rest generalizing w with
  | nil => exact hadmitted
  | cons act _ ih => exact ih _ ((hok.step act).rows t hadmitted) (hok.step act).ok

/-- In every reachable state an admitted task that is neither completed nor failed will be due,
or awaits a signal that is not pending; and a suspended task has a wakeup or a wait. -/
theorem no_stranded_task (S : Crates J) (acts : List (Act J)) (t : TaskId) :
    (Admitted S acts t → ((after S acts).db.executions.get? t).isSome) ∧
    ∀ r, (after S acts).db.executions.get? t = some r →
      ((after S acts).db.completions.get? t = none → r.state ≠ .failed →
        (after S acts).db.DueLater S t ∨ (after S acts).db.AwaitsSignal t) ∧
      (r.state = .suspended → ((after S acts).db.wakeups.get? t).isSome ∨
          ((after S acts).db.signalWaits.get? t).isSome) := by
  have hok := ok_after S acts
  refine ⟨Admitted.row, fun r hr => ⟨fun hopen hfailed => ?_, ?_⟩⟩
  · exact hok.managed.eligible (hok.parked t) hr hopen hfailed
  · exact (hok.parked t).suspended r hr

/-- An admitted task is claimed, polls for a signal and suspends. -/
def waitingRun : List (Act Bool) :=
  [.admission 7 "key" "42" "true" 0, .claim 7 "worker" 1000 (some "token") 10 10,
    .openSession 0 10, .host 0 (.lookup .step taskInputKey), .host 0 (.lookup .signal "go"),
    .host 0 (.pollSignal "go" 10 10 10), .suspend 0 20 20]

theorem no_stranded_task_waiting :
    ((after bools waitingRun).db.executions.get? 7).map (fun r => r.state) =
        some .suspended ∧ ((after bools waitingRun).db.DueLater bools 7 ∨
        (after bools waitingRun).db.AwaitsSignal 7) := by
  obtain ⟨r, hr, hstate⟩ : ∃ r, (after bools waitingRun).db.executions.get? 7 = some r ∧
      r.state = .suspended := ⟨_, rfl, by decide⟩
  refine ⟨by rw [hr, map_some, hstate], ?_⟩
  exact ((no_stranded_task bools waitingRun 7).2 r hr).1 (by decide) (by rw [hstate]; decide)

end Tysel.Engine
