import Tysel.Verification.Runtime.Stale

/-! While a claim owns its task, nobody else changes the rows that its execution depends on, and
the session that executes it agrees with the store about the next sequence, the wakeup and the
wait of the task. The host calls of the durable API then fail only with errors that
`DurableRunError::boundary` takes for errors of the task. -/

namespace Tysel.Runtime

open Guarded.Chain

open Tysel.Durable Tysel.Engine List Effect Option DurableSession Except ExecutionClaim ReplayCursor

variable {J α β : Type} {S : Crates J} {db db' : Db} {k c : ExecutionClaim}
  {execution : Option ExecutionClaim} {t₁ t₂ : ℤ} {ms q : ℕ}
  {presented : Option WakeupClaim} {s' : DurableSession J}

/-! ## Other parties -/

/-- What other parties do to the store while a claim is executed. The rows of its task are
addressed only by admissions, signals and claims of it, and by calls under other claims. -/
def Elsewhere (k : ExecutionClaim) : Op J → Prop
  | .sendSignal .. | .admitModule .. | .pruneCompleted .. | .initializeSchema => True
  | .claimRun _ _ _ drawn _ _ => drawn ≠ some k.owner
  | .claimDueWakeups .. => False
  | op => op.task? ≠ some k.taskId ∨ ∃ c, op.store? = some c ∧ c.owner ≠ k.owner

/-- The claim owns the row of its open task, with the lease it was granted. -/
structure Current (k : ExecutionClaim) (db : Db) : Prop where
  row : ∃ r, db.executions.get? k.taskId = some r ∧ r.state = .running ∧
    r.owner = some k.owner ∧ r.generation = k.generation ∧
    r.leaseUntilMs = some k.leaseUntilMs
  isOpen : db.IsOpen k.taskId

/-- The rows that the execution of a task depends on are the same, except that a signal may
have woken a wait without a wakeup. -/
structure Kept (db db' : Db) (t : TaskId) : Prop where
  execution : db'.executions.get? t = db.executions.get? t
  completion : db'.completions.get? t = db.completions.get? t
  events : db'.eventsOf t = db.eventsOf t
  wait : db'.signalWaits.get? t = db.signalWaits.get? t
  wakeup : ((db.signalWaits.get? t).isSome → (db.wakeups.get? t).isSome) →
    db'.wakeups.get? t = db.wakeups.get? t

theorem Kept.refl (db : Db) (t : TaskId) : Kept db db t := ⟨rfl, rfl, rfl, rfl, fun _ => rfl⟩

variable {t : TaskId} {clock : ℤ} {op : Op J}

theorem Kept.of_sameRows (h : SameRows db db' t) : Kept db db' t :=
  ⟨h.execution, h.completion, h.events, h.wait, fun _ => h.wakeup⟩

theorem Current.congr (h : Current k db)
    (hexec : db'.executions.get? k.taskId = db.executions.get? k.taskId)
    (hcomp : db'.completions.get? k.taskId = db.completions.get? k.taskId) :
    Current k db' := by
  refine ⟨?_, hcomp.trans h.isOpen⟩
  rw [hexec]
  exact h.row

theorem sameRows_call (hopened : db.Opened) {u : TaskId} (hta : op.task? = some u)
    (hne : t ≠ u) : SameRows db (call S db op).2 t := by
  obtain ⟨_, hes⟩ := call_committed S hopened op
  refine invariant (P := fun s => SameRows db s t)
    (fun e => e.task = u) ?_ hes.chain ?_ (.refl db t)
  · intro s e he hsame hen
    exact hsame.trans (sameRows_apply hen (he ▸ hne))
  · intro e he
    rcases (hes.origin e he).addressed with haddr | ⟨hn, -⟩
    · exact mem_unique haddr hta
    · exact absurd (hn.symm.trans hta) (by simp)

theorem sameRows_prune (S : Crates J) {before limit deleted : ℕ} (hopen : db.IsOpen t)
    (h : pruneCompleted db before limit = .ok (deleted, db')) : SameRows db db' t := by
  obtain ⟨_, hchain⟩ := pruneCompleted_commits h
  refine invariant (G := effects S) (P := fun s => SameRows db s t)
    (fun e => ∃ u, e = .prune u) ?_ hchain (by simp) (.refl db t)
  rintro s - ⟨u, rfl⟩ hsame hen
  have henabled : Effect.Enabled S s (.prune u) := hen
  refine hsame.trans (sameRows_apply henabled ?_)
  rintro rfl
  have hcompleted := henabled.1
  rw [hsame.completion, show db.completions.get? _ = none from hopen] at hcompleted
  cases hcompleted

theorem kept_signal (db : Db) (row : InboxRow) (receipt : Option ReceiptRow) :
    Kept db (apply db (.signal row receipt)) row.taskId := by
  refine ⟨rfl, rfl, rfl, rfl, fun haw => ?_⟩
  rw [apply_wakeups]
  dsimp only [Db.wakeWaiting]
  cases hwait : db.signalWaits.get? row.taskId with
  | none => rfl
  | some =>
    obtain ⟨_, hw⟩ := isSome_iff_exists.mp (haw (by simp [hwait]))
    dsimp only
    split
    · rw [Table.get?_insertNew, if_pos rfl, hw]
      rfl
    · rfl

theorem kept_scoped (h : Current k db) (hstore : op.store? = some c)
    (howner : c.owner ≠ k.owner) (hta : op.task? = some k.taskId) :
    Kept db (call S db op).2 k.taskId := by
  rcases call_cases S db op with ⟨_, -, hcall⟩ | ⟨r, _, hok, hcall⟩
  · rw [hcall]
    exact .refl db _
  obtain ⟨_, _, haddressed, hpass⟩ := scoped_call_passes hstore (by
    rintro store _ expected value time lease clocks rfl
    obtain rfl := some.inj hta
    exact h.isOpen) hok
  obtain rfl := mem_unique haddressed hta
  obtain ⟨-, -, -, -, _, hr', hholds⟩ := passes_iff.mp hpass
  obtain ⟨r, hr, -, hr_owner, -⟩ := h.row
  obtain rfl := mem_unique hr hr'
  have hclash := (holds_iff.mp hholds).2.1.symm.trans hr_owner
  exact absurd (some.inj hclash) howner

/-- The calls of other parties keep the rows of the task, or take the claim over. -/
theorem elsewhere_keeps (hopened : db.Opened) (hgen : k.generation < 2 ^ 63)
    (h : Current k db) (hop : Elsewhere k op) :
    Kept db (call S db op).2 k.taskId ∨ k.Stale (call S db op).2 := by
  have hstate : ∀ {α} {f : α → Reply J} {x}, perform S db op = replying f x → (∀ a db',
      x = .ok (a, db') → Kept db db' k.taskId ∨ k.Stale db') → _ := fun hperform =>
    call_state hperform (.inl (.refl db _))
  by_cases hta : op.task? = some k.taskId
  · cases op with
    | sendSignal =>
      refine hstate rfl fun id db' hsend => .inl ?_
      obtain rfl := some.inj hta
      rcases sendSignalInner_commits hsend with ⟨-, -, -, -, -, -, -, rfl⟩ | ⟨-, -, rfl⟩
      · exact .refl _ _
      · exact kept_signal db _ _
    | admitModule =>
      refine hstate rfl fun _ db' hadmit => .inl ?_
      obtain rfl := some.inj hta
      obtain ⟨_, hrow, -⟩ := h.row
      rcases admitModule_commits hadmit with ⟨-, rfl⟩ | ⟨hn, -⟩
      · exact .refl _ _
      · simp [hrow] at hn
    | claimRun =>
      refine hstate rfl fun _ db' hclaim => ?_
      rcases claimRun_commits (S := S) hclaim with ⟨-, rfl⟩ | ⟨new, -, hgranted⟩
      · exact .inl (.refl _ _)
      right
      refine ⟨hgen, fun r hr howner => ?_⟩
      have hnew : new.taskId = k.taskId := hgranted.task_eq.trans (some.inj hta)
      rw [hgranted.commits, ← hnew, claim_row] at hr
      obtain rfl := some.inj hr
      exact hop (hgranted.drawn_eq.trans howner)
    | claimDueWakeups => exact absurd hop not_false
    | pruneCompleted | initializeSchema => cases hta
    | _ =>
      obtain hne | ⟨_, hstore, howner⟩ := hop
      · exact absurd hta hne
      · exact .inl (kept_scoped h hstore howner hta)
  · cases hother : op.task? with
    | some =>
      refine .inl (.of_sameRows (sameRows_call hopened hother fun ht => hta ?_))
      rw [hother, ht]
    | none =>
      cases op with
      | claimDueWakeups => exact absurd hop not_false
      | pruneCompleted =>
        exact hstate rfl fun _ db' hprune =>
          .inl (.of_sameRows (sameRows_prune S h.isOpen hprune))
      | initializeSchema =>
        have hsame : perform S db .initializeSchema = .ok (.unit (), db) :=
          replying_ok.mpr ⟨(), initializeSchema_of_opened hopened, rfl⟩
        rw [call_of_ok hsame]
        exact .inl (.refl db _)
      | _ => cases hother

theorem issued_granted (h : c ∈ Call.issued (entry (call S) db op)) :
    ∃ t owner duration t₁ t₂, op = .claimRun t owner duration (some c.owner) t₁ t₂ ∧
        Granted S db (call S db op).2 t (some c.owner) c := by
  rcases call_cases S db op with ⟨e, -, hcall⟩ | ⟨r, db', hok, hcall⟩
  · simp [Call.issued, entry, hcall] at h
  simp only [Call.issued, entry, hcall] at h
  split at h
  · rename_i hreply
    obtain rfl := mem_singleton.mp h
    obtain rfl := ok.inj hreply
    cases op with
    | claimRun t owner duration _ c₁ c₂ =>
      obtain ⟨granted, hclaim, hsome⟩ := replying_ok.mp hok
      obtain rfl : some c = granted := by simpa using hsome
      rcases claimRun_commits hclaim with ⟨hn, -⟩ | ⟨_, hnew, hgranted⟩
      · cases hn
      · obtain rfl := some.inj hnew
        obtain rfl := hgranted.drawn_eq
        exact ⟨t, owner, duration, c₁, c₂, rfl, by rw [hcall]; exact hgranted⟩
    | _ =>
      obtain ⟨_, -, hreply⟩ := replying_ok.mp hok
      cases hreply
  · simp at h

theorem elsewhere_stale (hopened : db.Opened) (h : k.Stale db)
    (hop : Elsewhere k op) : k.Stale (call S db op).2 := by
  obtain ⟨_, hes⟩ := call_committed S hopened op
  refine invariant (fun e => ∀ c, e = .claim c → c.owner ≠ k.owner) ?_ hes.chain ?_ h
  · intro s e hother hstale _
    refine ⟨hstale.generation, fun r hr howner => ?_⟩
    rcases owner_apply hr howner with ⟨c, rfl, -, hc⟩ | ⟨-, r', hr', howner'⟩
    · exact hother c rfl hc
    · exact hstale.notOwner r' hr' howner'
  · rintro - he c rfl howner
    have hissued : c ∈ Call.issued (entry (call S) db op) := by
      rw [hes.issued]
      exact mem_flatMap.mpr ⟨_, he, by simp [issued]⟩
    obtain ⟨_, _, _, _, _, rfl, -⟩ := issued_granted hissued
    exact hop (by rw [howner])

/-! ## Store errors under a current claim -/

theorem guardExecution_discarded (hclock : InTime clock) :
    Errs Discarded (guardExecution execution db t clock) := by
  obtain ⟨hnonneg, _⟩ := hclock
  have hnow : now clock = .ok clock.toNat := now_ok.mpr ⟨hnonneg, by omega, rfl⟩
  cases execution with
  | none => exact .ok ()
  | some =>
    refine .bind toSqlInteger_discarded fun _ _ => .bind ?_ fun _ _ =>
      .bind toSqlInteger_discarded fun _ _ => .reject fun _ => .inl rfl
    rw [hnow]
    exact .ok _

/-- The next event of an open history is refused only by the limits. -/
theorem insertEvent_discarded (hopen : db.IsOpen t) (ev : NewEvent J) (payload : String)
    (time : ℕ) :
    Errs Discarded (insertEvent db t (some (db.nextSequence t)) ev payload time) := by
  refine .bind (.reject fun hclosed => ?_) fun _ _ => .bind (.reject fun _ => .inr rfl)
    fun _ _ => .bind (.reject fun _ => .inr rfl) fun _ _ => .bind (.reject fun hne => ?_)
    fun _ _ => .ok _
  · rw [show db.completions.get? t = none from hopen] at hclosed
    cases hclosed
  · exact absurd rfl hne

theorem appendValidated_discarded (hopen : db.IsOpen t) (hclock₁ : InTime t₁) (hclock₂ : InTime t₂)
    {ev : NewEvent J} {payload : String} {time : ℕ} {wakeAtMs : Option ℕ} :
    Errs Discarded (appendValidated execution db t (some (db.nextSequence t)) ev payload
      time wakeAtMs t₁ t₂) :=
  .bind (guardExecution_discarded hclock₁) fun _ _ =>
    .bind (insertEvent_discarded hopen ev payload time) fun _ _ =>
      .bind (guardExecution_discarded hclock₂) fun _ _ => .ok _

/-! ## Wakeups of a current claim -/

structure Leased (k : ExecutionClaim) (db : Db) (wakeup : WakeupClaim) : Prop where
  task : wakeup.taskId = k.taskId
  owner : wakeup.leaseOwner = k.owner
  lease : wakeup.leaseUntilMs = k.leaseUntilMs
  row : ∃ w, db.wakeups.get? k.taskId = some w ∧ wakeup.matches w = true

theorem Current.before (h : Current k db) (hpass : k.Passes db t clock) :
    clock.toNat < k.leaseUntilMs := by
  obtain ⟨-, -, -, rfl, r, hr, hholds⟩ := passes_iff.mp hpass
  obtain ⟨-, -, -, until_, huntil, hlt⟩ := holds_iff.mp hholds
  obtain ⟨r', hr', -, -, -, hlease⟩ := h.row
  obtain rfl := mem_unique hr hr'
  obtain rfl := mem_unique huntil hlease
  exact hlt

def ValidOwner (k : ExecutionClaim) : Prop := validateLeaseOwner k.owner = .ok ()

instance : Decidable (ValidOwner k) :=
  decidable_of_iff (¬ (k.owner = "" ∨ maxLeaseOwnerBytes < k.owner.utf8ByteSize))
    reject_ok.symm

variable {wakeup : WakeupClaim}

theorem completeWakeup_completes (h : Current k db) (hleased : Leased k db wakeup)
    (hle : ms ≤ t₁.toNat) {done : Bool}
    (hdone : completeWakeup (some k) db k.taskId wakeup.sequence (some wakeup.leaseOwner)
      ms t₁ t₂ = .ok (done, db')) : done = true := by
  obtain ⟨hguard, -⟩ := completeWakeup_commits hdone
  have hbefore := h.before (hguard k rfl)
  obtain ⟨w, hw, hmatch⟩ := hleased.row
  obtain ⟨hseq, -, hleaseOwner, hleaseUntil⟩ := WakeupClaim.matches_iff.mp hmatch
  simp only [completeWakeup, bind_ok, toSqlInteger_ok, pure_ok, Prod.mk.injEq] at hdone
  obtain ⟨_, -, _, ⟨-, rfl⟩, _, ⟨-, rfl⟩, _, -, _, -, hchanged, -⟩ := hdone
  rw [← hchanged, hw, any_some]
  have hlt : ms < wakeup.leaseUntilMs := hleased.lease ▸ by omega
  simp [WakeupRow.completable, hseq, hleaseOwner, hleaseUntil, hlt]

/-- A task that is not asleep. A wait that its claim was not granted for may have been left
behind, and a signal may wake it. -/
def Awake (db : Db) (t : TaskId) : Prop :=
  db.signalWaits.get? t = none → db.wakeups.get? t = none

/-- The wakeup claim that a poll presents: none for a task that is not asleep, or the one leased
for the wait of the task. -/
def Presents (k : ExecutionClaim) (db : Db) : Option WakeupClaim → Prop
  | none => Awake db k.taskId
  | some wakeup => Leased k db wakeup ∧
      ∃ name, db.signalWaits.get? k.taskId = some ⟨wakeup.sequence, name⟩

theorem toSql_discarded (wakeup : WakeupClaim) : Errs Discarded wakeup.toSql :=
  .bind toSqlInteger_discarded fun _ _ => .bind toSqlInteger_discarded fun _ _ =>
    .bind toSqlInteger_discarded fun _ _ => .ok _

/-- A poll at the sequence of its wait is entitled to the signal. -/
theorem takeSignalWakeup_discarded (hpresents : Presents k db presented) {expected : ℕ}
    {name : String} (hwait : ∀ q, db.signalWaits.get? k.taskId = some q → q = ⟨expected, name⟩)
    (hleft : presented = none → db.signalWaits.get? k.taskId ≠ some ⟨expected, name⟩)
    (hlt : ms < k.leaseUntilMs) :
    Errs Discarded (takeSignalWakeup db k.taskId expected ms presented) := by
  cases presented with
  | none =>
    have hn : db.signalWaits.get? k.taskId = none :=
      eq_none_iff_forall_ne_some.mpr fun q hq => hleft rfl (hwait q hq ▸ hq)
    refine .bind (.reject fun hsome => ?_) fun _ _ => .bind (.reject fun hsome => ?_)
      fun _ _ => .ok _
    · simp [hn] at hsome
    · simp [hpresents hn] at hsome
  | some wakeup =>
    obtain ⟨hleased, _, hq⟩ := hpresents
    obtain ⟨w, hw, hmatch⟩ := hleased.row
    have hseq : wakeup.sequence = expected := congrArg WaitRow.sequence (hwait _ hq)
    have hlease : ms < wakeup.leaseUntilMs := hleased.lease ▸ hlt
    refine .bind (.reject fun hbad => ?_) fun _ _ => .bind (toSql_discarded wakeup) fun _ _ =>
      .bind (.reject fun hbad => ?_) fun _ _ => .ok _
    · simp [hq, hleased.task, hseq] at hbad
    · simp [hw, hmatch, hlease] at hbad

theorem pollSignal_discarded (h : Current k db) (hpresents : Presents k db presented)
    {name : String} (hleft : presented = none → (db.oldestSignal k.taskId name).isSome →
      db.signalWaits.get? k.taskId ≠ some ⟨db.nextSequence k.taskId, name⟩)
    (hclock₁ : InTime t₁) (hclock₂ : InTime t₂) (hle : ms ≤ t₁.toNat) :
    Errs Discarded (pollSignal S (some k) db k.taskId (db.nextSequence k.taskId) name
      ms presented t₁ t₂) := by
  refine .bind (.reject fun _ => .inr rfl) fun _ _ => .bind toSqlInteger_discarded
    fun now hnow => .bind (guardExecution_discarded hclock₁) fun _ hguard =>
      .bind (.reject fun hclosed => ?_) fun _ _ => .bind (.reject fun hne => absurd rfl hne)
        fun _ _ => .bind (.reject fun _ => .inr rfl) fun _ hconflict => ?_
  · rw [show db.completions.get? k.taskId = none from h.isOpen] at hclosed
    cases hclosed
  obtain ⟨-, rfl⟩ := toSqlInteger_ok.mp hnow
  have hbefore := h.before (guardExecution_ok.mp hguard k rfl)
  have hwait : ∀ q, db.signalWaits.get? k.taskId = some q →
      q = ⟨db.nextSequence k.taskId, name⟩ := by
    rintro ⟨_, _⟩ hq
    simpa [hq] using hconflict
  cases hsignal : db.oldestSignal k.taskId name with
  | none =>
    refine .bind ?_ fun _ _ => .bind (guardExecution_discarded hclock₂) fun _ _ => .ok _
    unfold registerSignalWait
    cases db.signalWaits.get? k.taskId with
    | some => exact .bind (.reject fun _ => .inr rfl) fun _ _ => .ok _
    | none => exact .bind toSqlInteger_discarded fun _ _ => .ok _
  | some =>
    have hleft := fun hn => hleft hn (by simp [hsignal])
    refine .bind (takeSignalWakeup_discarded hpresents hwait hleft (by omega)) fun taken htaken =>
      .bind ?_ fun _ _ => .bind (guardExecution_discarded hclock₂) fun _ _ => .ok _
    obtain ⟨-, htaken, -⟩ := takeSignalWakeup_commits hwait htaken
    have hopen : taken.IsOpen k.taskId := by
      rw [htaken]
      split <;> exact h.isOpen
    have hseq : taken.nextSequence k.taskId = db.nextSequence k.taskId := by
      rw [htaken]
      split <;> rfl
    rw [← hseq]
    refine .bind ?_ fun _ _ => .bind (insertEvent_discarded hopen _ _ _) fun _ _ => .ok _
    unfold parseJson
    split
    · exact .ok _
    · exact .error (.inr rfl)

/-! ## Sessions that agree with the store -/

/-- The session was resumed for the sleep at the end of its history. It has not replayed that
sleep yet, or is about to complete it. -/
structure Ahead (σ : DurableSession J) (sequence : ℕ) : Prop where
  last : ∃ ev, σ.replay.events.getLast? = some ev ∧ ev.kind = .sleep ∧ ev.sequence = sequence
  position : σ.replay.position < σ.replay.events.length ∨ σ.replayedSleep = some sequence

/-- The wakeup token of a session that is not suspended. -/
inductive Resumes (k : ExecutionClaim) (σ : DurableSession J) (db : Db) : Prop
  | idle (htok : σ.activeWakeup = none) (hawake : Awake db k.taskId)
  | sleep (wakeup : WakeupClaim)
      (htok : σ.activeWakeup = some ⟨wakeup.sequence, .sleep, some wakeup⟩)
      (hleased : Leased k db wakeup) (hahead : Ahead σ wakeup.sequence)
  | signal (wakeup : WakeupClaim) (name : String)
      (htok : σ.activeWakeup = some ⟨wakeup.sequence, .signal, some wakeup⟩)
      (hleased : Leased k db wakeup)
      (hwait : db.signalWaits.get? k.taskId = some ⟨wakeup.sequence, name⟩)

/-- A session under its current claim. Once it keeps an error or is suspended it makes no more
store calls, and nothing else matters. -/
structure Attuned (k : ExecutionClaim) (σ : DurableSession J) (db : Db) : Prop where
  current : Current k db
  sequence : σ.storageError = none → σ.suspended = false → σ.nextSequence = db.nextSequence k.taskId
  resumes : σ.storageError = none → σ.suspended = false → Resumes k σ db

/-- The session and the store after a host call. -/
structure Stays (k : ExecutionClaim) (x : DurableSession J × Db) : Prop where
  errors : ∀ e, x.1.storageError = some e → Discarded e
  attuned : Attuned k x.1 x.2

variable {σ : DurableSession J}

theorem Leased.congr (h : Leased k db wakeup)
    (hwake : db'.wakeups.get? k.taskId = db.wakeups.get? k.taskId) :
    Leased k db' wakeup := by
  refine ⟨h.task, h.owner, h.lease, ?_⟩
  rw [hwake]
  exact h.row

theorem Resumes.congr (h : Resumes k σ db) (htok : s'.activeWakeup = σ.activeWakeup)
    (hahead : ∀ q, Ahead σ q → Ahead s' q)
    (hwake : db'.wakeups.get? k.taskId = db.wakeups.get? k.taskId)
    (hwait : db'.signalWaits.get? k.taskId = db.signalWaits.get? k.taskId) :
    Resumes k s' db' := by
  cases h with
  | idle hn hawake => exact .idle (htok.trans hn) fun h => hwake.trans (hawake (hwait ▸ h))
  | sleep wakeup hsome hleased hq =>
    exact .sleep wakeup (htok.trans hsome) (hleased.congr hwake) (hahead _ hq)
  | signal wakeup name hsome hleased hwaits =>
    exact .signal wakeup name (htok.trans hsome) (hleased.congr hwake) (hwait.trans hwaits)

theorem Leased.kept (h : Leased k db wakeup) (hkept : Kept db db' k.taskId) :
    Leased k db' wakeup := by
  obtain ⟨_, hw, -⟩ := h.row
  exact h.congr (hkept.wakeup fun _ => by simp [hw])

theorem Awake.kept (h : Awake db t) (hkept : Kept db db' t) : Awake db' t := by
  intro hwait
  rw [hkept.wait] at hwait
  exact (hkept.wakeup (by simp [hwait])).trans (h hwait)

theorem Resumes.kept (h : Resumes k σ db) (hkept : Kept db db' k.taskId) : Resumes k σ db' := by
  cases h with
  | idle htok hawake => exact .idle htok (hawake.kept hkept)
  | sleep wakeup htok hleased hahead => exact .sleep wakeup htok (hleased.kept hkept) hahead
  | signal wakeup name htok hleased hwait =>
    exact .signal wakeup name htok (hleased.kept hkept) (hkept.wait.trans hwait)

theorem Attuned.kept (h : Attuned k σ db) (hkept : Kept db db' k.taskId) : Attuned k σ db' where
  current := h.current.congr hkept.execution hkept.completion
  sequence herror haw := by
    rw [nextSequence_congr hkept.events]
    exact h.sequence herror haw
  resumes herror haw := (h.resumes herror haw).kept hkept

theorem Stays.of_attuned (h : Attuned k σ db) (hn : σ.storageError = none) : Stays k (σ, db) :=
  ⟨fun e he => absurd (he.symm.trans hn) (by simp), h⟩

theorem checked_of_clean (hcl : σ.storageError = none)
    (method : Except SessionError α × DurableSession J × Db) :
    σ.checked db method = method := by
  simp only [checked, hcl]

theorem Stays.stored (h : Current k db) (hn : σ.storageError = none)
    {result : Except DurableError (α × Db)}
    {next : α → Except SessionError β × DurableSession J} (herrs : Errs Discarded result)
    (hok : ∀ value db', result = .ok (value, db') → Stays k ((next value).2, db')) :
    Stays k (σ.stored db result next).2 := by
  unfold DurableSession.stored
  cases result with
  | error error =>
    refine ⟨fun e he => ?_, h, fun hcl => ?_, fun hcl => ?_⟩
    · obtain rfl : error = e := by
        simpa [captureStorage, hn] using he
      exact herrs error rfl
    · simp [captureStorage] at hcl
    · simp [captureStorage] at hcl
  | ok p => exact hok p.1 p.2 rfl

/-! ## Replaying -/

theorem Attuned.replayed (h : Attuned k σ db)
    (hseq : s'.nextSequence = σ.nextSequence)
    (htok : s'.activeWakeup = σ.activeWakeup)
    (herror : s'.storageError = σ.storageError)
    (hsuspended : s'.suspended = σ.suspended)
    (hahead : ∀ q, Ahead σ q → Ahead s' q) : Attuned k s' db where
  current := h.current
  sequence hcl haw := by
    rw [hseq]
    exact h.sequence (herror ▸ hcl) (hsuspended ▸ haw)
  resumes hcl haw := (h.resumes (herror ▸ hcl) (hsuspended ▸ haw)).congr htok hahead rfl rfl

theorem Ahead.consumed (h : Ahead σ q) (hn : σ.replayedSleep = none)
    {kind : EventKind} {key : String} {ev : Option (TaskEvent J)} {replay : ReplayCursor J}
    (hconsume : σ.replay.consumeEvent kind key = .ok (ev, replay)) :
    replay.events = σ.replay.events ∧ (replay.position < replay.events.length ∨
        kind = .sleep ∧ ev.map TaskEvent.sequence = some q) := by
  obtain ⟨last, hlast, hsleep, rfl⟩ := h.last
  have hlt : σ.replay.position < σ.replay.events.length := h.position.resolve_right (by simp [hn])
  simp only [consumeEvent, getElem?_eq_getElem hlt] at hconsume
  split at hconsume
  · cases hconsume
  rename_i hmatch
  obtain ⟨rfl, rfl⟩ := hconsume
  refine ⟨rfl, ?_⟩
  by_cases hnext : σ.replay.position + 1 < σ.replay.events.length
  · exact .inl hnext
  right
  have hend : σ.replay.events[σ.replay.position] = last := by
    rw [getLast?_eq_getElem?] at hlast
    have hindex : σ.replay.events.length - 1 = σ.replay.position := by omega
    rw [hindex, getElem?_eq_getElem hlt] at hlast
    exact some.inj hlast
  rw [hend] at hmatch ⊢
  simp only [not_or, not_not] at hmatch
  exact ⟨hmatch.1.symm.trans hsleep, rfl⟩

theorem Ahead.skipped (h : Ahead σ q) (hn : σ.replayedSleep = none) (key : String) :
    (σ.replay.consumeThrough .retry key).2.events = σ.replay.events ∧
      (σ.replay.consumeThrough .retry key).2.position < σ.replay.events.length := by
  obtain ⟨_, hlast, hsleep, -⟩ := h.last
  have hlt : σ.replay.position < σ.replay.events.length := h.position.resolve_right (by simp [hn])
  unfold consumeThrough
  split
  · exact ⟨rfl, hlt⟩
  rename_i offset hfind
  refine ⟨rfl, ?_⟩
  obtain ⟨hoffset, hfound, -⟩ := findIdx?_eq_some_iff_getElem.mp hfind
  rw [length_drop] at hoffset
  simp only [getElem_drop, decide_eq_true_eq] at hfound
  by_contra hpast
  have hindex : σ.replay.events.length - 1 = σ.replay.position + offset := by
    simp only [not_lt] at hpast
    omega
  rw [getLast?_eq_getElem?, hindex, getElem?_eq_getElem (by omega)] at hlast
  rw [some.inj hlast, hsleep] at hfound
  exact absurd hfound.1 (by simp)

section

variable (h : Attuned k σ db) (hcl : σ.storageError = none)
  (hn : σ.replayedSleep = none)

include h hcl hn

theorem lookup_stays (kind : EventKind) (key : String) : Stays k (σ.lookupJson db kind key).2 := by
  rw [lookupJson, checked_of_clean hcl]
  cases hconsume : σ.replay.consumeEvent kind key with
  | error => exact .of_attuned h hcl
  | ok =>
    refine .of_attuned (h.replayed rfl rfl rfl rfl fun q hq => ?_) hcl
    obtain ⟨hevents, hposition⟩ := hq.consumed hn hconsume
    refine ⟨by dsimp only; rw [hevents]; exact hq.last, hposition.imp_right ?_⟩
    rintro ⟨rfl, hseq⟩
    simpa using hseq

theorem findRetryOutcome_stays (key : String) : Stays k (σ.findRetryOutcomeJson db key).2 := by
  rw [findRetryOutcomeJson, checked_of_clean hcl]
  refine .of_attuned (h.replayed rfl rfl rfl rfl fun q hq => ?_) hcl
  obtain ⟨hevents, hposition⟩ := hq.skipped hn key
  refine ⟨?_, .inl ?_⟩
  · dsimp only
    rw [hevents]
    exact hq.last
  · dsimp only
    rw [hevents]
    exact hposition

end

/-! ## Live calls -/

theorem Ahead.not_end (h : Ahead σ q) (hn : σ.replayedSleep = none) :
    ¬ σ.replay.ensureConsumed.toOption.isSome := by
  have hlt := h.position.resolve_right (by simp [hn])
  simp [ensureConsumed, getElem?_eq_getElem hlt, Except.toOption]

theorem signalClaim_of_token {sequence : ℕ}
    (htok : σ.activeWakeup = some ⟨sequence, .signal, some wakeup⟩) :
    σ.signalClaim = some wakeup := by
  simp [signalClaim, htok, Option.filter]

theorem Resumes.presents (h : Resumes k σ db) (hn : σ.replayedSleep = none)
    (hend : σ.replay.ensureConsumed.toOption.isSome) :
    Presents k db σ.signalClaim := by
  cases h with
  | idle htok hawake =>
    have hclaim : σ.signalClaim = none := by simp [signalClaim, htok]
    rw [hclaim]
    exact hawake
  | sleep _ _ _ hahead => exact absurd hend (hahead.not_end hn)
  | signal _ name htok hleased hwait =>
    rw [signalClaim_of_token htok]
    exact ⟨hleased, name, hwait⟩

theorem Current.append (h : Current k db) (row : EventRow) (wakeAtMs : Option ℕ) :
    Current k (apply db (.append row wakeAtMs)) :=
  h.congr (by rw [apply_executions]) (by rw [apply_completions])

theorem nextSequence_insert (hist : db.HistoryOk t) {e : Effect} (hen : e.Enabled S db)
    {row : EventRow} (hevents : (e.apply db).events = db.events ++ [row])
    (hta : row.taskId = t) : (e.apply db).nextSequence t = db.nextSequence t + 1 := by
  rw [(hist.apply hen).nextSequence, hist.nextSequence, eventsOf_append db _ row t hevents,
    if_pos hta, length_append, length_singleton]

theorem finishSleep_stays (h : Current k db) (hsc : σ.Scoped k) (hcl : σ.storageError = none)
    (hseq : σ.nextSequence = db.nextSequence k.taskId) (howner : ValidOwner k)
    (htok : σ.activeWakeup = some ⟨wakeup.sequence, .sleep, some wakeup⟩)
    (hleased : Leased k db wakeup)
    (hclock : 0 ≤ clock ∧ clock ≤ t₁) (hclock₁ : InTime t₁) (hclock₂ : InTime t₂) :
    Stays k (σ.finishSleep db clock t₁ t₂).2 := by
  have hnow : unixTimeMs clock = .ok clock.toNat := by
    unfold unixTimeMs
    rw [if_pos ⟨hclock.1, by have := hclock₁.2; omega⟩]
  simp only [finishSleep, htok, ne_eq, not_true, if_false, hnow, hsc.store, hsc.task, map_some]
  refine .stored h hcl ?_ fun done db' hok => ?_
  · refine .bind (guardExecution_discarded hclock₁) fun _ _ =>
      .bind toSqlInteger_discarded fun _ _ => .bind toSqlInteger_discarded fun _ _ =>
        .bind ?_ fun _ _ => .bind (guardExecution_discarded hclock₂) fun _ _ => .ok _
    rw [hleased.owner, validateWakeupOwner, howner]
    exact .ok ()
  · obtain rfl := completeWakeup_completes h hleased (by omega) hok
    obtain ⟨-, ⟨hfalse, -⟩ | ⟨-, rfl, -⟩⟩ := completeWakeup_commits hok
    · cases hfalse
    · refine .of_attuned ⟨h.congr rfl rfl, fun _ _ => hseq, fun _ _ => .idle rfl fun _ => ?_⟩ hcl
      exact Table.get?_erase_self _ _

section Live

variable {t₁ t₂ : ℤ} {key payload : String} (h : Attuned k σ db)
  (hsc : σ.Scoped k) (hcl : σ.storageError = none)
  (haw : σ.suspended = false) (hclock₁ : InTime t₁) (hclock₂ : InTime t₂)

include h hsc hcl haw hclock₁ hclock₂

theorem append_stays (hist : db.HistoryOk k.taskId) {kind : EventKind} {time : ℕ}
    (reply : TaskEvent J → Except SessionError α) :
    Stays k (σ.stored db (appendEventJsonAt S σ.store db σ.taskId
      σ.nextSequence kind key payload time t₁ t₂) fun stored =>
        (reply stored, { σ with nextSequence := stored.sequence + 1 })).2 := by
  have hseq := h.sequence hcl haw
  refine .stored h.current hcl ?_ fun ev db' hok => .of_attuned ?_ hcl
  · rw [hsc.task, hseq]
    exact .bind rawEvent_discarded fun _ _ => .bind toSqlInteger_discarded fun _ _ =>
      appendValidated_discarded h.current.isOpen hclock₁ hclock₂
  obtain ⟨happ, -⟩ := appendEventJsonAt_commits hok
  have hta : ev.row.taskId = k.taskId := by
    rw [happ.row]
    exact hsc.task
  have hnumber : σ.nextSequence = ev.sequence := happ.expects _ rfl
  have hen : Effect.Enabled S db (.append ev.row none) := happ.appendable
  rw [happ.commits]
  refine ⟨h.current.append _ _, fun _ _ => ?_, fun _ _ => ?_⟩
  · rw [nextSequence_insert hist hen (apply_events db _) hta, ← hseq, hnumber]
  · refine (h.resumes hcl haw).congr rfl (fun q hq => ⟨hq.last, hq.position⟩) ?_ ?_
    · rw [apply_wakeups]
    · rw [apply_signalWaits]

theorem recordSleep_stays {time wakeAtMs : ℕ} :
    Stays k (σ.recordSleep S db key payload time wakeAtMs t₁ t₂).2 := by
  rw [recordSleep, checked_of_clean hcl]
  refine .stored h.current hcl ?_ fun ev db' hok => .of_attuned ?_ hcl
  · rw [hsc.task, h.sequence hcl haw]
    exact .bind rawEvent_discarded fun _ _ => .bind toSqlInteger_discarded fun _ _ =>
      .bind toSqlInteger_discarded fun _ _ =>
        appendValidated_discarded h.current.isOpen hclock₁ hclock₂
  · obtain ⟨happ, -⟩ := appendEventJsonWithWakeupAt_commits hok
    rw [happ.commits]
    refine ⟨h.current.append _ _, fun _ haw => ?_, fun _ haw => ?_⟩ <;> cases haw

theorem recordInput_stays (hist : db.HistoryOk k.taskId) (hn : σ.replayedSleep = none)
    {inputJson : String} :
    Stays k (σ.recordInputJson S db inputJson clock t₁ t₂).2 := by
  rw [recordInputJson, checked_of_clean hcl]
  cases hconsume : σ.replay.consumeEvent .step taskInputKey with
  | error => exact .of_attuned h hcl
  | ok p =>
    obtain ⟨ev, replay⟩ := p
    cases ev with
    | some =>
      refine .of_attuned (h.replayed rfl rfl rfl rfl fun q hq => ?_) hcl
      obtain ⟨hevents, hposition⟩ := hq.consumed hn hconsume
      refine ⟨by dsimp only; rw [hevents]; exact hq.last, .inl ?_⟩
      exact hposition.resolve_right (by simp)
    | none =>
      cases unixTimeMs clock with
      | error => exact .of_attuned h hcl
      | ok => exact append_stays h hsc hcl haw hclock₁ hclock₂ hist _

theorem completeSleep_stays (howner : ValidOwner k) (hsome : σ.replayedSleep.isSome)
    (hclock : 0 ≤ clock ∧ clock ≤ t₁) :
    Stays k (σ.completeSleep db clock t₁ t₂).2 := by
  obtain ⟨sequence, hseq⟩ := isSome_iff_exists.mp hsome
  rw [completeSleep, checked_of_clean hcl]
  have htaken : Resumes k { σ with replayedSleep := none } db →
      Stays k ({ σ with replayedSleep := none }, db) := fun hresumes =>
    .of_attuned ⟨h.current, h.sequence, fun _ _ => hresumes⟩ hcl
  cases h.resumes hcl haw with
  | idle htok hawake =>
    rw [if_pos (by simp [sleepElapsed, hseq, htok])]
    exact htaken (.idle htok hawake)
  | signal wakeup name htok hleased hwait =>
    rw [if_pos (by simp [sleepElapsed, hseq, htok])]
    exact htaken (.signal wakeup name htok hleased hwait)
  | sleep wakeup htok hleased hahead =>
    by_cases hthis : wakeup.sequence = sequence
    · rw [if_neg (by simp [sleepElapsed, hseq, htok, hthis])]
      have htakenScope : DurableSession.Scoped { σ with replayedSleep := none } k :=
        ⟨hsc.store, hsc.task, hsc.lease⟩
      exact finishSleep_stays h.current htakenScope hcl (h.sequence hcl haw) howner
        htok hleased hclock hclock₁ hclock₂
    · rw [if_pos (by simp [sleepElapsed, hseq, htok, hthis])]
      refine htaken (.sleep wakeup htok hleased ⟨hahead.last, .inl ?_⟩)
      refine hahead.position.resolve_right fun heq => hthis ?_
      exact mem_unique heq hseq

theorem pollSignal_stays (hist : db.HistoryOk k.taskId) (hn : σ.replayedSleep = none)
    (hend : σ.replay.ensureConsumed.toOption.isSome) {name : String}
    (hleft : σ.Entitled db (.pollSignal name clock t₁ t₂)) (hclock : 0 ≤ clock ∧ clock ≤ t₁) :
    Stays k (σ.pollSignalJson S db name clock t₁ t₂).2 := by
  have hseq := h.sequence hcl haw
  have hpresents := (h.resumes hcl haw).presents hn hend
  rw [pollSignalJson, checked_of_clean hcl]
  cases hnow : unixTimeMs clock with
  | error => exact .of_attuned h hcl
  | ok ms =>
    have hle : ms ≤ t₁.toNat := by
      unfold unixTimeMs at hnow
      split at hnow
      · obtain rfl := ok.inj hnow
        omega
      · cases hnow
    refine .stored h.current hcl ?_ fun polled db' hok => ?_
    · simp only [Entitled, hsc.task, hseq] at hleft
      rw [hsc.store, hsc.task, hseq]
      exact pollSignal_discarded h.current hpresents hleft hclock₁ hclock₂ hle
    rcases pollSignal_commits hok with ⟨rfl, hpolled⟩ | ⟨ev, queued, rfl, hpolled⟩
    · have hcurrent : Current k db' := by
        rcases hpolled.commits with ⟨-, rfl⟩ | ⟨-, rfl⟩
        · exact h.current
        · exact h.current.congr rfl rfl
      refine .of_attuned ⟨hcurrent, fun _ haw => ?_, fun _ haw => ?_⟩ hcl <;> cases haw
    have hta : ev.row.taskId = k.taskId := by
      rw [hpolled.row]
      exact hsc.task
    have hnumber : ev.sequence = σ.nextSequence := congrArg EventRow.sequence hpolled.row
    have hidle : Idle db' k.taskId := by
      rw [hpolled.commits, ← hta]
      exact consume_idle hpolled.enabled
    refine .of_attuned ⟨?_, fun _ _ => ?_, fun _ _ => .idle ?_ fun _ => hidle.1⟩ hcl
    · rw [hpolled.commits]
      exact h.current.congr (by rw [apply_executions]) (by rw [apply_completions])
    · rw [hpolled.commits, nextSequence_insert hist hpolled.enabled
        (apply_events db _) hta, ← hseq, ← hnumber]
      rfl
    -- the token of a wait is at the sequence that the poll has consumed
    cases h.resumes hcl haw with
    | idle htok => simp [signalled, htok]
    | sleep _ _ _ hahead => exact absurd hend (hahead.not_end hn)
    | signal wakeup _ htok =>
      have hexpected := (hpolled.entitled wakeup (signalClaim_of_token htok)).1
      simp [signalled, htok, hexpected, hnumber]

end Live

/-! ## Host calls -/

theorem host_stays (h : Stays k (σ, db)) (hsc : σ.Scoped k)
    (hist : db.HistoryOk k.taskId) (howner : ValidOwner k) {hostCall : HostCall}
    (hissues : σ.issues hostCall = true) (htime : hostCall.Orderly)
    (hleft : σ.Entitled db hostCall) : Stays k (σ.host S db hostCall) := by
  obtain ⟨herrors, h⟩ := h
  cases hcl : σ.storageError with
  | some =>
    rw [host_of_error hcl]
    exact ⟨herrors, h⟩
  | none =>
    have hrange := htime.inTime
    simp only [issues, hcl, isSome_none, Bool.false_or,
      Bool.and_eq_true, Bool.not_eq_true'] at hissues
    obtain ⟨haw, hcall⟩ := hissues
    cases hostCall with
    | lookup kind key => exact lookup_stays h hcl (isNone_iff_eq_none.mp hcall) kind key
    | findRetryOutcome key =>
      exact findRetryOutcome_stays h hcl (isNone_iff_eq_none.mp hcall) key
    | recordInput =>
      exact recordInput_stays h hsc hcl haw hrange.1 hrange.2 hist
        (isNone_iff_eq_none.mp hcall)
    | record =>
      simp only [host]
      rw [DurableSession.record, checked_of_clean hcl]
      exact append_stays h hsc hcl haw hrange.1 hrange.2 hist _
    | recordSleep =>
      exact recordSleep_stays h hsc hcl haw hrange.1 hrange.2
    | completeSleep =>
      exact completeSleep_stays h hsc hcl haw hrange.1 hrange.2 howner hcall
        ⟨htime.1, htime.2.1⟩
    | pollSignal =>
      simp only [Bool.and_eq_true, isNone_iff_eq_none] at hcall
      exact pollSignal_stays h hsc hcl haw hrange.1 hrange.2 hist hcall.1 hcall.2 hleft
        ⟨htime.1, htime.2.1⟩

end Tysel.Runtime
