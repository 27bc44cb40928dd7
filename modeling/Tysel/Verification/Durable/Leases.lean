import Tysel.Verification.Durable.Due

/-! What one call can do to the wakeup row of a task: leave it, lease it to a new claimant, or
renew, drop, complete or replace it. The lease of an issued claim therefore keeps others away
until its end, and the owner of a superseded claim does not come back by itself. -/

namespace Tysel.Durable

open List Table Prod Db Call

open WakeupRow hiding sequence

open WakeupClaim (matches_iff)

open Effect (apply_wakeups)

variable {J : Type} {S : Crates J} {db db' : Db} {task : TaskId} {row row' : Option WakeupRow}
  {w : WakeupRow} {name : String} {k' : WakeupClaim} {rest : List (Call J)}

/-! ## Issued claims -/

/-- The wakeup claims that a call has issued. A renewal returns a claim but issues none. -/
def Call.wakeupClaims (c : Call J) : List WakeupClaim :=
  match c.input, c.output with
  | .claimDueWakeups .., .ok (.wakeupClaims claims) => claims
  | .claimWakeup .., .ok (.wakeupClaim (some claim)) => [claim]
  | .claimRun .., .ok (.execution (some claim)) => claim.wakeup.toList
  | _, _ => []

def Op.issueTime : Op J → ℕ
  | .claimDueWakeups ms .. => ms
  | .claimWakeup _ ms .. => ms
  | .claimRun _ _ _ _ t₁ _ => t₁.toNat
  | _ => 0

def Op.schedules? : Op J → Option TaskId
  | .scheduleWakeup w => some w.taskId
  | .appendEventJsonWithWakeupAt _ task .. => some task
  | .appendEventWithWakeup _ task .. => some task
  | _ => none

structure Call.Issues (c : Call J) (task : TaskId) (w : WakeupRow) (claim : WakeupClaim) :
    Prop where
  mem : claim ∈ c.wakeupClaims
  only : ∀ other ∈ c.wakeupClaims, other.taskId = task → other = claim
  task_eq : claim.taskId = task
  row : c.before.wakeups.get? task = some w
  due : w.claimable c.input.issueTime
  later : c.input.issueTime < claim.leaseUntilMs
  sequence : w.sequence = claim.sequence
  wakeAt : w.wakeAtMs = claim.wakeAtMs
  leased : c.after.wakeups.get? task =
    some { w with leaseOwner := some claim.leaseOwner, leaseUntilMs := some claim.leaseUntilMs }

/-- A change of the wakeup row of a task by a call that issues no claim. -/
inductive Call.Changes (c : Call J) (task : TaskId) : Option WakeupRow → Option WakeupRow → Prop
  | renew {w : WakeupRow} {claim new : WakeupClaim} {ms dur until_ : ℕ}
      (hop : c.input = .renewWakeupClaim claim ms dur)
      (hout : c.output = .ok (.wakeupClaim (some new))) (ht : claim.taskId = task)
      (hmatch : claim.matches w = true) :
      Changes c task (some w) (some { w with leaseUntilMs := some until_ })
  | release {w : WakeupRow} {claim : WakeupClaim} (hop : c.input = .releaseWakeupClaim claim)
      (hout : c.output = .ok (.bool true)) (ht : claim.taskId = task)
      (hmatch : claim.matches w = true) :
      Changes c task (some w) (some { w with leaseOwner := none, leaseUntilMs := none })
  | releaseRun {w : WakeupRow} {claim : ExecutionClaim} {failed : Bool} {t₁ t₂ : ℤ}
      (hop : c.input = .releaseRun claim failed t₁ t₂)
      (hout : c.output = .ok (.unit ())) (ht : claim.taskId = task) :
      Changes c task (some w) (some { w with leaseOwner := none, leaseUntilMs := none })
  | complete {w : WakeupRow} {store : Option ExecutionClaim} {sequence : ℕ}
      {owner : Option String} {ms : ℕ} {t₁ t₂ : ℤ}
      (hop : c.input = .completeWakeup store task sequence owner ms t₁ t₂)
      (hout : c.output = .ok (.bool true)) (hr : w.completable sequence owner ms = true) :
      Changes c task (some w) none
  | consume {w : WakeupRow} {store : Option ExecutionClaim} {expected : ℕ} {name : String}
      {ms : ℕ} {claim : WakeupClaim} {t₁ t₂ : ℤ} {ev : TaskEvent J}
      (hop : c.input = .pollSignal store task expected name ms (some claim) t₁ t₂)
      (hout : c.output = .ok (.polled (some ev))) (hmatch : claim.matches w = true) :
      Changes c task (some w) none
  | replace {row : Option WakeupRow} {reply : Reply J} {sequence wakeAtMs : ℕ}
      (hop : c.input.schedules? = some task) (hout : c.output = .ok reply) :
      Changes c task row (some ⟨sequence, wakeAtMs, none, none⟩)
  | signalled {name : String} {payload : J} {time : ℕ} {key : Option String}
      {sequence wakeAtMs : ℕ} (hop : c.input = .sendSignal task name payload time key) :
      Changes c task none (some ⟨sequence, wakeAtMs, none, none⟩)

variable {c : Call J}

theorem Call.Changes.wakeupClaims (h : c.Changes task row row') : c.wakeupClaims = [] := by
  unfold Call.wakeupClaims
  cases h with
  | replace hop =>
    cases hinput : c.input <;> rw [hinput] at hop <;> simp [Op.schedules?] at hop
  | _ => simp_all

/-- What a call does to the wakeup row of a task. -/
inductive Call.Leases (c : Call J) (task : TaskId) : Prop
  | keep (hsame : c.after.wakeups.get? task = c.before.wakeups.get? task)
      (hnone : ∀ claim ∈ c.wakeupClaims, claim.taskId ≠ task)
  | issue (w : WakeupRow) (claim : WakeupClaim) (hissues : c.Issues task w claim)
  | change (hchange : c.Changes task (c.before.wakeups.get? task) (c.after.wakeups.get? task))

/-! ## The claiming operations -/

variable {ms dur : ℕ}

theorem leaseDeadline_ok {until_ : ℕ} : leaseDeadline ms dur = .ok until_ → ms < until_ := by
  unfold leaseDeadline
  intro h
  split at h
  · obtain ⟨-, rfl⟩ := checkedAdd_eq_some.mp ‹_›
    have := Except.ok.inj h
    omega
  · cases h

variable {owner : String}

theorem claimDueWakeups_leases {limit : ℕ} {claims : List WakeupClaim}
    (h : claimDueWakeups db ms limit owner dur = .ok (claims, db')) (task : TaskId) :
    Leases (⟨db, .claimDueWakeups ms limit owner dur, .ok (.wakeupClaims claims),
      db'⟩ : Call J) task := by
  simp only [claimDueWakeups, bind_ok] at h
  obtain ⟨-, -, h⟩ := h
  split at h
  · obtain ⟨rfl, rfl⟩ := pair_ok h
    exact .keep rfl (by simp [wakeupClaims])
  simp only [bind_ok, toSqlInteger_ok, pure_ok] at h
  obtain ⟨now, ⟨-, rfl⟩, until_, hdeadline, _, ⟨-, rfl⟩, h⟩ := h
  obtain ⟨rfl, rfl⟩ := mk.inj (h.symm.trans (claimCandidates_eq owner until_
    (db.dueWakeups_rows ms limit) (db.dueWakeups_nodup ms limit)))
  have hleased := fun task => get?_foldl_modify (k := task) (f := fun w : WakeupRow =>
    { w with leaseOwner := some owner, leaseUntilMs := some until_ }) (fun _ => rfl)
    ((db.dueWakeups ms limit).map fst) db.wakeups
  by_cases hmem : task ∈ (db.dueWakeups ms limit).map fst
  · obtain ⟨⟨x, row⟩, hp, rfl⟩ := mem_map.mp hmem
    obtain ⟨hr, hdue⟩ := db.dueWakeups_rows ms limit _ hp
    refine .issue row (row.claimBy x owner until_)
      ⟨mem_map.mpr ⟨_, hp, rfl⟩, ?_, rfl, hr, hdue, leaseDeadline_ok hdeadline, rfl, rfl, ?_⟩
    · simp only [wakeupClaims, mem_map]
      rintro _ ⟨⟨t', row'⟩, hp', rfl⟩ ht
      obtain rfl : t' = x := ht
      have hrow' := (db.dueWakeups_rows ms limit _ hp').1
      rw [Option.mem_unique hrow' hr]
    · refine (hleased x).trans ?_
      rw [if_pos hmem, hr]
      rfl
  · refine .keep ((hleased task).trans (if_neg hmem)) fun claim hclaim ht => hmem ?_
    simp only [wakeupClaims, mem_map] at hclaim
    obtain ⟨p, hp, rfl⟩ := hclaim
    exact mem_map.mpr ⟨p, hp, ht⟩

variable {x : TaskId} {t₁ t₂ : ℤ}

theorem lease_row {owner : Option String} {until_ : Option ℕ} (h : db.wakeups.get? x = some w) :
    (Effect.apply db (.lease x owner until_)).wakeups.get? x =
      some { w with leaseOwner := owner, leaseUntilMs := until_ } := by
  exact (get?_modify_self ..).trans (by rw [h]; rfl)

theorem claimWakeup_leases {r : Option WakeupClaim}
    (h : claimWakeup db x ms owner dur = .ok (r, db')) (task : TaskId) :
    Leases (⟨db, .claimWakeup x ms owner dur, .ok (.wakeupClaim r), db'⟩ : Call J)
      task := by
  rcases claimWakeup_commits h with ⟨rfl, rfl⟩ | ⟨w, until_, hw, hdue, hdeadline, rfl, rfl⟩
  · exact .keep rfl (by simp [wakeupClaims])
  by_cases ht : task = x
  · subst ht
    exact .issue w (w.claimBy task owner until_)
      ⟨mem_singleton_self _, fun _ hmem _ => mem_singleton.mp hmem, rfl, hw, hdue,
        leaseDeadline_ok hdeadline, rfl, rfl, lease_row hw⟩
  · refine .keep (wakeups_frame db ht) fun claim hclaim => ?_
    obtain rfl := mem_singleton.mp hclaim
    exact Ne.symm ht

theorem claimRun_leases (S : Crates J) {drawn : Option String} {r : Option ExecutionClaim}
    (h : claimRun db x owner dur drawn t₁ t₂ = .ok (r, db')) (task : TaskId) :
    Leases (⟨db, .claimRun x owner dur drawn t₁ t₂, .ok (.execution r), db'⟩ : Call J) task := by
  rcases claimRun_commits (S := S) h with ⟨rfl, rfl⟩ | ⟨claim, rfl, hgranted⟩
  · exact .keep rfl (by simp [wakeupClaims])
  obtain ⟨time, again, hg⟩ := claimRun_grantedAt h
  obtain rfl := hgranted.task_eq
  obtain ⟨-, -, -, -, hwakeup⟩ := hgranted.enabled
  have hr : db'.wakeups.get? task = if task = claim.taskId then
      (db.wakeups.get? claim.taskId).map fun w =>
        { w with leaseOwner := some claim.owner, leaseUntilMs := some claim.leaseUntilMs }
      else db.wakeups.get? task := by
    rw [hgranted.commits, apply_wakeups]
    exact get?_modify _ _ _ _
  by_cases ht : task = claim.taskId
  · subst ht
    rw [if_pos rfl] at hr
    cases hw : db.wakeups.get? claim.taskId with
    | none =>
      rw [hw] at hwakeup hr
      exact .keep (hr.trans hw.symm) (by simp [wakeupClaims, hwakeup])
    | some w =>
      rw [hw] at hwakeup hr
      obtain ⟨-, -, hnow⟩ := now_ok.mp hg.first
      have htime : time < 2 ^ 63 := by
        have := hg.range
        omega
      have hfree : w.blocks time = false := by
        have hblocked := hg.claimable.free
        simp only [claimBlocked, hw, Bool.or_eq_false_iff] at hblocked
        exact hblocked.2
      have hclaims : wakeupClaims (⟨db, .claimRun claim.taskId owner dur drawn t₁
          t₂, .ok (.execution (some claim)), db'⟩ : Call J) =
            [⟨claim.taskId, w.sequence, w.wakeAtMs, claim.owner, claim.leaseUntilMs⟩] := by
        simp [wakeupClaims, hwakeup]
      refine .issue w
        ⟨claim.taskId, w.sequence, w.wakeAtMs, claim.owner, claim.leaseUntilMs⟩
        ⟨by simp [hclaims], by simp [hclaims], rfl, hw, ?_, ?_, rfl, rfl, hr⟩
      · rw [Op.issueTime, hnow]
        exact (blocks_eq_false htime).mp hfree
      · have := hg.deadline
        have := hg.positive
        simp only [Op.issueTime, hnow]
        omega
  · rw [if_neg ht] at hr
    refine .keep hr fun c hc => ?_
    simp only [wakeupClaims, hwakeup, Option.mem_toList, Option.map_eq_some_iff] at hc
    obtain ⟨w, -, rfl⟩ := hc
    exact Ne.symm ht

/-! ## The other operations -/

theorem Call.Leases.of_wakeups (hsame : c.after.wakeups = c.before.wakeups)
    (hnone : c.wakeupClaims = []) (task : TaskId) : c.Leases task :=
  .keep (by rw [hsame]) (by simp [hnone])

theorem Call.Leases.of_change (e : Effect) (hdb : c.after = e.apply c.before)
    (hbefore : c.before.wakeups.get? e.task = row)
    (hafter : (e.apply c.before).wakeups.get? e.task = row') (h : c.Changes e.task row row')
    (task : TaskId) : c.Leases task := by
  rw [← hdb] at hafter
  subst hbefore hafter
  by_cases heq : task = e.task
  · subst heq
    exact .change h
  · refine .keep ?_ (by simp [h.wakeupClaims])
    rw [hdb]
    exact wakeups_frame c.before heq

variable {claim : WakeupClaim} {ops : List (Op J)} {op : Op J}

theorem Appended.leases {execution : Option ExecutionClaim} {expected : Option ℕ} {kind : EventKind}
    {key payload : String} {time wakeAtMs : ℕ} {clock : ℤ} {ev : TaskEvent J}
    (hop : op.schedules? = some x)
    (h : Appended execution db db' x expected kind key payload time (some wakeAtMs) clock ev)
    (task : TaskId) : Leases (⟨db, op, .ok (.event ev), db'⟩ : Call J) task := by
  obtain rfl : ev.row.taskId = x := by rw [h.row]
  exact .of_change (.append ev.row (some wakeAtMs)) h.commits rfl (get?_insert_self ..)
    (.replace hop rfl) task

theorem releaseRun_leases (S : Crates J) {claim : ExecutionClaim} {failed : Bool} {u : Unit}
    (h : releaseRun db claim failed t₁ t₂ = .ok (u, db')) (task : TaskId) :
    Leases (⟨db, .releaseRun claim failed t₁ t₂, .ok (.unit u), db'⟩ : Call J)
      task := by
  obtain ⟨-, -, rfl⟩ := releaseRun_commits (S := S) h
  have hr : (Effect.apply db (.release claim failed)).wakeups.get? claim.taskId =
      (db.wakeups.get? claim.taskId).map fun w =>
        { w with leaseOwner := none, leaseUntilMs := none } := get?_modify_self _ _ _
  cases hw : db.wakeups.get? claim.taskId with
  | none =>
    refine .keep ?_ (by simp [wakeupClaims])
    by_cases heq : task = claim.taskId
    · subst heq
      exact hr.trans (by rw [hw]; rfl)
    · exact wakeups_frame db heq
  | some =>
    rw [hw] at hr
    exact .of_change (.release claim failed) rfl hw hr (.releaseRun rfl rfl rfl) task

theorem sendSignal_leases {payload : J} {time : ℕ} {key : Option String} {id : ℕ}
    (h : sendSignalInner S db x name payload time key = .ok (id, db')) (task : TaskId) :
    Leases (⟨db, .sendSignal x name payload time key, .ok (.signalId id), db'⟩ : Call J)
      task := by
  rcases sendSignalInner_commits h with ⟨-, -, -, -, -, -, -, rfl⟩ | ⟨-, -, hdb⟩
  · exact .of_wakeups rfl rfl task
  have hwakeups : db'.wakeups = (db.wakeWaiting x name time).wakeups := by
    rw [hdb]
    exact apply_wakeups db _
  -- a wait for this signal gets a wakeup unless it has one
  unfold wakeWaiting at hwakeups
  split at hwakeups
  · rename_i wait _
    split at hwakeups
    · unfold insertNew at hwakeups
      split at hwakeups
      · exact .of_wakeups hwakeups rfl task
      rename_i hnone
      replace hnone : db.wakeups.get? x = none := by simpa using hnone
      have hafter : db'.wakeups.get? x = some ⟨wait.sequence, time, none, none⟩ := by
        rw [hwakeups, get?_insert_self]
      rw [hdb] at hafter
      exact .of_change (.signal ..) hdb hnone hafter (.signalled rfl) task
    · exact .of_wakeups hwakeups rfl task
  · exact .of_wakeups hwakeups rfl task

theorem pollSignal_leases {store : Option ExecutionClaim} {expected : ℕ}
    {claim : Option WakeupClaim} {r : Option (TaskEvent J)}
    (h : pollSignal S store db x expected name ms claim t₁ t₂ = .ok (r, db'))
    (task : TaskId) : Leases (⟨db, .pollSignal store x expected name ms claim t₁ t₂,
      .ok (.polled r), db'⟩ : Call J) task := by
  rcases pollSignal_commits h with ⟨rfl, hpolled⟩ | ⟨ev, queued, rfl, hpolled⟩
  · refine .of_wakeups ?_ rfl task
    rcases hpolled.commits with ⟨-, rfl⟩ | ⟨-, rfl⟩
    · rfl
    · exact apply_wakeups db _
  cases claim with
  | none =>
    refine .of_wakeups ?_ rfl task
    rw [hpolled.commits]
    exact apply_wakeups db _
  | some claim =>
    obtain ⟨-, w, hw, hmatch⟩ := hpolled.entitled claim rfl
    obtain rfl : ev.row.taskId = x := by rw [hpolled.row]
    exact .of_change (.consume ev.row queued true) hpolled.commits hw
      (get?_erase_self ..) (.consume rfl rfl hmatch) task

theorem prunes_wakeups {tasks : List TaskId} (h : (effects S).Chain db (tasks.map .prune) db') :
    db'.wakeups = db.wakeups := by
  induction tasks generalizing db with
  | nil =>
    cases h
    rfl
  | cons x _ ih =>
    cases h with
    | cons _ hrest => exact (ih hrest).trans (apply_wakeups db (.prune x))

/-- What a call does to the wakeup row of a task, for every operation. -/
theorem call_leases (S : Crates J) (db : Db) (op : Op J) (task : TaskId) :
    Leases (entry (call S) db op) task := by
  rcases call_cases S db op with ⟨e, -, hcall⟩ | ⟨r, db', hok, hcall⟩
  · have hnone : wakeupClaims ⟨db, op, .error e, db⟩ = [] := by
      cases op <;> rfl
    rw [entry, hcall]
    exact .of_wakeups rfl hnone task
  rw [entry, hcall]
  cases op
  all_goals obtain ⟨value, h, rfl⟩ := replying_ok.mp hok
  case putProgram =>
    refine .of_wakeups ?_ rfl task
    rcases putProgramInner_commits h with ⟨-, rfl⟩ | ⟨row, -, rfl⟩
    · rfl
    · exact apply_wakeups db _
  case removeProgram =>
    refine .of_wakeups ?_ rfl task
    rcases removeProgram_commits h with ⟨-, rfl⟩ | ⟨_, _, -, -, rfl⟩
    · rfl
    · exact apply_wakeups db _
  case appendEventJsonAt =>
    refine .of_wakeups ?_ rfl task
    rw [(appendEventJsonAt_commits h).1.commits]
    exact apply_wakeups db _
  case appendEvent =>
    refine .of_wakeups ?_ rfl task
    rw [(appendEventInner_commits h).commits]
    exact apply_wakeups db _
  case appendEventJsonWithWakeupAt =>
    exact (appendEventJsonWithWakeupAt_commits h).1.leases rfl task
  case appendEventWithWakeup => exact (appendEventWithWakeupInner_commits h).leases rfl task
  case scheduleWakeup =>
    obtain ⟨-, rfl⟩ := scheduleWakeup_commits (S := S) h
    exact .of_change (.schedule ..) rfl rfl (get?_insert_self ..) (.replace rfl rfl) task
  case claimDueWakeups => exact claimDueWakeups_leases h task
  case claimWakeup => exact claimWakeup_leases h task
  case completeWakeup x _ _ _ _ _ =>
    obtain ⟨-, ⟨rfl, rfl⟩ | ⟨rfl, rfl, w, hw, hr⟩⟩ := completeWakeup_commits h
    · exact .of_wakeups rfl rfl task
    · exact .of_change (.wake x) rfl hw (get?_erase_self ..) (.complete rfl rfl hr) task
  case renewWakeupClaim =>
    rcases renewWakeupClaim_commits h with ⟨rfl, rfl⟩ | ⟨w, until_, new, hw, hmatch, rfl, rfl⟩
    · exact .of_wakeups rfl rfl task
    · exact .of_change (.lease ..) rfl hw (lease_row hw) (.renew rfl rfl rfl hmatch) task
  case releaseWakeupClaim =>
    rcases releaseWakeupClaim_commits h with ⟨rfl, rfl⟩ | ⟨w, hw, hmatch, rfl, rfl⟩
    · exact .of_wakeups rfl rfl task
    · exact .of_change (.lease ..) rfl hw (lease_row hw) (.release rfl rfl rfl hmatch) task
  case sendSignal => exact sendSignal_leases h task
  case pollSignal => exact pollSignal_leases h task
  case admitModule =>
    refine .of_wakeups ?_ rfl task
    rcases admitModule_commits h with ⟨-, rfl⟩ | ⟨-, program, hash, -, rfl, -⟩
    · rfl
    · exact apply_wakeups db _
  case claimRun => exact claimRun_leases S h task
  case releaseRun => exact releaseRun_leases S h task
  case finishTask =>
    refine .of_wakeups ?_ rfl task
    rcases finishTask_commits h with
      ⟨row, -, -, rfl, -⟩ | ⟨-, -, ⟨-, -, rfl⟩ | ⟨-, program, row, hfinished⟩⟩
    · rfl
    · rfl
    · rw [hfinished.commits]
      exact apply_wakeups db _
  case pruneCompleted =>
    obtain ⟨tasks, hchain⟩ := pruneCompleted_commits (S := S) h
    exact .of_wakeups (prunes_wakeups hchain) rfl task
  case initializeSchema =>
    refine .of_wakeups ?_ rfl task
    rw [initializeSchema_ok h]
    split <;> unfold initializeLifecycle <;> split <;> rfl

/-! ## Exclusion -/

/-- The call renews, releases or completes this claim, or replaces the wakeup. -/
def Call.Ends (c : Call J) (claim : WakeupClaim) : Prop :=
  match c.input, c.output with
  | .renewWakeupClaim renewed _ _, .ok (.wakeupClaim (some _)) => renewed = claim
  | .releaseWakeupClaim released, .ok (.bool true) => released = claim
  | .releaseRun run _ _ _, .ok _ => run.taskId = claim.taskId ∧ run.owner = claim.leaseOwner
  | .completeWakeup _ task sequence owner _ _ _, .ok (.bool true) =>
    task = claim.taskId ∧ sequence = claim.sequence ∧ owner = some claim.leaseOwner
  | .pollSignal _ task _ _ _ consumed _ _, .ok (.polled (some _)) =>
    task = claim.taskId ∧ ∃ c, consumed = some c ∧ c.leaseOwner = claim.leaseOwner
  | op, .ok _ => op.schedules? = some claim.taskId
  | _, _ => False

/-- A `release_run` that releases finds the wakeup leased to its own owner or to nobody. -/
def Call.ReleasesOwn (c : Call J) : Prop :=
  match c.input, c.output with
  | .releaseRun run _ _ _, .ok _ => ∀ w owner, c.before.wakeups.get? run.taskId = some w →
      w.leaseOwner = some owner → owner = run.owner
  | _, _ => True

theorem WakeupClaim.eq_of_matches (ht : k'.taskId = claim.taskId)
    (h : claim.matches w = true) (h' : k'.matches w = true) : k' = claim := by
  obtain ⟨hq, hw, ho, hu⟩ := matches_iff.mp h
  obtain ⟨hq', hw', ho', hu'⟩ := matches_iff.mp h'
  cases claim
  cases k'
  simp_all

/-- The row that a claim was issued on is still leased to it. -/
def Db.Holds (db : Db) (claim : WakeupClaim) : Prop :=
  ∃ w, db.wakeups.get? claim.taskId = some w ∧ claim.matches w = true

theorem Call.Issues.holds (h : c.Issues task w claim) : c.after.Holds claim := by
  obtain rfl := h.task_eq
  exact ⟨_, h.leased, matches_iff.mpr ⟨h.sequence, h.wakeAt, rfl, rfl⟩⟩

theorem issues_of_mem (h : claim ∈ wakeupClaims (entry (call S) db op)) :
    ∃ w, Issues (entry (call S) db op) claim.taskId w claim := by
  cases call_leases S db op claim.taskId with
  | keep _ hnone => exact absurd rfl (hnone claim h)
  | issue w _ hissues =>
    obtain rfl := hissues.only claim h rfl
    exact ⟨w, hissues⟩
  | change hchange =>
    rw [hchange.wakeupClaims] at h
    cases h

/-- A held claim is still held after a call, or the call ends it, or the call issues another
claim once its lease is over. -/
theorem holds_step (h : db.Holds claim) (hown : Call.ReleasesOwn (entry (call S) db op)) :
    (call S db op).2.Holds claim ∨ Call.Ends (entry (call S) db op) claim ∨
      wakeupClaims (entry (call S) db op) ≠ [] ∧ claim.leaseUntilMs ≤ op.issueTime := by
  obtain ⟨w, hw, hmatch⟩ := h
  obtain ⟨hq, hwake, howner, huntil⟩ := matches_iff.mp hmatch
  cases call_leases S db op claim.taskId with
  | keep hsame => exact .inl ⟨w, hsame.trans hw, hmatch⟩
  | issue _ _ hissues =>
    obtain rfl := Option.mem_unique hissues.row hw
    refine .inr (.inr ⟨ne_nil_of_mem hissues.mem, ?_⟩)
    exact hissues.due.2 _ huntil
  | change hchange =>
    refine .inr (.inl ?_)
    have hbefore : (entry (call S) db op).before.wakeups.get? claim.taskId = some w := hw
    rw [hbefore] at hchange
    generalize (entry (call S) db op).after.wakeups.get? claim.taskId = row at hchange
    unfold Call.Ends
    cases hchange with
    | renew hop hout ht hmatch' | release hop hout ht hmatch' =>
      simp only [hop, hout]
      exact WakeupClaim.eq_of_matches ht hmatch hmatch'
    | releaseRun hop hout ht =>
      simp only [hop, hout]
      simp only [ReleasesOwn, hop, hout] at hown
      exact ⟨ht, (hown w _ (ht ▸ hw) howner).symm⟩
    | @complete _ _ _ owner _ _ _ hop hout hr =>
      simp only [hop, hout]
      cases owner with
      | none => simp [completable, howner] at hr
      | some =>
        simp only [completable, howner, Bool.and_eq_true, decide_eq_true_eq,
          Option.some.injEq] at hr
        exact ⟨trivial, hr.1.symm.trans hq, by rw [hr.2.1]⟩
    | consume hop hout hmatch' =>
      simp only [hop, hout]
      refine ⟨trivial, _, rfl, ?_⟩
      have := (matches_iff.mp hmatch').2.2.1
      exact Option.mem_unique this howner
    | replace hop hout =>
      rw [hout]
      cases op with
      | scheduleWakeup | appendEventJsonWithWakeupAt | appendEventWithWakeup => exact hop
      | _ => cases hop

/-- The claims of a run are issued at times that do not go back. -/
def Timely (calls : List (Call J)) : Prop :=
  calls.Pairwise fun c c' => wakeupClaims c ≠ [] → wakeupClaims c' ≠ [] →
    c.input.issueTime ≤ c'.input.issueTime

/-- While a claim is held and not ended, no claim of its task is issued before its deadline. -/
theorem excluded_of_holds
    (h : db.Holds claim ∨ ∃ time, claim.leaseUntilMs ≤ time ∧
      ∀ c ∈ calls S db ops, wakeupClaims c ≠ [] → time ≤ c.input.issueTime)
    (htimely : Timely (calls S db ops)) (hown : ∀ c ∈ calls S db ops, c.ReleasesOwn)
    {between : List (Call J)} (hcalls : calls S db ops = between ++ c :: rest)
    (hissued : k' ∈ wakeupClaims c) (ht : k'.taskId = claim.taskId) :
    claim.leaseUntilMs ≤ c.input.issueTime ∨ ∃ e ∈ between, Call.Ends e claim := by
  induction ops generalizing db between with
  | nil => simp [calls] at hcalls
  | cons op ops ih =>
    obtain ⟨hfirst, hrest⟩ := pairwise_cons.mp htimely
    have hhead := hown _ (mem_cons_self ..)
    have htail := fun c hc => hown c (mem_cons_of_mem _ hc)
    cases between with
    | nil =>
      obtain ⟨rfl, -⟩ := cons.inj hcalls
      rcases h with ⟨w, hw, hmatch⟩ | ⟨time, htime, hlater⟩
      · obtain ⟨w', hissues⟩ := issues_of_mem hissued
        rw [ht] at hissues
        obtain rfl := Option.mem_unique hissues.row hw
        exact .inl (hissues.due.2 _ (matches_iff.mp hmatch).2.2.2)
      · exact .inl (htime.trans (hlater _ (mem_cons_self ..) (ne_nil_of_mem hissued)))
    | cons e =>
      obtain ⟨rfl, hbetween⟩ := cons.inj hcalls
      have hnext : Call.Ends (entry (call S) db op) claim ∨ ((call S db op).2.Holds claim ∨
          ∃ time, claim.leaseUntilMs ≤ time ∧ ∀ c ∈ calls S (call S db op).2 ops,
            wakeupClaims c ≠ [] → time ≤ c.input.issueTime) := by
        rcases h with hholds | ⟨time, htime, hlater⟩
        · rcases holds_step hholds hhead with hholds | hends | ⟨hsome, hover⟩
          · exact .inr (.inl hholds)
          · exact .inl hends
          · exact .inr (.inr ⟨_, hover, fun c hc hne => hfirst c hc hsome hne⟩)
        · exact .inr (.inr ⟨time, htime, fun c hc => hlater c (mem_cons_of_mem _ hc)⟩)
      rcases hnext with hends | hnext
      · exact .inr ⟨_, mem_cons_self .., hends⟩
      · rcases ih hnext hrest htail hbetween with hover | ⟨e, he, hends⟩
        · exact .inl hover
        · exact .inr ⟨e, mem_cons_of_mem _ he, hends⟩

/-! ## Superseded claims -/

def Db.NotLeasedTo (db : Db) (task : TaskId) (owner : String) : Prop :=
  ∀ w, db.wakeups.get? task = some w → w.leaseOwner ≠ some owner

theorem notLeasedTo_step (h : db.NotLeasedTo task owner)
    (hclaims : ∀ claim ∈ wakeupClaims (entry (call S) db op), claim.taskId = task →
      claim.leaseOwner ≠ owner) : (call S db op).2.NotLeasedTo task owner := by
  intro w' hw'
  cases call_leases S db op task with
  | keep hsame => exact h w' (hsame.symm.trans hw')
  | issue _ claim hissues =>
    obtain rfl := Option.mem_unique hissues.leased hw'
    simpa using hclaims claim hissues.mem hissues.task_eq
  | change hchange =>
    replace hw' : (entry (call S) db op).after.wakeups.get? task = some w' := hw'
    rw [hw'] at hchange
    generalize hbefore : (entry (call S) db op).before.wakeups.get? task = row at hchange
    cases hchange with
    | renew =>
      have hstored := h _ hbefore
      exact hstored
    | release | releaseRun | replace | signalled => simp

theorem notLeasedTo_run (h : db.NotLeasedTo task owner)
    (hclaims : ∀ c ∈ calls S db ops, ∀ claim ∈ wakeupClaims c, claim.taskId = task →
      claim.leaseOwner ≠ owner) : (after S db ops).NotLeasedTo task owner := by
  induction ops generalizing db with
  | nil => exact h
  | cons _ _ ih =>
    refine ih (notLeasedTo_step h ?_) ?_
    · exact hclaims _ (mem_cons_self ..)
    · exact fun c hc => hclaims c (mem_cons_of_mem _ hc)

/-- A claim that nobody can use any more. -/
structure Db.Dead (db : Db) (claim : WakeupClaim) : Prop where
  active : ∀ ms, claimIsActive db claim ms ≠ .ok true
  renewable : ∀ ms dur k' db', renewWakeupClaim db claim ms dur ≠ .ok (some k', db')
  releasable : ∀ db', releaseWakeupClaim db claim ≠ .ok (true, db')
  completable : ∀ store ms t₁ t₂ db', completeWakeup store db claim.taskId
    claim.sequence (some claim.leaseOwner) ms t₁ t₂ ≠ .ok (true, db')

theorem Db.NotLeasedTo.dead (h : db.NotLeasedTo claim.taskId claim.leaseOwner) : db.Dead claim := by
  have hmatch : ∀ w, db.wakeups.get? claim.taskId = some w → claim.matches w = false := by
    intro w hw
    rw [← Bool.not_eq_true, matches_iff]
    exact fun hm => h w hw hm.2.2.1
  refine ⟨?_, ?_, ?_, ?_⟩
  · intro ms hactive
    simp only [claimIsActive, bind_ok, pure_ok] at hactive
    obtain ⟨-, -, now, -, hany⟩ := hactive
    cases hw : db.wakeups.get? claim.taskId with
    | none => simp [hw] at hany
    | some w => simp [hw, hmatch w hw] at hany
  · intro ms dur k' db' hrenewed
    rcases renewWakeupClaim_commits hrenewed with ⟨hnone, -⟩ | ⟨w, -, -, hw, hmatches, -⟩
    · cases hnone
    · simp [hmatch w hw] at hmatches
  · intro db' hreleased
    rcases releaseWakeupClaim_commits hreleased with ⟨hfalse, -⟩ | ⟨w, hw, hmatches, -⟩
    · cases hfalse
    · simp [hmatch w hw] at hmatches
  · intro store ms t₁ t₂ db' hcompleted
    obtain ⟨-, ⟨hfalse, -⟩ | ⟨-, -, w, hw, hr⟩⟩ := completeWakeup_commits hcompleted
    · cases hfalse
    · simp only [completable, Bool.and_eq_true, decide_eq_true_eq] at hr
      exact h w hw hr.2.1

/-! ## Runs -/

theorem calls_split {front : List (Call J)} (h : calls S db ops = front ++ c :: rest) :
    ∃ ops₁ op ops₂, ops = ops₁ ++ op :: ops₂ ∧ c = entry (call S) (after S db ops₁) op ∧
      rest = calls S (call S (after S db ops₁) op).2 ops₂ := by
  induction ops generalizing db front with
  | nil => simp [calls] at h
  | cons op ops ih =>
    cases front with
    | nil =>
      obtain ⟨rfl, rfl⟩ := cons.inj h
      exact ⟨[], op, ops, rfl, rfl, rfl⟩
    | cons =>
      obtain ⟨rfl, hfront⟩ := cons.inj h
      obtain ⟨ops₁, op', ops₂, rfl, hc, hrest⟩ := ih hfront
      exact ⟨op :: ops₁, op', ops₂, rfl, hc, hrest⟩

/-- In every run of every store, with claims issued at times that do not go back and releases of
executions that find the wakeup leased to their own owner or to nobody: until its deadline a
claim excludes every other claim of its task, unless it was renewed, released or completed or
the wakeup was replaced; and a claim that was superseded by another owner's is dead from then
on, as long as its own owner does not claim the wakeup again. -/
theorem wakeup_leases_exclude (S : Crates J) (db : Db) (ops : List (Op J))
    (htimely : Timely (calls S db ops)) (hown : ∀ c ∈ calls S db ops, c.ReleasesOwn)
    {front between rest : List (Call J)} {c c' : Call J}
    (hcalls : calls S db ops = front ++ c :: (between ++ c' :: rest))
    {claim k' : WakeupClaim} (hclaim : claim ∈ wakeupClaims c)
    (hclaim' : k' ∈ wakeupClaims c') (ht : k'.taskId = claim.taskId) :
    (claim.leaseUntilMs ≤ c'.input.issueTime ∨ ∃ e ∈ between, Call.Ends e claim) ∧
      (k'.leaseOwner ≠ claim.leaseOwner →
        (∀ e ∈ rest, ∀ other ∈ wakeupClaims e, other.taskId = claim.taskId →
          other.leaseOwner ≠ claim.leaseOwner) → (after S db ops).Dead claim) := by
  obtain ⟨ops₁, op, ops₂, rfl, rfl, hlater⟩ := calls_split hcalls
  obtain ⟨w, hissues⟩ := issues_of_mem hclaim
  have hafter : ∀ e ∈ between ++ c' :: rest, e ∈ calls S db (ops₁ ++ op :: ops₂) := by
    intro e he
    rw [hcalls]
    exact mem_append_right _ (mem_cons_of_mem _ he)
  have htimely' : Timely (between ++ c' :: rest) := by
    rw [hcalls] at htimely
    exact (pairwise_cons.mp (pairwise_append.mp htimely).2.1).2
  constructor
  · rw [hlater] at hafter htimely'
    exact excluded_of_holds (.inl hissues.holds) htimely' (fun e he => hown e (hafter e he))
      hlater.symm hclaim' ht
  intro hother hrest
  obtain ⟨ops₃, op', ops₄, rfl, rfl, rfl⟩ := calls_split hlater.symm
  obtain ⟨w', hissues'⟩ := issues_of_mem hclaim'
  have hstart : (call S (after S (call S (after S db ops₁) op).2 ops₃) op').2.NotLeasedTo
      claim.taskId claim.leaseOwner := by
    intro w hw
    rw [← ht] at hw
    obtain rfl := Option.mem_unique hissues'.leased hw
    simpa using hother
  have hend := notLeasedTo_run hstart hrest
  have hsplit : after S db (ops₁ ++ op :: (ops₃ ++ op' :: ops₄)) =
      after S (call S (after S (call S (after S db ops₁) op).2 ops₃) op').2 ops₄ := by
    rw [after, run_append, run_cons, run_append, run_cons]
  rw [hsplit]
  exact hend.dead

/-! ## Leases that do not exclude -/

/-- An execution is claimed before its task has a wakeup, which a worker then claims until 51. -/
def leasedDuringRun : List (Op Bool) :=
  [.putProgram 7 .script "42" 0, .claimRun 7 "host" 100 (some "token") 0 0,
    .scheduleWakeup ⟨7, 0, 1⟩, .claimWakeup 7 1 "a" 50,
    .releaseRun ⟨7, "token", 1, 100, none⟩ false 2 2, .claimWakeup 7 3 "b" 50]

/-- Two workers claim a wakeup in turn, and the first one once more. -/
def claimedAgain : List (Op Bool) :=
  [.scheduleWakeup ⟨7, 0, 0⟩, .claimWakeup 7 0 "a" 10, .claimWakeup 7 10 "b" 10,
    .claimWakeup 7 20 "a" 10]

/-- The release of the execution drops the lease of the first worker, and the second one claims
the wakeup at time 3. The first claim of a worker was superseded, and is completable while its
third claim is. -/
theorem lease_dropped_and_revived : (calls bools Db.fresh leasedDuringRun).map wakeupClaims =
        [[], [], [], [⟨7, 0, 1, "a", 51⟩], [], [⟨7, 0, 1, "b", 53⟩]] ∧
      (calls bools Db.fresh claimedAgain).map wakeupClaims =
        [[], [⟨7, 0, 0, "a", 10⟩], [⟨7, 0, 0, "b", 20⟩], [⟨7, 0, 0, "a", 30⟩]] ∧
      ∃ db', completeWakeup none (after bools Db.fresh claimedAgain) 7 0 (some "a") 21 21 21 =
        .ok (true, db') := by
  refine ⟨by decide +kernel, by decide +kernel, _, rfl⟩

/-- The second worker waits for the end of the first lease, and the first claim is dead then. -/
theorem wakeup_leases_exclude_in_turn :
    (calls bools Db.fresh (claimedAgain.take 3)).map wakeupClaims =
        [[], [⟨7, 0, 0, "a", 10⟩], [⟨7, 0, 0, "b", 20⟩]] ∧
      (after bools Db.fresh (claimedAgain.take 3)).Dead ⟨7, 0, 0, "a", 10⟩ := by
  have htimely : Timely (calls bools fresh (claimedAgain.take 3)) := by
    unfold Timely
    decide +kernel
  have hown : ∀ c ∈ calls bools fresh (claimedAgain.take 3), c.ReleasesOwn := by
    intro c hc
    obtain ⟨s, op, hop, rfl⟩ := mem_trace _ _ hc
    simp only [claimedAgain, take_succ_cons, take_zero, mem_cons, not_mem_nil, or_false] at hop
    rcases hop with rfl | rfl | rfl <;> trivial
  have hcalls : calls bools fresh (claimedAgain.take 3) =
      [entry (call bools) fresh (.scheduleWakeup ⟨7, 0, 0⟩)] ++
        entry (call bools) (after bools fresh (claimedAgain.take 1))
          (.claimWakeup 7 0 "a" 10) ::
        ([] ++ entry (call bools) (after bools fresh (claimedAgain.take 2))
          (.claimWakeup 7 10 "b" 10) :: []) := rfl
  exact ⟨by decide +kernel, (wakeup_leases_exclude bools fresh (claimedAgain.take 3)
    htimely hown hcalls (show ⟨7, 0, 0, "a", 10⟩ ∈ _ by decide +kernel)
    (show ⟨7, 0, 0, "b", 20⟩ ∈ _ by decide +kernel) rfl).2 (by decide) (by simp)⟩

end Tysel.Durable
