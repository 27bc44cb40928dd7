import Tysel.Algorithm.Engine.Dispatch
import Tysel.Verification.Engine.Managed

/-! While a claim owns the execution row of its task, the wakeup token and the suspension flag of
its session describe the wakeup and the wait of the task. Every permitted host call keeps
this, and leaves the task parked. -/

namespace Tysel.Engine

open Tysel.Durable Effect DurableSession Bool ExecutionClaim

variable {J α β : Type} {S : Crates J} {db : Db} {c : ExecutionClaim} {taken : DurableSession J}
  {token : WakeupToken} {name : String} {events : List (TaskEvent J)} {n : ℕ} {wakeup : WakeupClaim}

/-- The execution row is running under this claim, whatever its lease. -/
def Owns (c : ExecutionClaim) (db : Db) : Prop :=
  ∃ r, db.executions.get? c.taskId = some r ∧ r.state = .running ∧
    r.owner = some c.owner ∧ r.generation = c.generation

variable {clock : ℤ}

theorem Owns.of_passes {t : TaskId} (h : c.Passes db t clock) : Owns c db := by
  obtain ⟨-, -, -, rfl, r, hr, hholds⟩ := passes_iff.mp h
  obtain ⟨hstate, howner, hgen, -⟩ := holds_iff.mp hholds
  exact ⟨r, hr, hstate, howner, hgen⟩

variable {db' : Db} {s : DurableSession J}

theorem Owns.congr (h : db'.executions.get? c.taskId = db.executions.get? c.taskId) :
    Owns c db' ↔ Owns c db := by
  simp only [Owns, h]

theorem Owns.claimed (h : Owns c db) : db.executions.get? c.taskId ≠ none := by
  obtain ⟨_, hr, -⟩ := h
  simp [hr]

theorem Owns.not_suspended (h : Owns c db) (r : ExecutionRow)
    (hr : db.executions.get? c.taskId = some r) : r.state ≠ .suspended := by
  obtain ⟨r', hr', hstate, -⟩ := h
  obtain rfl : r = r' := Option.mem_unique hr hr'
  simp [hstate]

def Idle (db : Db) (t : TaskId) : Prop := db.wakeups.get? t = none ∧ db.signalWaits.get? t = none

theorem Idle.parked {t : TaskId} (h : Idle db t)
    (hstate : ∀ r, db.executions.get? t = some r → r.state ≠ .suspended) : db.Parked t :=
  .of_idle h.1 h.2 hstate

/-- The session describes the wakeup and the wait of its task. -/
structure Follows (s : DurableSession J) (db : Db) : Prop where
  resolved : s.resolved = true → Idle db s.taskId
  sleeping : ∀ token, s.activeWakeup = some token → token.kind = .sleep →
    db.signalWaits.get? s.taskId = none
  waiting : ∀ token, s.activeWakeup = some token → token.kind = .signal →
    (db.signalWaits.get? s.taskId).isSome ∧
      ∃ wakeup, token.claim = some wakeup ∧ wakeup.sequence = token.sequence
  suspended : s.suspended = true →
    (db.wakeups.get? s.taskId).isSome ∨ (db.signalWaits.get? s.taskId).isSome

theorem Follows.of_idle (htok : s.activeWakeup = none)
    (hsuspended : s.suspended = false) (hidle : Idle db s.taskId) :
    Follows s db where
  resolved _ := hidle
  sleeping token h := absurd (h.symm.trans htok) (by simp)
  waiting token h := absurd (h.symm.trans htok) (by simp)
  suspended h := absurd (h.symm.trans hsuspended) (by simp)

theorem Follows.of_same {s' : DurableSession J} (h : Follows s db)
    (htask : s'.taskId = s.taskId)
    (htok : s'.activeWakeup = s.activeWakeup)
    (hsuspended : s'.suspended = s.suspended) : Follows s' db where
  resolved hr := by
    rw [htask]
    exact h.resolved (by simpa [DurableSession.resolved, htok, hsuspended] using hr)
  sleeping token ht hk := by
    rw [htask]
    exact h.sleeping token (htok ▸ ht) hk
  waiting token ht hk := by
    rw [htask]
    exact h.waiting token (htok ▸ ht) hk
  suspended hs := by
    rw [htask]
    exact h.suspended (hsuspended ▸ hs)

theorem Follows.captureStorage (h : Follows s db)
    (error : DurableError) : Follows (s.captureStorage error) db :=
  h.of_same rfl rfl rfl

/-! ## Host calls -/

variable {s : DurableSession J}

/-- What a host call replies, and what it does to the session and the store: it only moves on in
the history, or makes one store call. -/
inductive Hosted (S : Crates J) (s : DurableSession J) (db : Db) :
    HostCall → Except SessionError Unit × DurableSession J × Db → Prop
  | moved {hostCall : HostCall} (reply : Except SessionError Unit) (replay : ReplayCursor J)
      (sleep : Option ℕ)
      (hreply : ∀ e, reply = .error (.storage e) → s.storageError = some e) :
      Hosted S s db hostCall
        (reply, { s with replay := replay, replayedSleep := sleep }, db)
  | recorded {hostCall : HostCall} {kind : EventKind} {key payload : String} {time : ℕ}
      {c₁ c₂ : ℤ} (hcall : hostCall = .record kind key payload time c₁ c₂ ∨
        (∃ clock, hostCall = .recordInput payload clock c₁ c₂) ∧
          ∃ replay, s.replay.consumeEvent .step taskInputKey = .ok (none, replay)) :
      Hosted S s db hostCall (s.stored db (appendEventJsonAt S s.store db
        s.taskId s.nextSequence kind key payload time c₁ c₂) fun ev =>
          (.ok (), { s with nextSequence := ev.sequence + 1 }))
  | slept (key payload : String) (time wakeAtMs : ℕ) (c₁ c₂ : ℤ) :
      Hosted S s db (.recordSleep key payload time wakeAtMs c₁ c₂)
        (s.stored db (appendEventJsonWithWakeupAt S s.store db s.taskId
          s.nextSequence key payload time wakeAtMs c₁ c₂) fun ev =>
            (.ok (), s.asleep ev.sequence))
  | woken (clock c₁ c₂ : ℤ) (now : ℕ) {token : WakeupToken}
      (htok : s.activeWakeup = some token) (hkind : token.kind = .sleep) :
      Hosted S s db (.completeSleep clock c₁ c₂)
        ({ s with replayedSleep := none }.stored db (completeWakeup s.store db
          s.taskId token.sequence (token.claim.map WakeupClaim.leaseOwner) now c₁ c₂)
          fun completed =>
            if completed then (.ok (), { s with
              replayedSleep := none, activeWakeup := none, suspended := false })
            else (.error .wakeupOwnershipLost, { s with replayedSleep := none }))
  | polled (name : String) (clock c₁ c₂ : ℤ) (now : ℕ) :
      Hosted S s db (.pollSignal name clock c₁ c₂)
        (s.stored db (pollSignal S s.store db s.taskId s.nextSequence name
          now s.signalClaim c₁ c₂) fun ev =>
            match ev with
            | some ev => (.ok (), s.signalled ev.sequence)
            | none => (.ok (), { s with suspended := true }))

variable {hostCall : HostCall} {x : Except SessionError Unit × DurableSession J × Db}
  {next : α → Except SessionError β × DurableSession J} {res : Except DurableError (α × Db)}

theorem stored_map : ((s.stored db res next).1.map fun _ => (), (s.stored db res next).2) =
      s.stored db res fun v => ((next v).1.map fun _ => (), (next v).2) := by
  cases res <;> rfl

theorem Hosted.checked (reply : Except SessionError α → Except SessionError Unit)
    (hreply : ∀ e, reply (.error e) = .error e)
    {method : Except SessionError α × DurableSession J × Db}
    (h : Hosted S s db hostCall (reply method.1, method.2)) : Hosted S s db hostCall
      (reply (s.checked db method).1, (s.checked db method).2) := by
  unfold DurableSession.checked
  cases hstorage : s.storageError with
  | none => exact h
  | some =>
    rw [hreply]
    exact .moved _ _ _ (by simp [hstorage])

theorem host_hosted (S : Crates J) (s : DurableSession J) (db : Db) (hostCall : HostCall) :
    Hosted S s db hostCall (s.reply S db hostCall, s.host S db hostCall) := by
  cases hostCall with
  | lookup kind key =>
    refine .checked (Except.map fun _ => ()) (fun _ => rfl) ?_
    cases s.replay.consumeEvent kind key with
    | error e => exact .moved (.error (.replay e)) _ _ (by simp)
    | ok => exact .moved (.ok ()) _ _ (by simp)
  | findRetryOutcome =>
    exact .checked (Except.map fun _ => ()) (fun _ => rfl) (.moved (.ok ()) _ _ (by simp))
  | record => exact .checked id (fun _ => rfl) (.recorded (.inl rfl))
  | recordSleep => exact .checked id (fun _ => rfl) (.slept ..)
  | recordInput _ clock =>
    refine .checked (Except.map fun _ => ()) (fun _ => rfl) ?_
    cases hconsume : s.replay.consumeEvent .step taskInputKey with
    | error e => exact .moved (.error (.replay e)) _ _ (by simp)
    | ok p =>
      obtain ⟨ev, replay⟩ := p
      cases ev with
      | some => exact .moved (.ok ()) _ _ (by simp)
      | none =>
        unfold unixTimeMs
        split_ifs
        · dsimp only
          rw [stored_map]
          exact .recorded (.inr ⟨⟨clock, rfl⟩, replay, hconsume⟩)
        · exact .moved (.error .clock) _ _ (by simp)
  | completeSleep =>
    refine .checked id (fun _ => rfl) ?_
    unfold finishSleep unixTimeMs
    split
    · exact .moved (.ok ()) _ _ (by simp)
    split
    · exact .moved (.error .noActiveWakeup) _ _ (by simp)
    rename_i htok
    split_ifs with hkind
    · exact .moved (.error .wakeupOfSignalWait) _ _ (by simp)
    · exact .woken _ _ _ _ htok (not_not.mp hkind)
    · exact .moved (.error .clock) _ _ (by simp)
  | pollSignal name clock =>
    refine .checked (Except.map fun _ => ()) (fun _ => rfl) ?_
    unfold unixTimeMs
    split_ifs
    · dsimp only
      rw [stored_map]
      convert Hosted.polled name clock _ _ _ using 2
      funext ev
      cases ev <;> rfl
    · exact .moved (.error .clock) _ _ (by simp)

/-- What a host call of the session of `claim` has done: nothing to the store, or one effect
on its task under a claim that owns it. -/
inductive HostStep (S : Crates J) (c : ExecutionClaim) (db : Db) (s : DurableSession J)
    (db' : Db) : Prop
  | unchanged (hdb : db' = db) (hfollows : Owns c db → Follows s db)
  | effect (e : Effect) (hen : e.Enabled S db) (hman : e.Managed) (hdb : db' = e.apply db)
      (htask : e.task = c.taskId) (howns : Owns c db)
      (hexec : (e.apply db).executions = db.executions)
      (hparked : (e.apply db).Parked c.taskId) (hfollows : Follows s (e.apply db))

/-- The session of a claim: scoped to it, and following its task while the claim owns it. -/
structure SessionOf (c : ExecutionClaim) (s : DurableSession J) (db : Db) : Prop where
  store : s.store = some c
  task : s.taskId = c.taskId
  follows : Owns c db → Follows s db

theorem HostStep.stored (htaken : Owns c db → Follows taken db)
    (hok : ∀ v db', res = .ok (v, db') → HostStep S c db (next v).2 db') :
    HostStep S c db (taken.stored db res next).2.1 (taken.stored db res next).2.2 := by
  cases res with
  | error e => exact .unchanged rfl fun howns => (htaken howns).captureStorage e
  | ok p => exact hok p.1 p.2 rfl

variable {ev : TaskEvent J} {payload : String}

section

variable (h : SessionOf c s db) (hresolved : s.resolved = true)

include h hresolved

theorem append_idle {expected : ℕ} {kind : EventKind} {key : String} {time : ℕ}
    {wakeAtMs : Option ℕ}
    (happ : Appended s.store db db' s.taskId (some expected) kind key payload time
      wakeAtMs clock ev) :
    Owns c db ∧ Idle db c.taskId ∧ ev.row.taskId = c.taskId := by
  have howns := Owns.of_passes (happ.guarded c h.store)
  refine ⟨howns, h.task ▸ (h.follows howns).resolved hresolved, ?_⟩
  rw [happ.row]
  exact h.task

theorem record_step {kind : EventKind} {key : String} {time : ℕ}
    (happ : Appended s.store db db' s.taskId (some s.nextSequence) kind key
      payload time none clock ev) :
    HostStep S c db { s with nextSequence := ev.sequence + 1 } db' := by
  obtain ⟨howns, hidle, htask⟩ := append_idle h hresolved happ
  have hafter : Idle (apply db (.append ev.row none)) c.taskId := hidle
  refine .effect (.append ev.row none) happ.appendable (by simp [Managed]) happ.commits
    htask howns rfl ?_ ?_
  · exact hafter.parked howns.not_suspended
  · simp only [resolved, and_eq_true, Option.isNone_iff_eq_none, not_eq_true'] at hresolved
    exact .of_idle hresolved.1 hresolved.2 (h.task ▸ hafter)

theorem recordSleep_step {key : String} {time wakeAtMs : ℕ} (hrange : wakeAtMs < 2 ^ 63)
    (happ : Appended s.store db db' s.taskId (some s.nextSequence) .sleep key
      payload time (some wakeAtMs) clock ev) :
    HostStep S c db (s.asleep ev.sequence) db' := by
  obtain ⟨howns, hidle, htask⟩ := append_idle h hresolved happ
  have hwake : ((apply db (.append ev.row (some wakeAtMs))).wakeups.get?
      c.taskId).isSome := by
    rw [apply_wakeups, ← htask]
    simp
  refine .effect (.append ev.row (some wakeAtMs)) happ.appendable
    (by simpa [Managed] using hrange) happ.commits htask howns rfl ?_ ?_
  · exact .of_no_wait hidle.2 howns.claimed howns.not_suspended
  refine ⟨by simp [resolved, asleep], ?_, ?_, ?_⟩
  · intro token _ _
    exact h.task ▸ hidle.2
  · rintro - ⟨⟩ hk
    cases hk
  · intro _
    left
    rw [show (s.asleep ev.sequence).taskId = c.taskId from h.task]
    exact hwake

end

theorem completeSleep_step (h : SessionOf c s db)
    (htok : s.activeWakeup = some token) (hkind : token.kind = .sleep) {sequence : ℕ}
    {owner : Option String} {now : ℕ} {c₁ c₂ : ℤ}
    (hdone : completeWakeup s.store db s.taskId sequence owner now c₁ c₂ =
      .ok (true, db')) : HostStep S c db
      { s with activeWakeup := none, suspended := false } db' := by
  obtain ⟨hguard, ⟨hfalse, -⟩ | ⟨-, hdb, _, hw, -⟩⟩ := completeWakeup_commits hdone
  · cases hfalse
  have howns := Owns.of_passes (hguard c h.store)
  have hwait := (h.follows howns).sleeping token htok hkind
  have hidle : Idle (apply db (.wake s.taskId)) s.taskId := by
    refine ⟨?_, hwait⟩
    exact Table.get?_erase_self _ _
  refine .effect (.wake s.taskId) (by simp [Enabled, hw]) trivial hdb h.task
    howns rfl ?_ ?_
  · rw [← h.task]
    exact hidle.parked (h.task ▸ howns.not_suspended)
  · exact .of_idle rfl rfl hidle

theorem poll_token (hpoll : (!s.suspended &&
    !(s.activeWakeup.any fun token => token.kind = .sleep)) = true) :
    s.suspended = false ∧ ∀ token, s.activeWakeup = some token → token.kind = .signal := by
  simp only [and_eq_true, not_eq_true'] at hpoll
  refine ⟨hpoll.1, fun token htok => ?_⟩
  have hkind : token.kind ≠ .sleep := by simpa [htok] using hpoll.2
  cases hk : token.kind with
  | sleep => exact absurd hk hkind
  | signal => rfl

theorem pollNone_step (h : SessionOf c s db) (hsuspended : s.suspended = false)
    (hsignal : ∀ token, s.activeWakeup = some token → token.kind = .signal)
    (hnone : PolledNone s.store db db' s.taskId s.nextSequence name clock) :
    HostStep S c db { s with suspended := true } db' := by
  have howns := Owns.of_passes (hnone.guarded c h.store)
  have hfollows := h.follows howns
  rcases hnone.commits with ⟨hwait, hdb⟩ | ⟨hwait, hdb⟩
  · refine .unchanged hdb fun _ => ⟨by simp [resolved], hfollows.sleeping,
      hfollows.waiting, fun _ => ?_⟩
    right
    simp [hwait]
  -- a session resumed for a wait finds that wait, so this one has no token
  have htok : s.activeWakeup = none := by
    cases ht : s.activeWakeup with
    | none => rfl
    | some token =>
      have := (hfollows.waiting token ht (hsignal token ht)).1
      simp [hwait] at this
  have hidle := hfollows.resolved (by simp [resolved, htok, hsuspended])
  have hen : Enabled S db (.wait s.taskId ⟨s.nextSequence, name⟩) :=
    ⟨hnone.isOpen, hwait, hnone.expects, hnone.empty⟩
  refine .effect _ hen trivial hdb h.task howns rfl ?_ ?_
  · rw [← h.task]
    exact .wait hen hidle.1 (h.task ▸ howns.not_suspended) (h.task ▸ howns.claimed)
  refine ⟨by simp [resolved], ?_, ?_, fun _ => ?_⟩
  · exact fun token ht => absurd (ht.symm.trans htok) (by simp)
  · exact fun token ht => absurd (ht.symm.trans htok) (by simp)
  · right
    rw [apply_signalWaits]
    simp

theorem pollSome_step (h : SessionOf c s db)
    (hsignal : ∀ token, s.activeWakeup = some token → token.kind = .signal) {queued : InboxRow}
    (hsome : PolledSome S s.store db db' s.taskId s.nextSequence name
      s.signalClaim clock ev queued) :
    HostStep S c db (s.signalled ev.sequence) db' := by
  have howns := Owns.of_passes (hsome.guarded c h.store)
  have hrow : ev.row.taskId = s.taskId := by rw [hsome.row]
  have hidle : Idle (apply db (.consume ev.row queued s.signalClaim.isSome))
      s.taskId := hrow ▸ consume_idle hsome.enabled
  have hcleared : (s.signalled ev.sequence).activeWakeup = none := by
    simp only [signalled]
    cases ht : s.activeWakeup with
    | none => rfl
    | some token =>
      -- the poll has checked that the token's claim is at the sequence it consumed
      have hkind := hsignal token ht
      obtain ⟨-, wakeup, hclaim, hseq⟩ := (h.follows howns).waiting token ht hkind
      have hpresented : s.signalClaim = some wakeup := by
        simp [signalClaim, ht, Option.filter, hkind, hclaim]
      have hexpected := (hsome.entitled wakeup hpresented).1
      have hevent : ev.sequence = s.nextSequence := congrArg EventRow.sequence hsome.row
      simp [Option.filter, hkind, ← hseq, hexpected, hevent]
  refine .effect _ hsome.enabled trivial hsome.commits (hrow.trans h.task) howns rfl ?_ ?_
  · rw [← h.task]
    exact hidle.parked (h.task ▸ howns.not_suspended)
  · exact .of_idle hcleared rfl hidle

theorem Hosted.step (hhost : Hosted S s db hostCall x) (h : SessionOf c s db)
    (hpermits : s.permits hostCall = true) : HostStep S c db x.2.1 x.2.2 := by
  have hsame : ∀ replay sleep, Owns c db →
      Follows { s with replay := replay, replayedSleep := sleep } db :=
    fun _ _ howns => (h.follows howns).of_same rfl rfl rfl
  cases hhost with
  | moved => exact .unchanged rfl (hsame _ _)
  | recorded hcall =>
    refine .stored h.follows fun ev db' hok => ?_
    refine record_step h ?_ (appendEventJsonAt_commits hok).1
    rcases hcall with rfl | ⟨⟨_, rfl⟩, _, hreplay⟩
    · exact hpermits
    -- an input is recorded only at the end of the history
    simp only [permits, or_eq_true, decide_eq_true_eq] at hpermits
    refine hpermits.resolve_right fun hlt => ?_
    simp only [ReplayCursor.consumeEvent, List.getElem?_eq_getElem hlt] at hreplay
    split at hreplay <;> simp at hreplay
  | slept =>
    refine .stored h.follows fun ev db' hok => ?_
    have happended := (appendEventJsonWithWakeupAt_commits hok).1
    simp only [appendEventJsonWithWakeupAt, bind_ok, toSqlInteger_ok] at hok
    obtain ⟨-, -, _, ⟨-, -⟩, _, ⟨hwake, -⟩, -⟩ := hok
    exact recordSleep_step h hpermits hwake happended
  | woken _ _ _ _ htok hkind =>
    have htaken : SessionOf c { s with replayedSleep := none } db := ⟨h.store, h.task, hsame _ _⟩
    refine .stored htaken.follows fun completed db' hok => ?_
    cases completed with
    | true => exact completeSleep_step htaken htok hkind hok
    | false =>
      obtain ⟨-, ⟨-, hdb⟩ | ⟨hfalse, -⟩⟩ := completeWakeup_commits hok
      · exact .unchanged hdb htaken.follows
      · cases hfalse
  | polled =>
    obtain ⟨hsuspended, hsignal⟩ := poll_token hpermits
    refine .stored h.follows fun polled db' hok => ?_
    rcases pollSignal_commits hok with ⟨rfl, hnone⟩ | ⟨_, _, rfl, hsome⟩
    · exact pollNone_step h hsuspended hsignal hnone
    · exact pollSome_step h hsignal hsome

/-! ## The scope of a session -/

def SameScope (s s' : DurableSession J) : Prop := s'.store = s.store ∧ s'.taskId = s.taskId

theorem SameScope.stored (h : SameScope s taken) (hnext : ∀ v, SameScope s (next v).2) :
    SameScope s (taken.stored db res next).2.1 := by
  cases res with
  | error => exact h
  | ok p => exact hnext p.1

theorem Hosted.scope (hhost : Hosted S s db hostCall x) : SameScope s x.2.1 := by
  cases hhost with
  | moved => exact ⟨rfl, rfl⟩
  | recorded | slept => exact .stored ⟨rfl, rfl⟩ fun _ => ⟨rfl, rfl⟩
  | woken | polled =>
    refine .stored ⟨rfl, rfl⟩ fun v => ?_
    cases v <;> exact ⟨rfl, rfl⟩

/-! ## Opening a session

A session starts at the end of the stored history of its task. It has a wakeup token exactly
when its claim has a wakeup, and the token names the boundary that the task is parked at. -/

open List Except

variable {t : TaskId}

theorem describe_ok {x : Except DurableError α} {a : α} : describe x = .ok a ↔ x = .ok a := by
  cases x <;> simp [describe, Except.mapError]

theorem sequenceAfter_range (hrange : events.map (fun ev => ev.sequence) = range events.length)
    (hseq : sequenceAfter events = .ok n) : n = events.length := by
  have hlast : events.getLast?.map (fun ev => ev.sequence) = (range events.length).getLast? := by
    rw [← hrange, getLast?_map]
  unfold sequenceAfter at hseq
  cases hevent : events.getLast? with
  | none =>
    rw [hevent, ok.injEq] at hseq
    rw [getLast?_eq_none_iff.mp hevent, ← hseq]
    rfl
  | some =>
    have hne : events.length ≠ 0 := by
      intro hzero
      rw [length_eq_zero_iff.mp hzero] at hevent
      cases hevent
    rw [hevent, Option.map_some, getLast?_range, if_neg hne, Option.some.injEq] at hlast
    simp only [hevent, hlast] at hseq
    split at hseq
    · obtain ⟨-, rfl⟩ := checkedAdd_eq_some.mp ‹_›
      have := ok.inj hseq
      omega
    · cases hseq

theorem sequenceAfter_loaded (hist : db.HistoryOk t) {history : History J}
    (hload : loadHistory S db t = .ok history) (hseq : sequenceAfter history.events = .ok n) :
    n = db.nextSequence t := by
  obtain ⟨hrows, -⟩ := loadHistory_rows hist hload
  have hlength : history.events.length = (db.eventsOf t).length := by
    simpa using congrArg length hrows
  have hrange : history.events.map (fun ev => ev.sequence) = range history.events.length := by
    rw [hlength, ← hist.sequences, ← hrows, map_map]
    rfl
  rw [hist.nextSequence, sequenceAfter_range hrange hseq, hlength]

structure Loaded (S : Crates J) (db : Db) (store : Option ExecutionClaim) (t : TaskId)
    (c : Option WakeupClaim) (s : DurableSession J) : Prop where
  ofStore : s.store = store
  ofTask : s.taskId = t
  history : loadHistory S db t = .ok ⟨t, s.replay.events⟩
  position : s.replay.position = 0
  sequence : sequenceAfter s.replay.events = .ok s.nextSequence
  token : activeToken db t s.replay.events s.nextSequence c = .ok s.activeWakeup
  awake : s.suspended = false
  noSleep : s.replayedSleep = none
  noError : s.storageError = none

variable {store : Option ExecutionClaim} {c : Option WakeupClaim} {s : DurableSession J}

theorem load_loaded (h : load S db store t c = .ok s) : Loaded S db store t c s := by
  simp only [load, bind_ok, pure_ok, describe_ok] at h
  obtain ⟨⟨u, events⟩, hload, _, hseq, _, htok, rfl⟩ := h
  obtain rfl : u = t := by
    simp only [loadHistory, bind_ok, pure_ok] at hload
    obtain ⟨events, -, ⟨⟩⟩ := hload
    rfl
  exact ⟨rfl, rfl, hload, rfl, hseq, htok, rfl, rfl, rfl⟩

theorem Loaded.lease (h : Loaded S db store t c s) (until_ : Option ℕ) :
    Loaded S db store t c { s with leaseUntilMs := until_ } :=
  ⟨h.ofStore, h.ofTask, h.history, h.position, h.sequence, h.token, h.awake, h.noSleep, h.noError⟩

theorem Loaded.nextSequence (h : Loaded S db store t c s) (hist : db.HistoryOk t) :
    s.nextSequence = db.nextSequence t :=
  sequenceAfter_loaded hist h.history h.sequence

/-! ## Sessions of claims -/

/-- An opened session, and the wakeup row that a resumed one has matched. -/
theorem fromExecution_loaded {c : ExecutionClaim} (h : fromExecution S db c clock = .ok s) :
    (c.wakeup = none ∧ Loaded S db (some c) c.taskId none s) ∨
      ∃ wakeup w, c.wakeup = some wakeup ∧ db.wakeups.get? wakeup.taskId = some w ∧
        wakeup.matches w = true ∧ Loaded S db (some c) wakeup.taskId (some wakeup) s := by
  unfold fromExecution at h
  cases hwakeup : c.wakeup with
  | none =>
    simp only [hwakeup, bind_ok, pure_ok] at h
    obtain ⟨_, hload, rfl⟩ := h
    exact .inl ⟨rfl, (load_loaded hload).lease _⟩
  | some wakeup =>
    simp only [hwakeup, fromClaim, bind_ok, pure_ok, describe_ok, reject_ok] at h
    obtain ⟨_, ⟨_, -, -, -, _, hactive, -, htrue, hload⟩, rfl⟩ := h
    rw [not_eq_false] at htrue
    subst htrue
    simp only [claimIsActive, bind_ok, pure_ok] at hactive
    obtain ⟨-, -, _, -, hany⟩ := hactive
    rw [Option.any_eq_true] at hany
    obtain ⟨w, hw, hmatch⟩ := hany
    rw [and_eq_true] at hmatch
    exact .inr ⟨wakeup, w, rfl, hw, hmatch.1, (load_loaded hload).lease _⟩

/-- The token of a resumed session belongs to the sleep or the wait of the claimed wakeup. -/
theorem wakeupToken_cases (h : wakeupToken db t events n wakeup = .ok token) :
    token.sequence = wakeup.sequence ∧ token.claim = some wakeup ∧
      ((token.kind = .sleep ∧ n = wakeup.sequence + 1 ∧
          ∃ ev, events.getLast? = some ev ∧ ev.sequence = wakeup.sequence ∧
            ev.kind = .sleep) ∨ (token.kind = .signal ∧ n = wakeup.sequence ∧
          ∃ wait, db.signalWaits.get? t = some wait ∧ wait.sequence = wakeup.sequence)) := by
  unfold wakeupToken at h
  split at h
  · rename_i hsleep
    obtain rfl := ok.inj h
    obtain ⟨hn, hlast⟩ := hsleep
    rw [Option.any_eq_true] at hlast
    obtain ⟨ev, hevent, hmatch⟩ := hlast
    simp only [decide_eq_true_eq] at hmatch
    exact ⟨rfl, rfl, .inl ⟨rfl, hn, ev, hevent, hmatch⟩⟩
  split at h
  · rename_i hsignal
    obtain rfl := ok.inj h
    obtain ⟨hn, hwait⟩ := hsignal
    rw [Option.any_eq_true] at hwait
    obtain ⟨_, hget, hsequence⟩ := hwait
    simp only [signalWait, Option.map_eq_some_iff] at hget
    obtain ⟨row, hrow, rfl⟩ := hget
    exact ⟨rfl, rfl, .inr ⟨rfl, hn, row, hrow, by simpa using hsequence⟩⟩
  · cases h

theorem Loaded.resumed (h : Loaded S db store t (some wakeup) s) :
    ∃ token, s.activeWakeup = some token ∧
      wakeupToken db t s.replay.events s.nextSequence wakeup = .ok token := by
  have htok := h.token
  simp only [activeToken, bind_ok, pure_ok] at htok
  obtain ⟨token, hok, hsome⟩ := htok
  exact ⟨token, hsome.symm, hok⟩

end Tysel.Engine
