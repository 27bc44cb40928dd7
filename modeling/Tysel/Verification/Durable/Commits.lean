import Tysel.Verification.Durable.Checks

/-! # What the operations commit -/

namespace Tysel.Durable

open List Option Prod Table Effect

variable {J : Type} {S : Crates J} {db db' : Db} {t : TaskId} {time : ℕ} {r : Bool}
  {key owner hash : String} {new : NewEvent J} {w : WakeupRow} {u : Unit} {sequence : ℕ}

/-! ## Programs -/

theorem putProgramInner_commits {kind : DurableProgramKind} {source : String}
    {r : Option DurableProgram} (h : putProgramInner S db t kind source time = .ok (r, db')) :
    (r.isSome ∧ db' = db) ∨ ∃ row, Enabled S db (.register t row) ∧
        db' = apply db (.register t row) := by
  simp only [putProgramInner, bind_ok, validateProgramSource_ok, toSqlInteger_ok,
    ensureOpen_ok, exists_const] at h
  obtain ⟨⟨hne, hbytes⟩, time', ⟨-, rfl⟩, hopen, existing, hsel, h⟩ := h
  cases existing with
  | some =>
    simp only [bind_ok, pure_ok, mk.injEq] at h
    obtain ⟨-, -, rfl, rfl⟩ := h
    exact .inl ⟨rfl, rfl⟩
  | none =>
    simp only [bind_ok, pure_ok, selectProgramStats_ok, reject_ok, not_le, not_lt,
      mk.injEq, exists_const] at h
    obtain ⟨stats, hstats, hcount, htotal, -, rfl⟩ := h
    exact .inr ⟨_, ⟨hopen, selectProgram_eq_none.mp hsel, ⟨stats, hstats, hcount, htotal⟩,
      ⟨hne, hbytes, rfl⟩⟩, rfl⟩

theorem removeProgram_commits {r : Option DurableProgram}
    (h : removeProgram S db t = .ok (r, db')) : (r = none ∧ db' = db) ∨
      ∃ p row, r = some p ∧ Enabled S db (.unregister t row) ∧
        db' = apply db (.unregister t row) := by
  simp only [removeProgram, bind_ok, ensureOpen_ok, exists_const] at h
  obtain ⟨hopen, existing, hsel, h⟩ := h
  cases existing with
  | none =>
    exact .inl (pair_ok h)
  | some =>
    simp only [bind_ok, pure_ok, reject_ok, dischargeProgram_ok, mk.injEq, exists_const] at h
    obtain ⟨huse, _, ⟨hcharged, rfl⟩, rfl, rfl⟩ := h
    obtain ⟨row, hrow, hdec⟩ := selectProgram_eq_some.mp hsel
    obtain ⟨-, rfl⟩ := decodeProgram_ok.mp hdec
    exact .inr ⟨_, row, rfl, ⟨hopen, hrow, huse, hcharged⟩, rfl⟩

/-! ## Events -/

/-- What a successful append has written and returned. -/
structure Appended (ex : Option ExecutionClaim) (db db' : Db)
    (t : TaskId) (exp : Option ℕ) (kind : EventKind) (key payload : String) (time : ℕ)
    (wakeAtMs : Option ℕ) (clock : ℤ) (ev : TaskEvent J) : Prop where
  guarded : ∀ claim, ex = some claim → claim.Passes db t clock
  appendable : db.Appendable ev.row
  expects : ∀ n, exp = some n → n = ev.sequence
  row : ev.row = ⟨t, ev.sequence, kind, key, payload, time⟩
  commits : db' = apply db (.append ev.row wakeAtMs)

variable {ex : Option ExecutionClaim} {payload : String} {ev : TaskEvent J} {c₁ c₂ : ℤ}

theorem appendValidated_commits {exp : Option ℕ} (new : NewEvent J) {wakeAtMs : Option ℕ}
    (h : appendValidated ex db t exp new payload new.recordedAtMs wakeAtMs c₁ c₂ = .ok (ev, db')) :
    Appended ex db db' t exp new.kind new.key payload new.recordedAtMs wakeAtMs c₁
        ev ∧ ev.payload = new.payload := by
  simp only [appendValidated, bind_ok, guardExecution_ok, pure_ok, mk.injEq,
    exists_const, Prod.exists, insertEvent_ok] at h
  obtain ⟨hguard, _, _, ⟨happ, hexp, rfl⟩, -, rfl, rfl⟩ := h
  refine ⟨⟨hguard, happ, hexp, rfl, ?_⟩, rfl⟩
  cases wakeAtMs <;> rfl

theorem appendEventJsonAt_commits {exp : ℕ} {kind : EventKind}
    (h : appendEventJsonAt S ex db t exp kind key payload time c₁ c₂ = .ok (ev, db')) :
    Appended ex db db' t (some exp) kind key payload time none c₁ ev ∧
      S.fromStr payload = some ev.payload := by
  simp only [appendEventJsonAt, bind_ok, rawEvent_ok, toSqlInteger_ok] at h
  obtain ⟨_, ⟨-, -, v, hparse, rfl⟩, _, ⟨-, rfl⟩, h⟩ := h
  obtain ⟨happ, hvalue⟩ := appendValidated_commits ⟨kind, key, v, time⟩ h
  exact ⟨happ, by rw [hparse, hvalue]⟩

theorem appendEventJsonWithWakeupAt_commits {exp : ℕ} {wake : ℕ}
    (h : appendEventJsonWithWakeupAt S ex db t exp key payload time wake c₁ c₂ = .ok (ev, db')) :
    Appended ex db db' t (some exp) .sleep key payload time (some wake) c₁ ev ∧
      S.fromStr payload = some ev.payload := by
  simp only [appendEventJsonWithWakeupAt, bind_ok, rawEvent_ok, toSqlInteger_ok] at h
  obtain ⟨_, ⟨-, -, v, hparse, rfl⟩, _, ⟨-, rfl⟩, _, ⟨-, rfl⟩, h⟩ := h
  obtain ⟨happ, hvalue⟩ := appendValidated_commits ⟨.sleep, key, v, time⟩ h
  exact ⟨happ, by rw [hparse, hvalue]⟩

theorem appendEventInner_commits {exp : Option ℕ}
    (h : appendEventInner S ex db t exp new c₁ c₂ = .ok (ev, db')) :
    Appended ex db db' t exp new.kind new.key (S.toStr new.payload)
      new.recordedAtMs none c₁ ev := by
  simp only [appendEventInner, bind_ok, Prod.exists, validateEvent_ok] at h
  obtain ⟨_, _, ⟨-, -, -, rfl, rfl⟩, h⟩ := h
  exact (appendValidated_commits new h).1

theorem appendEventWithWakeupInner_commits {exp : Option ℕ} {wake : ℕ}
    (h : appendEventWithWakeupInner S ex db t exp new wake c₁ c₂ = .ok (ev, db')) :
    Appended ex db db' t exp new.kind new.key (S.toStr new.payload)
      new.recordedAtMs (some wake) c₁ ev := by
  simp only [appendEventWithWakeupInner, bind_ok, Prod.exists, validateEvent_ok,
    toSqlInteger_ok] at h
  obtain ⟨_, _, ⟨-, -, -, rfl, rfl⟩, _, ⟨-, rfl⟩, h⟩ := h
  exact (appendValidated_commits new h).1

/-! ## Wakeups -/

variable {ms duration : ℕ} {claim : WakeupClaim}

theorem scheduleWakeup_commits {w : Wakeup} (h : scheduleWakeup db w = .ok (u, db')) :
    Enabled S db (.schedule w.taskId w.sequence w.wakeAtMs) ∧
      db' = apply db (.schedule w.taskId w.sequence w.wakeAtMs) := by
  simp only [scheduleWakeup, bind_ok, ensureOpen_ok, toSqlInteger_ok, pure_ok,
    mk.injEq, exists_const] at h
  obtain ⟨hopen, _, ⟨-, rfl⟩, _, ⟨-, rfl⟩, -, rfl⟩ := h
  exact ⟨hopen, rfl⟩

theorem setWakeup_eq_lease (owner : Option String) (until_ : Option ℕ)
    (h : db.wakeups.get? t = some w) :
    db.setWakeup t { w with leaseOwner := owner, leaseUntilMs := until_ } =
      apply db (.lease t owner until_) := by
  simp [apply, Db.leaseWakeup, Db.setWakeup, Table.modify, h]

def Effect.IsLease : Effect → Prop
  | .lease .. => True
  | _ => False

theorem claimCandidates_commits (owner : String) (until_ now : ℕ)
    (cands : List (TaskId × WakeupRow)) (db : Db) :
    ∃ es, (effects S).Chain db es (claimCandidates owner until_ now cands db).2 ∧
      ∀ e ∈ es, e.IsLease := by
  induction cands generalizing db with
  | nil => exact ⟨[], .nil db, by simp⟩
  | cons candidate _ ih =>
    obtain ⟨t, row⟩ := candidate
    unfold claimCandidates
    cases hw : db.wakeups.get? t with
    | none => exact ih db
    | some w =>
      by_cases hc : w.sequence = row.sequence ∧ w.claimable now
      · obtain ⟨es, hchain, hes⟩ := ih (apply db (.lease t (some owner) (some until_)))
        refine ⟨.lease t (some owner) (some until_) :: es,
          .cons (by simp [effects, Enabled, hw]) ?_, ?_⟩
        · simp only [if_pos hc, setWakeup_eq_lease (some owner) (some until_) hw]
          exact hchain
        · simpa [IsLease] using hes
      · simpa [hc] using ih db

def WakeupRow.claimBy (t : TaskId) (w : WakeupRow) (owner : String) (until_ : ℕ) : WakeupClaim :=
  ⟨t, w.sequence, w.wakeAtMs, owner, until_⟩

/-- Candidates that are due rows of distinct tasks are all claimed, and no other row changes. -/
theorem claimCandidates_eq (owner : String) (until_ : ℕ) {now : ℕ}
    {cands : List (TaskId × WakeupRow)}
    (hrows : ∀ p ∈ cands, db.wakeups.get? p.1 = some p.2 ∧ p.2.claimable now)
    (hnodup : (cands.map fst).Nodup) : claimCandidates owner until_ now cands db =
      (cands.map fun p => p.2.claimBy p.1 owner until_, { db with
          wakeups := (cands.map fst).foldl (fun x t => x.modify t fun w =>
            { w with leaseOwner := some owner, leaseUntilMs := some until_ }) db.wakeups }) := by
  induction cands generalizing db with
  | nil => rfl
  | cons p _ ih =>
    obtain ⟨t, _⟩ := p
    obtain ⟨hget, hdue⟩ := hrows _ (mem_cons_self ..)
    obtain ⟨hnew, hnodup⟩ := nodup_cons.mp hnodup
    simp only [claimCandidates, hget, hdue, and_self, if_true]
    rw [ih (fun q hq => ?_) hnodup]
    · simp [Table.modify, hget, WakeupRow.claimBy, Db.setWakeup]
    · have hne : q.1 ≠ t := fun heq => hnew (mem_map.mpr ⟨q, hq, heq⟩)
      obtain ⟨hget', hdue'⟩ := hrows q (mem_cons_of_mem _ hq)
      exact ⟨(get?_insert_ne hne).trans hget', hdue'⟩

def Db.dueWakeups (db : Db) (now limit : ℕ) : List (TaskId × WakeupRow) :=
  (((db.wakeups.entries.filter fun e => e.2.claimable now).map
    fun e => (e.1, e.2)).insertionSort wakeupOrder).take (min limit maxWakeupBatch)

theorem Db.dueWakeups_sublist (now limit : ℕ) : (db.dueWakeups now limit).Sublist
    ((db.wakeups.select fun _ w => w.claimable now).insertionSort wakeupOrder) :=
  take_sublist _ _

theorem Db.dueWakeups_rows (now limit : ℕ) :
    ∀ p ∈ db.dueWakeups now limit, db.wakeups.get? p.1 = some p.2 ∧ p.2.claimable now :=
  fun _ hp => mem_select.mp
    ((mem_insertionSort wakeupOrder).mp ((db.dueWakeups_sublist now limit).subset hp))

theorem Db.dueWakeups_nodup (now limit : ℕ) : ((db.dueWakeups now limit).map fst).Nodup :=
  (((perm_insertionSort wakeupOrder _).map _).nodup_iff.mpr nodup_select).sublist
    ((db.dueWakeups_sublist now limit).map _)

theorem claimDueWakeups_commits {limit : ℕ} {r : List WakeupClaim}
    (h : claimDueWakeups db ms limit owner duration = .ok (r, db')) :
    ∃ es, (effects S).Chain db es db' ∧ ∀ e ∈ es, e.IsLease := by
  simp only [claimDueWakeups, bind_ok] at h
  obtain ⟨-, -, h⟩ := h
  split at h
  · obtain ⟨-, rfl⟩ := pair_ok h
    exact ⟨[], .nil _, by simp⟩
  simp only [bind_ok, pure_ok] at h
  obtain ⟨now, -, _, -, until_, -, h⟩ := h
  obtain ⟨es, hchain, hes⟩ := claimCandidates_commits owner until_ now (db.dueWakeups now limit) db
  replace h : claimCandidates owner until_ now (db.dueWakeups now limit) db = (r, db') := h
  rw [h] at hchain
  exact ⟨es, hchain, hes⟩

/-- The outcome of an operation on one wakeup row: nothing, or a change of its lease. -/
def LeaseOnly (db db' : Db) (t : TaskId) : Prop :=
  db' = db ∨ ∃ owner until_, (db.wakeups.get? t).isSome ∧ db' = apply db (.lease t owner until_)

theorem LeaseOnly.of_row {owner : Option String} {until_ : Option ℕ}
    (h : db.wakeups.get? t = some w) (hdb : db' = apply db (.lease t owner until_)) :
    LeaseOnly db db' t :=
  .inr ⟨owner, until_, by simp [h], hdb⟩

theorem claimWakeup_commits {r : Option WakeupClaim}
    (h : claimWakeup db t ms owner duration = .ok (r, db')) :
    r = none ∧ db' = db ∨ ∃ w until_, db.wakeups.get? t = some w ∧ w.claimable ms ∧
      leaseDeadline ms duration = .ok until_ ∧ r = some (w.claimBy t owner until_) ∧
        db' = apply db (.lease t (some owner) (some until_)) := by
  simp only [claimWakeup, bind_ok, toSqlInteger_ok] at h
  obtain ⟨-, -, _, ⟨-, rfl⟩, until_, hdeadline, _, ⟨-, rfl⟩, h⟩ := h
  split at h
  · exact .inl (pair_ok h)
  rename_i w hw
  split at h
  · obtain ⟨rfl, rfl⟩ := pair_ok h
    exact .inr ⟨w, until_, hw, ‹_›, hdeadline, rfl, setWakeup_eq_lease _ _ hw⟩
  · exact .inl (pair_ok h)

theorem WakeupClaim.matches_iff : claim.matches w = true ↔
      w.sequence = claim.sequence ∧ w.wakeAtMs = claim.wakeAtMs ∧
        w.leaseOwner = some claim.leaseOwner ∧ w.leaseUntilMs = some claim.leaseUntilMs := by
  simp [WakeupClaim.matches, and_assoc]

theorem renewWakeupClaim_commits
    {r : Option WakeupClaim} (h : renewWakeupClaim db claim ms duration = .ok (r, db')) :
    r = none ∧ db' = db ∨ ∃ w until_ new, db.wakeups.get? claim.taskId = some w ∧
      claim.matches w = true ∧ r = some new ∧
        db' = apply db (.lease claim.taskId w.leaseOwner (some until_)) := by
  simp only [renewWakeupClaim, bind_ok] at h
  obtain ⟨-, -, _, -, until_, -, -, -, _, -, h⟩ := h
  split at h
  · exact .inl (pair_ok h)
  rename_i w hw
  split at h
  · rename_i hmatch
    obtain ⟨rfl, rfl⟩ := pair_ok h
    exact .inr ⟨w, until_, _, hw, hmatch.1, rfl, setWakeup_eq_lease _ _ hw⟩
  · exact .inl (pair_ok h)

theorem releaseWakeupClaim_commits (h : releaseWakeupClaim db claim = .ok (r, db')) :
    r = false ∧ db' = db ∨ ∃ w, db.wakeups.get? claim.taskId = some w ∧ claim.matches w = true ∧
      r = true ∧ db' = apply db (.lease claim.taskId none none) := by
  simp only [releaseWakeupClaim, bind_ok] at h
  obtain ⟨-, -, -, -, h⟩ := h
  split at h
  · exact .inl (pair_ok h)
  rename_i w hw
  split at h
  · obtain ⟨rfl, rfl⟩ := pair_ok h
    exact .inr ⟨w, hw, ‹_›, rfl, setWakeup_eq_lease _ _ hw⟩
  · exact .inl (pair_ok h)

theorem completeWakeup_commits {owner : Option String}
    (h : completeWakeup ex db t sequence owner ms c₁ c₂ = .ok (r, db')) :
    (∀ claim, ex = some claim → claim.Passes db t c₁) ∧ ((r = false ∧ db' = db) ∨
        (r = true ∧ db' = apply db (.wake t) ∧
          ∃ w, db.wakeups.get? t = some w ∧ w.completable sequence owner ms = true)) := by
  simp only [completeWakeup, bind_ok, guardExecution_ok, toSqlInteger_ok, pure_ok,
    mk.injEq, exists_const] at h
  obtain ⟨hguard, _, ⟨-, rfl⟩, _, ⟨-, rfl⟩, -, -, -, hr, hdb⟩ := h
  rw [hr] at hdb
  refine ⟨hguard, ?_⟩
  cases r with
  | false => exact .inl ⟨rfl, hdb.symm⟩
  | true =>
    refine .inr ⟨rfl, hdb.symm, ?_⟩
    cases hw : db.wakeups.get? t with
    | none => simp [hw] at hr
    | some w => exact ⟨w, rfl, by simpa [hw] using hr⟩

/-! ## Sending -/

def Db.Unreceipted (db : Db) (t : TaskId) (key : Option String) : Prop :=
  ∀ k, key = some k → db.receipt? t k = none

variable {name : String} {id exp : ℕ}

theorem checkReceipt_eq_none : checkReceipt S db t name payload key = .ok none →
      db.receipt? t key = none ∧ (db.programs.get? t).isSome := by
  intro h
  simp only [checkReceipt, bind_ok] at h
  obtain ⟨-, -, h⟩ := h
  cases hr : db.receipt? t key with
  | some =>
    simp only [hr, bind_ok, pure_ok, reduceCtorEq, and_false, exists_false] at h
  | none =>
    simp only [hr, bind_ok, reject_ok, pure_ok, exists_const] at h
    exact ⟨rfl, by simpa [isSome_iff_ne_none] using h.2.1⟩

theorem checkReceipt_eq_some (h : checkReceipt S db t name payload key = .ok (some id)) :
    ∃ rc, db.receipt? t key = some rc ∧ rc.signalName = name ∧
      rc.payload = S.sha256 payload ∧ rc.signalId = id := by
  simp only [checkReceipt, bind_ok] at h
  obtain ⟨-, -, h⟩ := h
  cases hr : db.receipt? t key with
  | some rc =>
    simp only [hr, bind_ok, reject_ok, pure_ok, not_or, not_not, some.injEq, exists_const] at h
    exact ⟨rc, rfl, h.1.1, h.1.2, h.2⟩
  | none =>
    simp only [hr, bind_ok, pure_ok, reduceCtorEq, and_false, exists_false] at h

def receiptOf (S : Crates J) (t : TaskId) (key : Option String) (name payload : String)
    (id : ℕ) : Option ReceiptRow :=
  key.map fun k => ⟨t, k, name, S.sha256 payload, id⟩

/-- A successful send either repeats a stored receipt and changes nothing, or is accepted. -/
theorem sendSignalInner_commits {payload : J} {key : Option String}
    (h : sendSignalInner S db t name payload time key = .ok (id, db')) :
    (∃ k rc, key = some k ∧ db.receipt? t k = some rc ∧
        rc.signalName = name ∧ rc.payload = S.sha256 (S.toStr payload) ∧
        rc.signalId = id ∧ db' = db) ∨ (db.Unreceipted t key ∧
        Enabled S db (.signal ⟨id, t, name, S.toStr payload, time⟩
          (receiptOf S t key name (S.toStr payload) id)) ∧
        db' = apply db (.signal ⟨id, t, name, S.toStr payload, time⟩
          (receiptOf S t key name (S.toStr payload) id))) := by
  simp only [sendSignalInner, bind_ok, toSqlInteger_ok] at h
  obtain ⟨-, -, -, -, _, ⟨-, rfl⟩, prior, hprior, h⟩ := h
  cases prior with
  | some =>
    obtain ⟨rfl, rfl⟩ := pair_ok h
    cases key with
    | none => simp [checkPrior] at hprior
    | some k =>
      obtain ⟨rc, hr, hname, hpay, hid⟩ := checkReceipt_eq_some hprior
      exact .inl ⟨k, rc, rfl, hr, hname, hpay, hid, rfl⟩
  | none =>
    cases key with
    | none =>
      simp only [deliverSignal, bind_ok, ensureOpen_ok, pure_ok, mk.injEq, exists_const] at h
      obtain ⟨hopen, -, -, rfl, rfl⟩ := h
      refine .inr ⟨by simp [Db.Unreceipted], ⟨hopen, rfl, by simp [receiptOf]⟩, ?_⟩
      simp [apply, Db.insertReceipt?, receiptOf]
    | some =>
      simp only [deliverSignal, bind_ok, ensureOpen_ok, pure_ok, mk.injEq, exists_const] at h
      obtain ⟨hopen, -, -, rfl, rfl⟩ := h
      obtain ⟨hnone, hprog⟩ := checkReceipt_eq_none hprior
      refine .inr ⟨?_, ⟨hopen, rfl, ?_⟩, rfl⟩
      · rintro _ ⟨⟩
        exact hnone
      · rintro - ⟨⟩
        exact ⟨rfl, rfl, rfl, hnone, hprog⟩

/-! ## Polling -/

theorem takeSignalWakeup_commits {claim : Option WakeupClaim}
    (hwait : ∀ w, db.signalWaits.get? t = some w → w = ⟨exp, name⟩)
    (h : takeSignalWakeup db t exp ms claim = .ok db') :
    db.Entitled t ⟨exp, name⟩ claim.isSome ∧
      db' = (if claim.isSome then db.deleteWakeup t else db) ∧
      ∀ c, claim = some c → c.sequence = exp ∧
        ∃ w, db.wakeups.get? t = some w ∧ c.matches w = true := by
  cases claim with
  | some c =>
    simp only [takeSignalWakeup, bind_ok, reject_ok, pure_ok, not_or, exists_const] at h
    obtain ⟨⟨hsome, -, hsequence⟩, -, -, hmatch, rfl⟩ := h
    obtain ⟨wait, hw⟩ : ∃ wait, db.signalWaits.get? t = some wait :=
      ne_none_iff_exists'.mp (by simpa using hsome)
    cases hwake : db.wakeups.get? t with
    | none => simp [hwake] at hmatch
    | some w =>
      have hm : c.matches w = true := by simp_all
      refine ⟨?_, rfl, ?_⟩
      · simp [Db.Entitled, hw, hwait wait hw, hwake]
      · rintro _ ⟨⟩
        exact ⟨not_not.mp hsequence, w, rfl, hm⟩
  | none =>
    simp only [takeSignalWakeup, bind_ok, reject_ok, pure_ok, exists_const] at h
    obtain ⟨hnowait, hnowake, rfl⟩ := h
    exact ⟨⟨by simpa using hnowait, by simpa using hnowake⟩, rfl, by simp⟩

theorem registerSignalWait_commits (h : registerSignalWait db t sequence name = .ok db') :
    (db.signalWaits.get? t = some ⟨sequence, name⟩ ∧ db' = db) ∨
      (db.signalWaits.get? t = none ∧ db' = apply db (.wait t ⟨sequence, name⟩)) := by
  unfold registerSignalWait at h
  cases hw : db.signalWaits.get? t with
  | some =>
    simp only [hw, bind_ok, reject_ok, pure_ok, not_or, not_not, exists_const] at h
    obtain ⟨⟨rfl, rfl⟩, rfl⟩ := h
    exact .inl ⟨rfl, rfl⟩
  | none =>
    simp only [hw, bind_ok, toSqlInteger_ok, pure_ok] at h
    obtain ⟨_, ⟨-, rfl⟩, rfl⟩ := h
    exact .inr ⟨rfl, rfl⟩

/-- A poll that found no signal: the wait is registered, now or before. -/
structure PolledNone (ex : Option ExecutionClaim) (db db' : Db) (t : TaskId)
    (exp : ℕ) (name : String) (clock : ℤ) : Prop where
  guarded : ∀ claim, ex = some claim → claim.Passes db t clock
  isOpen : db.IsOpen t
  expects : exp = db.nextSequence t
  empty : db.oldestSignal t name = none
  commits : (db.signalWaits.get? t = some ⟨exp, name⟩ ∧ db' = db) ∨
    (db.signalWaits.get? t = none ∧ db' = apply db (.wait t ⟨exp, name⟩))

/-- A poll that consumed the oldest queued signal. -/
structure PolledSome (S : Crates J) (ex : Option ExecutionClaim) (db db' : Db)
    (t : TaskId) (exp : ℕ) (name : String) (claim : Option WakeupClaim) (clock : ℤ)
    (ev : TaskEvent J) (queued : InboxRow) : Prop where
  guarded : ∀ claim, ex = some claim → claim.Passes db t clock
  enabled : Enabled S db (.consume ev.row queued claim.isSome)
  row : ev.row = ⟨t, exp, .signal, name, queued.payload, queued.sentAtMs⟩
  parses : S.fromStr queued.payload = some ev.payload
  entitled : ∀ c, claim = some c → c.sequence = exp ∧
    ∃ w, db.wakeups.get? t = some w ∧ c.matches w = true
  commits : db' = apply db (.consume ev.row queued claim.isSome)

theorem Db.oldestSignal_mem {row : InboxRow} (h : db.oldestSignal t name = some row) :
    row ∈ db.signalInbox ∧ row.taskId = t ∧ row.signalName = name := by
  have hmem := mem_of_mem_head? (mem_def.mpr h)
  simp only [mem_insertionSort, mem_filter, Db.inboxOf, decide_eq_true_eq] at hmem
  exact ⟨hmem.1.1, hmem.1.2, hmem.2⟩

theorem pollSignal_commits {claim : Option WakeupClaim} {r : Option (TaskEvent J)}
    (h : pollSignal S ex db t exp name ms claim c₁ c₂ = .ok (r, db')) :
    (r = none ∧ PolledNone ex db db' t exp name c₁) ∨ ∃ ev queued, r = some ev ∧
        PolledSome S ex db db' t exp name claim c₁ ev queued := by
  simp only [pollSignal, bind_ok, guardExecution_ok, toSqlInteger_ok, ensureOpen_ok,
    reject_ok, not_not, exists_const] at h
  obtain ⟨-, -, _, ⟨-, rfl⟩, hguard, hopen, hexp, hconf, h⟩ := h
  have hwait : ∀ w, db.signalWaits.get? t = some w → w = ⟨exp, name⟩ := by
    intro w hw
    obtain ⟨_, _⟩ := w
    simpa [hw] using hconf
  cases hq : db.oldestSignal t name with
  | none =>
    simp only [hq, bind_ok, pure_ok, mk.injEq] at h
    obtain ⟨_, hreg, -, -, rfl, rfl⟩ := h
    exact .inl ⟨rfl, hguard, hopen, hexp.symm, hq, registerSignalWait_commits hreg⟩
  | some queued =>
    simp only [hq, bind_ok, pure_ok, Prod.exists, mk.injEq] at h
    obtain ⟨_, htake, _, _, hcons, -, -, rfl, rfl⟩ := h
    obtain ⟨hent, rfl, hmatch⟩ := takeSignalWakeup_commits hwait htake
    simp only [consumeSignal, bind_ok, parseJson_ok, Prod.exists, insertEvent_ok,
      pure_ok, mk.injEq] at hcons
    obtain ⟨_, hparse, _, _, ⟨happ, hsequence, rfl⟩, rfl, rfl⟩ := hcons
    obtain rfl := hsequence exp rfl
    obtain ⟨-, -, rfl⟩ := Db.oldestSignal_mem hq
    refine .inr ⟨_, queued, rfl, hguard, ?_, rfl, hparse, hmatch, ?_⟩
    · refine ⟨⟨hopen, ?_, ?_⟩, hq, rfl, rfl, hent⟩
      · have := happ.room
        cases claim <;> exact this
      · have := happ.sequence
        cases claim <;> exact this
    · cases claim <;> rfl

/-! ## Admission -/

variable {before limit : ℕ} {source input : String}

/-- The canonical text of an admission's input, as its first event records it. -/
def canonicalInput (S : Crates J) (input : String) : String :=
  ((S.fromStr input).map S.toStr).getD ""

theorem fingerprint_ok {canonical : String}
    (h : fingerprint S source input = .ok (hash, canonical)) :
    source ≠ "" ∧ source.utf8ByteSize ≤ maxDurableProgramBytes ∧
      hash = S.sha256 (source ++ "\x00" ++ canonical) ∧ canonical = canonicalInput S input := by
  simp only [fingerprint, bind_ok, validateProgramSource_ok, parseJson_ok, pure_ok,
    mk.injEq, exists_const] at h
  obtain ⟨⟨hne, hbytes⟩, -, -, _, hparse, rfl, rfl⟩ := h
  exact ⟨hne, hbytes, rfl, by simp [canonicalInput, hparse]⟩

theorem admitNew_commits (hne : source ≠ "") (hbytes : source.utf8ByteSize ≤ maxDurableProgramBytes)
    (hnone : db.executions.get? t = none)
    (h : admitNew S db t key source hash input time = .ok (u, db')) :
    Enabled S db (.admitModule t ⟨.module, source, S.sha256 source, time⟩
        ⟨t, 0, .step, taskInputKey, input, time⟩ key hash) ∧
      db' = apply db (.admitModule t ⟨.module, source, S.sha256 source, time⟩
        ⟨t, 0, .step, taskInputKey, input, time⟩ key hash) ∧ (S.fromStr input).isSome := by
  simp only [admitNew, bind_ok, reject_ok, selectProgramStats_ok, toSqlInteger_ok,
    rawEvent_ok, Prod.exists, insertEvent_ok, pure_ok, mk.injEq, not_le, not_lt,
    exists_const] at h
  obtain ⟨existing, hsel, hno, stats, hstats, hcount, htotal, _, ⟨-, rfl⟩, _,
    ⟨-, -, _, hparse, rfl⟩, _, _, ⟨happ, hexp, rfl⟩, -, rfl⟩ := h
  obtain rfl := hexp 0 rfl
  obtain rfl : existing = none := by simpa using hno
  refine ⟨⟨⟨happ.isOpen, happ.room, happ.sequence⟩, rfl, rfl, rfl, hnone,
    selectProgram_eq_none.mp hsel, ⟨stats, hstats, hcount, htotal⟩, hne, hbytes, rfl⟩, rfl, ?_⟩
  simp [hparse]

/-- A successful admission repeats an identical earlier one, or registers the task. -/
theorem admitModule_commits (h : admitModule S db t key source input time = .ok (u, db')) :
    ((db.executions.get? t).isSome ∧ db' = db) ∨ (db.executions.get? t = none ∧
        ∃ program hash, Enabled S db (.admitModule t program
            ⟨t, 0, .step, taskInputKey, canonicalInput S input, time⟩ key hash) ∧
          db' = apply db (.admitModule t program
            ⟨t, 0, .step, taskInputKey, canonicalInput S input, time⟩ key hash) ∧
          program.programKind = .module ∧ program.source = source ∧
          (S.fromStr (canonicalInput S input)).isSome) := by
  simp only [admitModule, bind_ok, Prod.exists] at h
  obtain ⟨-, -, _, _, hfp, h⟩ := h
  obtain ⟨hne, hbytes, -, rfl⟩ := fingerprint_ok hfp
  cases hrow : db.executions.get? t with
  | some =>
    simp only [hrow, bind_ok, pure_ok, mk.injEq] at h
    obtain ⟨-, -, -, rfl⟩ := h
    exact .inl ⟨rfl, rfl⟩
  | none =>
    simp only [hrow] at h
    obtain ⟨hen, hdb, hparse⟩ := admitNew_commits hne hbytes hrow h
    exact .inr ⟨rfl, _, _, hen, hdb, rfl, rfl, hparse⟩

/-! ## Claims -/

theorem executionDeadline_ok {until_ : ℕ} : executionDeadline time duration = .ok until_ ↔
      time + duration < 2 ^ 64 ∧ time < until_ ∧ time + duration = until_ := by
  unfold executionDeadline checkedAdd
  by_cases h : time + duration < 2 ^ 64
  · simp only [if_pos h, bind_ok, reject_ok, pure_ok, not_le, exists_const]
    omega
  · simp only [if_neg h, reduceCtorEq, false_iff, not_and]
    omega

theorem nextGeneration_ok {row : Option ExecutionRow} {g : ℕ} : nextGeneration row = .ok g ↔
    g = (row.map ExecutionRow.generation).getD 0 + 1 ∧ g < 2 ^ 63 := by
  cases row with
  | none =>
    simp [nextGeneration]
    omega
  | some =>
    simp [nextGeneration, bind_ok, -bind_pure_comp]
    omega

theorem claim_row (db : Db) (claim : ExecutionClaim) :
    (apply db (.claim claim)).executions.get? claim.taskId =
      some (claimedRow (db.executions.get? claim.taskId) claim.generation claim.owner
        claim.leaseUntilMs) :=
  get?_insert_self ..

/-- What a granted claim has checked and returned. -/
structure Granted (S : Crates J) (db db' : Db) (t : TaskId) (drawn : Option String)
    (claim : ExecutionClaim) : Prop where
  task_eq : claim.taskId = t
  drawn_eq : drawn = some claim.owner
  inRange : claim.leaseUntilMs < 2 ^ 63
  enabled : Enabled S db (.claim claim)
  commits : db' = apply db (.claim claim)

theorem claimRun_commits {drawn : Option String}
    {r : Option ExecutionClaim} (h : claimRun db t owner duration drawn c₁ c₂ = .ok (r, db')) :
    (r = none ∧ db' = db) ∨ ∃ claim, r = some claim ∧ Granted S db db' t drawn claim := by
  simp only [claimRun, bind_ok] at h
  obtain ⟨token, htoken, h⟩ := h
  have hdrawn : drawn = some token := by
    simp only [ownerToken, bind_ok] at htoken
    obtain ⟨-, -, htoken⟩ := htoken
    cases drawn with
    | none => simp at htoken
    | some => simpa using htoken
  split at h
  · exact .inl (pair_ok h)
  rename_i hopen
  split at h
  · exact .inl (pair_ok h)
  rename_i hprog
  simp only [bind_ok, executionDeadline_ok] at h
  obtain ⟨time, -, _, ⟨-, htime, -⟩, h⟩ := h
  split at h
  · exact .inl (pair_ok h)
  rename_i hfree
  simp only [bind_ok, toSqlInteger_ok] at h
  obtain ⟨_, hgen, _, ⟨hrange, rfl⟩, _, -, h⟩ := h
  split at h
  · exact .inl (pair_ok h)
  obtain ⟨rfl, rfl⟩ := pair_ok h
  refine .inr ⟨_, rfl, rfl, hdrawn, hrange, ?_, rfl⟩
  refine ⟨?_, ?_, hgen, ⟨time, htime, by simpa using hfree⟩, rfl⟩
  · simpa [Db.IsOpen] using hopen
  · simpa [isSome_iff_ne_none] using hprog

theorem releaseRun_commits {claim : ExecutionClaim} {failed : Bool}
    (h : releaseRun db claim failed c₁ c₂ = .ok (u, db')) :
    claim.Passes db claim.taskId c₁ ∧ Enabled S db (.release claim failed) ∧
      db' = apply db (.release claim failed) := by
  simp only [releaseRun, bind_ok, pure_ok, mk.injEq] at h
  obtain ⟨_, hguard, -, -, -, rfl⟩ := h
  have hpass : claim.Passes db claim.taskId c₁ := hguard
  obtain ⟨-, -, -, -, r, hr, hholds⟩ := ExecutionClaim.passes_iff.mp hpass
  exact ⟨hpass, ⟨_, r, hr, hholds⟩, rfl⟩

/-! ## Completion -/

/-- A completion that was inserted by this call. -/
structure Finished (S : Crates J) (db db' : Db) (t : TaskId) (exp : ℕ) (json : String)
    (program : ProgramRow) (row : CompletionRow) : Prop where
  enabled : Enabled S db (.complete t row program)
  expects : row.nextSequence = exp
  result : row.resultJson = json
  commits : db' = apply db (.complete t row program)

/-- A successful completion acknowledges a stored one, finds no program, or is new. -/
theorem finishTask_commits {v : J} {lease : Option ℕ} {clocks : FinishClocks}
    (h : finishTask S ex db t exp v time lease clocks = .ok (r, db')) :
    (∃ row, db.completions.get? t = some row ∧ r = true ∧ db' = db ∧
        row.nextSequence = exp) ∨ (db.IsOpen t ∧
        (∀ claim, ex = some claim → claim.Passes db t clocks.guard₁) ∧
        ((r = false ∧ db.programs.get? t = none ∧ db' = db) ∨ (r = true ∧ ∃ program row,
            Finished S db db' t exp (S.toStr v) program row))) := by
  simp only [finishTask, bind_ok] at h
  obtain ⟨-, -, h⟩ := h
  cases hrow : db.completions.get? t with
  | some row =>
    simp only [hrow, bind_ok, toSqlInteger_ok, reject_ok, not_not, pure_ok,
      mk.injEq, exists_const] at h
    obtain ⟨_, ⟨-, rfl⟩, hseq, _, -, -, rfl, rfl⟩ := h
    exact .inl ⟨row, rfl, rfl, rfl, hseq⟩
  | none =>
    simp only [hrow, finishOpen, bind_ok, guardExecution_ok, exists_const] at h
    obtain ⟨hguard, h⟩ := h
    refine .inr ⟨hrow, hguard, ?_⟩
    cases hprog : db.programs.get? t with
    | none =>
      simp only [hprog, pure_ok, mk.injEq] at h
      exact .inl ⟨h.1.symm, rfl, h.2.symm⟩
    | some program =>
      simp only [hprog, bind_ok, reject_ok, not_not, toSqlInteger_ok,
        dischargeProgram_ok, pure_ok, mk.injEq, exists_const] at h
      obtain ⟨hexp, hpend, _, -, at_, ⟨-, -⟩, _, ⟨hcharged, rfl⟩, -, -, -, -, rfl, rfl⟩ := h
      refine .inr ⟨rfl, program, ⟨db.nextSequence t, S.toStr v, at_⟩, ?_, hexp, rfl, rfl⟩
      exact ⟨hrow, hprog, rfl, by simpa using hpend, hcharged⟩

/-! ## Retention -/

def Db.pruneCandidates (db : Db) (beforeMs limit : ℕ) : List (TaskId × ℕ) :=
  ((((db.completions.entries.filter fun e => e.2.completedAtMs < beforeMs).map
    fun e => (e.1, e.2)).insertionSort completionOrder).take (min limit maxPruneBatch)).map
      fun e => (e.1, db.retainedBytes e.1 e.2)

theorem Db.pruneCandidates_completed :
    ∀ c ∈ db.pruneCandidates before limit, (db.completions.get? c.1).isSome := by
  intro c hc
  simp only [Db.pruneCandidates, List.mem_map] at hc
  obtain ⟨⟨_, _⟩, hmem, rfl⟩ := hc
  have hmem := (mem_insertionSort _).mp (mem_of_mem_take hmem)
  simp only [List.mem_map, mem_filter] at hmem
  obtain ⟨⟨_, _⟩, ⟨hentry, -⟩, rfl, rfl⟩ := hmem
  simp [mem_entries.mp hentry]

theorem Db.pruneCandidates_nodup : ((db.pruneCandidates before limit).map fst).Nodup := by
  have hkeys : (db.completions.entries.map Sigma.fst).Nodup := db.completions.nodupKeys
  simp only [Db.pruneCandidates, List.map_map]
  refine List.Nodup.sublist ((take_sublist _ _).map _) ?_
  refine (((perm_insertionSort completionOrder _).map _).nodup_iff).mpr ?_
  rw [List.map_map]
  exact hkeys.sublist (filter_sublist.map _)

/-- The retention loop prunes candidates one by one, each of them at most once. -/
theorem pruneLoop_commits (cands : List (TaskId × ℕ)) (deleted bytes : ℕ) (db : Db)
    (hcompleted : ∀ c ∈ cands, (db.completions.get? c.1).isSome)
    (hnodup : (cands.map fst).Nodup) : ∃ tasks : List TaskId,
      (effects S).Chain db (tasks.map .prune) (pruneLoop cands deleted bytes db).2 := by
  induction cands generalizing deleted bytes db with
  | nil => exact ⟨[], .nil db⟩
  | cons candidate _ ih =>
    obtain ⟨t, retained⟩ := candidate
    obtain ⟨hnew, hrest⟩ := nodup_cons.mp hnodup
    unfold pruneLoop
    split
    · exact ⟨[], .nil db⟩
    split
    · exact ih deleted bytes db (fun c hc => hcompleted c (mem_cons_of_mem _ hc)) hrest
    rename_i hlive
    obtain ⟨tasks, hchain⟩ := ih (deleted + 1) (bytes + retained) (db.deleteTask t) (by
      intro c hc
      have hne : c.1 ≠ t := by
        rintro rfl
        exact hnew (mem_map.mpr ⟨c, hc, rfl⟩)
      simpa [Db.deleteTask, get?_erase_ne hne] using hcompleted c (mem_cons_of_mem _ hc)) hrest
    refine ⟨t :: tasks, .cons ⟨hcompleted _ (mem_cons_self ..), ?_⟩ hchain⟩
    simpa using hlive

theorem pruneCompleted_commits {deleted : ℕ}
    (h : pruneCompleted db before limit = .ok (deleted, db')) :
    ∃ tasks : List TaskId, (effects S).Chain db (tasks.map .prune) db' := by
  unfold pruneCompleted at h
  split at h
  · simp only [Except.ok.injEq, mk.injEq] at h
    exact ⟨[], h.2 ▸ .nil _⟩
  simp only [bind_ok, toSqlInteger_ok, pure_ok] at h
  obtain ⟨_, ⟨-, rfl⟩, h⟩ := h
  change pruneLoop (db.pruneCandidates before limit) 0 0 db = _ at h
  have := pruneLoop_commits (S := S) (db.pruneCandidates before limit) 0 0 db
    db.pruneCandidates_completed db.pruneCandidates_nodup
  rwa [h] at this

end Tysel.Durable
