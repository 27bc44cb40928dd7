import Tysel.Verification.Durable.Commits

/-! The store operations refine the system of guarded effects: a successful call commits a
chain of enabled effects, and a failed call commits none. What a caller learns from the
replies of a run is what the committed effects did. -/

namespace Tysel.Durable

open List Option Prod Call Guarded.Chain LeaseOnly

variable {J : Type} {db' : Db} {es : List Effect} {P : Db → Prop}

def Call.issued (c : Call J) : List ExecutionClaim :=
  match c.output with
  | .ok (.execution (some claim)) => [claim]
  | _ => []

/-- The signal a call has accepted: a send that returned an id and did not repeat a receipt. -/
def Call.accepted (S : Crates J) (c : Call J) : List InboxRow :=
  match c.input, c.output with
  | .sendSignal t name payload time key, .ok (.signalId id) =>
    if (key.bind (c.before.receipt? t)).isNone then [⟨id, t, name, S.toStr payload, time⟩]
    else []
  | _, _ => []

/-- The event a call has appended: by an append, by consuming a signal, or by a first admission. -/
def Call.appended (S : Crates J) (c : Call J) : List EventRow :=
  match c.input, c.output with
  | .admitModule t _ _ input time, .ok _ =>
    if (c.before.executions.get? t).isNone then
      [⟨t, 0, .step, taskInputKey, canonicalInput S input, time⟩]
    else []
  | _, .ok (.event ev) => [ev.row]
  | _, .ok (.polled (some ev)) => [ev.row]
  | _, _ => []

def Op.appends? : Op J → Option (TaskId × EventKind)
  | .appendEventJsonAt _ t _ kind .. => some (t, kind)
  | .appendEventJsonWithWakeupAt _ t .. => some (t, .sleep)
  | .appendEvent _ t _ ev .. => some (t, ev.kind)
  | .appendEventWithWakeup _ t _ ev .. => some (t, ev.kind)
  | _ => none

def Op.requestKey? : Op J → Option (TaskId × String)
  | .sendSignal t _ _ _ (some key) => some (t, key)
  | _ => none

def Op.polls? : Op J → Option TaskId
  | .pollSignal _ t .. => some t
  | _ => none

def Op.admits? : Op J → Option TaskId
  | .admitModule t .. => some t
  | _ => none

namespace Effect

/-- The effects that an operation without a task argument can commit. -/
def isBatch : Effect → Bool
  | lease .. | prune _ => true
  | _ => false

/-- The arguments of the operation that commits an effect of this kind. -/
def Arguments (op : Op J) : Effect → Prop
  | append row _ => op.appends? = some (row.taskId, row.kind)
  | signal _ receipt => ∀ r, receipt = some r → op.requestKey? = some (r.taskId, r.requestKey)
  | unregister t _ => op = .removeProgram t
  | consume row _ _ => op.polls? = some row.taskId
  | admitModule t _ ev _ _ => op.admits? = some t ∧ ev.eventKey = taskInputKey
  | _ => True

/-- An effect belongs to the operation that commits it. -/
structure From (op : Op J) (e : Effect) : Prop where
  addressed : op.task? = some e.task ∨ op.task? = none ∧ e.isBatch = true
  arguments : e.Arguments op

def issued : Effect → List ExecutionClaim
  | claim c => [c]
  | _ => []

def accepted : Effect → List InboxRow
  | signal row _ => [row]
  | _ => []

def appended : Effect → List EventRow
  | append row _ => [row]
  | consume row _ _ => [row]
  | admitModule _ _ ev _ _ => [ev]
  | _ => []

end Effect

/-- A call has committed these effects, and its reply reports what they did. -/
structure Committed (S : Crates J) (c : Call J) (es : List Effect) : Prop where
  chain : (effects S).Chain c.before es c.after
  issued : c.issued = es.flatMap Effect.issued
  accepted : c.accepted S = es.flatMap Effect.accepted
  appended : c.appended S = es.flatMap Effect.appended
  origin : ∀ e ∈ es, e.From c.input
  prunes : ∀ t, .prune t ∈ es ↔ c.Prunes t
  pruneOnly : ∀ t, .prune t ∈ es → ∀ e ∈ es, ∃ x, e = .prune x

/-- A store that `initialize_schema` has brought to the current version. -/
structure Db.Opened (db : Db) : Prop where
  version : db.schemaVersion = some durableLogVersion
  stats : db.programStats.isSome

variable {db : Db}

theorem initializeSchema_ok {u : Unit} (h : initializeSchema db = .ok (u, db')) :
    db' = { (if db.schemaVersion.getD 0 < 2 then (initializeLifecycle db).rebuildHistoryStats
      else initializeLifecycle db) with schemaVersion := some durableLogVersion } := by
  unfold initializeSchema at h
  cases hv : db.schemaVersion with
  | none =>
    simp only [hv, pure_ok, mk.injEq] at h
    exact h.2.symm
  | some =>
    simp only [hv, bind_ok, pure_ok, mk.injEq] at h
    obtain ⟨-, -, -, rfl⟩ := h
    rfl

theorem initializeSchema_opened {u : Unit} (h : initializeSchema db = .ok (u, db')) :
    db'.Opened := by
  have hstats : (initializeLifecycle db).programStats.isSome := by
    unfold initializeLifecycle
    split <;> simp_all
  rw [initializeSchema_ok h]
  refine ⟨rfl, ?_⟩
  split
  · exact hstats
  · exact hstats

theorem initializeSchema_of_opened (h : db.Opened) : initializeSchema db = .ok ((), db) := by
  obtain ⟨_, hs⟩ := isSome_iff_exists.mp h.stats
  have hlife : initializeLifecycle db = db := by simp [initializeLifecycle, hs]
  have hsame : { db with schemaVersion := some durableLogVersion } = db := by rw [← h.version]
  have hnew : ¬ durableLogVersion < 2 := by decide
  simp only [initializeSchema, h.version, hlife, getD_some, if_neg hnew, hsame]
  rfl

theorem Db.Opened.apply (h : db.Opened) (e : Effect) : (e.apply db).Opened := by
  refine ⟨by rw [Effect.apply_schemaVersion, h.version], ?_⟩
  rw [Effect.apply_programStats]
  cases e <;> simp [Db.charge, Db.uncharge, h.stats]

theorem Db.fresh_opened : Db.fresh.Opened := ⟨rfl, rfl⟩

variable {c : Call J}

theorem Call.not_prunes (h : c.after.completions = c.before.completions) (t : TaskId) :
    ¬ c.Prunes t := by
  rintro ⟨-, hsome, hnone⟩
  rw [h] at hnone
  simp [hnone] at hsome

variable {S : Crates J} {t : TaskId}

/-- What the reply of a call says. -/
def Call.reported (S : Crates J) (c : Call J) :
    List ExecutionClaim × List InboxRow × List EventRow :=
  (c.issued, c.accepted S, c.appended S)

def Effect.reported (e : Effect) : List ExecutionClaim × List InboxRow × List EventRow :=
  (e.issued, e.accepted, e.appended)

/-- Effects that report nothing and prune no task, or only prune. -/
theorem Committed.batch (hchain : (effects S).Chain c.before es c.after)
    (hrep : c.reported S = ([], [], [])) (hbatch : ∀ e ∈ es, e.isBatch = true)
    (htask : c.input.task? = none ∨ es = []) (hprunes : ∀ t, .prune t ∈ es ↔ c.Prunes t)
    (honly : ∀ t, .prune t ∈ es → ∀ e ∈ es, ∃ x, e = .prune x) : Committed S c es := by
  have hquiet : ∀ e ∈ es, e.reported = ([], [], []) ∧ e.From c.input := by
    intro e he
    have htask := htask.resolve_right (ne_nil_of_mem he)
    cases e with
    | lease | prune => exact ⟨rfl, .inr ⟨htask, rfl⟩, trivial⟩
    | _ => simpa [Effect.isBatch] using hbatch _ he
  simp only [reported, Effect.reported, mk.injEq] at hrep hquiet
  refine ⟨hchain, ?_, ?_, ?_, fun e he => (hquiet e he).2, hprunes, honly⟩
  · rw [hrep.1, flatMap_eq_nil_iff.mpr fun e he => (hquiet e he).1.1]
  · rw [hrep.2.1, flatMap_eq_nil_iff.mpr fun e he => (hquiet e he).1.2.1]
  · rw [hrep.2.2, flatMap_eq_nil_iff.mpr fun e he => (hquiet e he).1.2.2]

theorem Committed.unchanged (hdb : c.after = c.before) (hrep : c.reported S = ([], [], [])) :
    Committed S c [] :=
  .batch (hdb ▸ .nil _) hrep (by simp) (.inr rfl)
    (fun t => by simp [not_prunes (congrArg Db.completions hdb)]) (by simp)

theorem Committed.one {e : Effect} (hen : e.Enabled S c.before) (hdb : c.after = e.apply c.before)
    (hrep : c.reported S = e.reported) (hprune : c.input.isPrune = false)
    (hkeep : ∀ t, e ≠ .prune t) (horigin : e.From c.input) : Committed S c [e] := by
  simp only [reported, Effect.reported, mk.injEq] at hrep
  refine ⟨hdb ▸ single hen, ?_, ?_, ?_, by simpa using horigin, fun t => ⟨fun hmem => ?_, ?_⟩,
    fun t hmem => ?_⟩
  · simpa using hrep.1
  · simpa using hrep.2.1
  · simpa using hrep.2.2
  · exact absurd (mem_singleton.mp hmem).symm (hkeep t)
  · rintro ⟨hinput, -⟩
    simp [hprune] at hinput
  · exact absurd (mem_singleton.mp hmem).symm (hkeep t)

theorem LeaseOnly.committed (h : LeaseOnly c.before c.after t)
    (hrep : c.reported S = ([], [], [])) (hprune : c.input.isPrune = false)
    (htask : c.input.task? = some t) : ∃ es, Committed S c es := by
  rcases h with hdb | ⟨owner, until_, hsome, hdb⟩
  · exact ⟨[], .unchanged hdb hrep⟩
  · exact ⟨_, .one (e := .lease t owner until_) hsome hdb hrep hprune (by simp)
      ⟨.inl htask, trivial⟩⟩

theorem Appended.committed {execution : Option ExecutionClaim} {expected : Option ℕ}
    {kind : EventKind} {key payload : String} {time : ℕ} {wakeAtMs : Option ℕ} {clock : ℤ}
    {ev : TaskEvent J}
    (h : Appended execution c.before c.after t expected kind key payload time wakeAtMs clock ev)
    (hrep : c.reported S = ([], [], [ev.row])) (hprune : c.input.isPrune = false)
    (htask : c.input.task? = some t) (happends : c.input.appends? = some (t, kind)) :
    ∃ es, Committed S c es := by
  refine ⟨_, .one (e := .append ev.row wakeAtMs) h.appendable h.commits hrep hprune
    (by simp) ⟨.inl ?_, ?_⟩⟩
  · simp only [htask, Effect.task, h.row]
  · simp only [Effect.Arguments, happends, h.row]

theorem chain_pruned {tasks : List TaskId} (h : (effects S).Chain db (tasks.map .prune) db')
    (t : TaskId) :
    (t ∈ tasks → (db.completions.get? t).isSome) ∧
      db'.completions.get? t = if t ∈ tasks then none else db.completions.get? t := by
  induction tasks generalizing db with
  | nil =>
    cases h
    simp
  | cons x ts ih =>
    cases h with
    | cons hen hrest =>
      have hget : ((effects S).apply db (.prune x)).completions.get? t =
          if t = x then none else db.completions.get? t := Table.get?_erase ..
      obtain ⟨hin, hout⟩ := ih hrest
      rw [hget] at hin hout
      by_cases htask : t = x
      · simp_all [hen.1]
      · simp_all

/-- The refinement theorem: every call on an opened store commits enabled effects. -/
theorem call_committed (S : Crates J) (hopen : db.Opened) (op : Op J) :
    ∃ es, Committed S (entry (call S) db op) es := by
  rcases call_cases S db op with ⟨e, -, hcall⟩ | ⟨r, db', hok, hcall⟩
  · refine ⟨[], .unchanged ?_ ?_⟩ <;> simp [entry, hcall, reported, issued, accepted, appended]
  have hentry : entry (call S) db op = ⟨db, op, .ok r, db'⟩ := by simp [entry, hcall]
  rw [hentry]
  cases op
  all_goals obtain ⟨value, h, rfl⟩ := replying_ok.mp hok
  case putProgram =>
    rcases putProgramInner_commits h with ⟨-, hdb⟩ | ⟨_, hen, hdb⟩
    · exact ⟨[], .unchanged hdb rfl⟩
    · exact ⟨_, .one hen hdb rfl rfl (by simp) ⟨.inl rfl, trivial⟩⟩
  case removeProgram =>
    rcases removeProgram_commits h with ⟨-, hdb⟩ | ⟨_, _, -, hen, hdb⟩
    · exact ⟨[], .unchanged hdb rfl⟩
    · exact ⟨_, .one hen hdb rfl rfl (by simp) ⟨.inl rfl, rfl⟩⟩
  case appendEventJsonAt =>
    exact (appendEventJsonAt_commits h).1.committed rfl rfl rfl rfl
  case appendEventJsonWithWakeupAt =>
    exact (appendEventJsonWithWakeupAt_commits h).1.committed rfl rfl rfl rfl
  case appendEvent =>
    exact (appendEventInner_commits h).committed rfl rfl rfl rfl
  case appendEventWithWakeup =>
    exact (appendEventWithWakeupInner_commits h).committed rfl rfl rfl rfl
  case scheduleWakeup =>
    obtain ⟨hen, hdb⟩ := scheduleWakeup_commits h
    exact ⟨_, .one hen hdb rfl rfl (by simp) ⟨.inl rfl, trivial⟩⟩
  case claimDueWakeups =>
    obtain ⟨es, hchain, hlease⟩ := claimDueWakeups_commits h
    have hnone : ∀ t, .prune t ∉ es := fun t hmem => by
      simpa [Effect.IsLease] using hlease _ hmem
    refine ⟨es, .batch hchain rfl (fun e he => ?_) (.inl rfl) ?_
      fun t hmem => absurd hmem (hnone t)⟩
    · cases e with
      | lease => rfl
      | _ => exact absurd (hlease _ he) (by simp [Effect.IsLease])
    · simp [hnone, Prunes, Op.isPrune]
  case claimWakeup =>
    refine committed ?_ rfl rfl rfl
    rcases claimWakeup_commits h with ⟨-, hdb⟩ | ⟨_, _, hw, -, -, -, hdb⟩
    · exact .inl hdb
    · exact .of_row hw hdb
  case completeWakeup t _ _ _ _ _ =>
    obtain ⟨-, ⟨-, hdb⟩ | ⟨-, hdb, _, hw, -⟩⟩ := completeWakeup_commits h
    · exact ⟨[], .unchanged hdb rfl⟩
    · exact ⟨_, .one (by simp [Effect.Enabled, hw]) hdb rfl rfl
        (by simp) ⟨.inl rfl, trivial⟩⟩
  case renewWakeupClaim =>
    refine committed ?_ rfl rfl rfl
    rcases renewWakeupClaim_commits h with ⟨-, hdb⟩ | ⟨_, _, _, hw, -, -, hdb⟩
    · exact .inl hdb
    · exact .of_row hw hdb
  case releaseWakeupClaim =>
    refine committed ?_ rfl rfl rfl
    rcases releaseWakeupClaim_commits h with ⟨-, hdb⟩ | ⟨_, hw, -, -, hdb⟩
    · exact .inl hdb
    · exact .of_row hw hdb
  case sendSignal t _ _ _ key =>
    rcases sendSignalInner_commits h with ⟨k, receipt, rfl, hr, -, -, -, hdb⟩ | ⟨hun, hen, hdb⟩
    · exact ⟨[], .unchanged hdb (by simp [reported, issued, accepted, appended, hr])⟩
    refine ⟨_, .one hen hdb (Prod.ext rfl (Prod.ext ?_ rfl)) rfl (by simp) ?_⟩
    · have hnone : (key.bind (db.receipt? t)).isNone := by
        cases key with
        | none => rfl
        | some k => simp [hun k rfl]
      simp [reported, accepted, hnone, Effect.reported, Effect.accepted]
    · cases key with
      | none => exact ⟨.inl rfl, by simp [Effect.Arguments, receiptOf]⟩
      | some => exact ⟨.inl rfl, by simp [Effect.Arguments, receiptOf, Op.requestKey?]⟩
  case pollSignal t expected name _ _ _ _ =>
    rcases pollSignal_commits h with ⟨rfl, hnone⟩ | ⟨ev, queued, rfl, hsome⟩
    · rcases hnone.commits with ⟨-, hdb⟩ | ⟨hnowait, hdb⟩
      · exact ⟨[], .unchanged hdb rfl⟩
      · exact ⟨_, .one (e := .wait t ⟨expected, name⟩)
          ⟨hnone.isOpen, hnowait, hnone.expects, hnone.empty⟩ hdb rfl rfl
          (by simp) ⟨.inl rfl, trivial⟩⟩
    · have htask : ev.row.taskId = t := by rw [hsome.row]
      exact ⟨_, .one hsome.enabled hsome.commits rfl rfl (by simp)
        ⟨.inl (congrArg some htask.symm), congrArg some htask.symm⟩⟩
  case admitModule =>
    rcases admitModule_commits h with ⟨hrow, hdb⟩ | ⟨hrow, program, hash, hen, hdb, -⟩
    · have hold := isSome_iff_ne_none.mp hrow
      exact ⟨[], .unchanged hdb (by simp [reported, issued, accepted, appended, hold])⟩
    · exact ⟨_, .one hen hdb (Prod.ext rfl (Prod.ext rfl
        (by simp [reported, appended, hrow, Effect.reported, Effect.appended]))) rfl (by simp)
        ⟨.inl rfl, rfl, rfl⟩⟩
  case claimRun =>
    rcases claimRun_commits h with ⟨rfl, hdb⟩ | ⟨claim, rfl, hgranted⟩
    · exact ⟨[], .unchanged hdb rfl⟩
    · exact ⟨_, .one hgranted.enabled hgranted.commits rfl rfl (by simp)
        ⟨.inl (congrArg some hgranted.task_eq.symm), trivial⟩⟩
  case releaseRun =>
    obtain ⟨-, hen, hdb⟩ := releaseRun_commits h
    exact ⟨_, .one hen hdb rfl rfl (by simp) ⟨.inl rfl, trivial⟩⟩
  case finishTask =>
    rcases finishTask_commits h with
      ⟨_, -, -, hdb, -⟩ | ⟨-, -, ⟨-, -, hdb⟩ | ⟨-, _, _, hfin⟩⟩
    · exact ⟨[], .unchanged hdb rfl⟩
    · exact ⟨[], .unchanged hdb rfl⟩
    · exact ⟨_, .one hfin.enabled hfin.commits rfl rfl (by simp) ⟨.inl rfl, trivial⟩⟩
  case pruneCompleted =>
    obtain ⟨tasks, hchain⟩ := pruneCompleted_commits h
    refine ⟨tasks.map .prune, .batch hchain rfl ?_ (.inl rfl) (fun t => ?_) ?_⟩
    · simp [Effect.isBatch]
    · obtain ⟨hin, hout⟩ := chain_pruned hchain t
      by_cases hmem : t ∈ tasks
      · simp [Prunes, Op.isPrune, hmem, hin hmem, hout]
      · simp [Prunes, Op.isPrune, hmem, hout, isSome_iff_ne_none]
    · simp
  case initializeSchema =>
    rw [initializeSchema_of_opened hopen] at h
    simp only [Except.ok.injEq, mk.injEq] at h
    exact ⟨[], .unchanged h.2.symm rfl⟩

abbrev calls (S : Crates J) (db : Db) (ops : List (Op J)) : List (Call J) := trace (call S) db ops

abbrev after (S : Crates J) (db : Db) (ops : List (Op J)) : Db := run (call S) db ops

theorem after_append (db : Db) (ops more : List (Op J)) :
    after S db (ops ++ more) = after S (after S db ops) more :=
  run_append _ _ _ _

theorem Committed.opened (h : Committed S c es) (hopen : c.before.Opened) : c.after.Opened :=
  invariant (fun _ => True) (fun _ e _ hp _ => hp.apply e) h.chain (fun _ _ => trivial) hopen

theorem call_opened (S : Crates J) (hopen : db.Opened) (op : Op J) : (call S db op).2.Opened := by
  obtain ⟨_, hes⟩ := call_committed S hopen op
  exact hes.opened hopen

theorem after_opened (S : Crates J) (hopen : db.Opened) (ops : List (Op J)) :
    (after S db ops).Opened :=
  run_invariant (call S) db hopen (fun _ op h => call_opened S h op) ops

/-- What every enabled effect keeps, every run keeps: a property of the observations made
during the run and of the state, when all its calls satisfy `ok`. -/
theorem run_tracks {γ : Type*} {P : List γ → Db → Prop} (obs : Call J → List γ)
    (ghost : Effect → List γ) (good : Effect → Prop) (ok : Call J → Prop)
    (hobs : ∀ c es, Committed S c es → obs c = es.flatMap ghost)
    (hgood : ∀ c es, Committed S c es → ok c → ∀ e ∈ es, good e)
    (keep : ∀ g db e, good e → P g db → e.Enabled S db → P (g ++ ghost e) (e.apply db))
    (hopen : db.Opened) (init : P [] db) (ops : List (Op J)) (hall : ∀ c ∈ calls S db ops, ok c) :
    P ((calls S db ops).flatMap obs) (after S db ops) := by
  have hinv := trace_invariant (call S) db
    (P := fun tr s => s.Opened ∧ ((∀ c ∈ tr, ok c) → P (tr.flatMap obs) s))
    ⟨hopen, fun _ => init⟩ ?_ ops
  · exact hinv.2 hall
  rintro _ s op ⟨hs, hp⟩
  obtain ⟨es, hes⟩ := call_committed S hs op
  refine ⟨hes.opened hs, fun hok => ?_⟩
  have hhere : ok (entry (call S) s op) := hok _ (by simp)
  have hbefore := hp fun c hc => hok c (mem_append_left _ hc)
  have hstep := tracks ghost good keep hes.chain (hgood _ es hes hhere) hbefore
  rw [flatMap_append, flatMap_singleton, hobs _ es hes]
  exact hstep

theorem run_keeps (good : Effect → Prop) (ok : Call J → Prop)
    (hgood : ∀ c es, Committed S c es → ok c → ∀ e ∈ es, good e)
    (keep : ∀ db e, good e → P db → e.Enabled S db → P (e.apply db)) (hopen : db.Opened)
    (init : P db) (ops : List (Op J)) (hall : ∀ c ∈ calls S db ops, ok c) : P (after S db ops) :=
  run_tracks (P := fun (_ : List Unit) db => P db) (fun _ => []) (fun _ => []) good ok
    (fun _ _ _ => by simp) hgood (fun _ db e => keep db e) hopen init ops hall

theorem run_keeps_all (keep : ∀ db (e : Effect), P db → e.Enabled S db → P (e.apply db))
    (hopen : db.Opened) (init : P db) (ops : List (Op J)) : P (after S db ops) :=
  run_keeps (fun _ => True) (fun _ => True) (fun _ _ _ _ _ _ => trivial)
    (fun db e _ => keep db e) hopen init ops fun _ _ => trivial

theorem Committed.keeps_task (c : Call J) (es : List Effect) (h : Committed S c es)
    (hc : ¬ c.Prunes t) : ∀ e ∈ es, e ≠ .prune t := by
  rintro - he rfl
  exact hc ((h.prunes t).mp he)

/-- The crates on JSON booleans, with the digests of the texts that the concrete runs of
this development hash. -/
def bools : Crates Bool where
  toStr b := if b then "true" else "false"
  fromStr text := if text = "true" then some true else if text = "false" then some false else none
  eq a b := a == b
  sha256 text :=
    if text = "42" then "73475cb40a568e8da8a045ced110137e159f890ac4da883b6b17dc651b3a8049"
    else if text = "true" then "b5bea41b6c623f7c09f1bf24dcae58ebab3c0cdd90ad966bc43a45b44867e12b"
    else if text = "false" then "fcbcf165908dd18a9e49f7ff27810176db8e9f63b4352213741664245224f8aa"
    else if text = "42\x00true" then
      "124a56a60c89b52130c4cc033a28a9ca1d27d8df19d424b9a0643e1ae731c5ed"
    else ""

end Tysel.Durable
