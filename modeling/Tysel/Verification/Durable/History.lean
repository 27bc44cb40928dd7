import Tysel.Verification.Durable.Refinement

/-! The events of a task are numbered without gaps, and the denormalised statistics row always
agrees with them. Loading a history therefore returns every event appended since the task
was last pruned, in order. -/

namespace Tysel.Durable

open List Except Nat Effect Table Db EventRow

variable {J : Type} {S : Crates J} {bs : ℕ} {es : List Effect}

/-! ## The invariant -/

/-- The byte total that `durable_history_stats` keeps for a task. -/
def Db.historyBytes (db : Db) (t : TaskId) : ℕ := ((db.eventsOf t).map bytes).sum

/-- Gap-free sequences and a statistics row that counts exactly the stored events. -/
structure Db.HistoryOk (db : Db) (t : TaskId) : Prop where
  sequences : (db.eventsOf t).map sequence = List.range (db.eventsOf t).length
  stats : db.historyStats.get? t = if db.eventsOf t = [] then none
    else some ⟨(db.eventsOf t).length, db.historyBytes t⟩
  count : (db.eventsOf t).length ≤ maxHistoryEvents
  bytes : db.historyBytes t ≤ maxHistoryBytes

variable {db db' : Db} {t : TaskId} {row : EventRow}

theorem eventsOf_append (db db' : Db) (row : EventRow) (t : TaskId)
    (h : db'.events = db.events ++ [row]) : db'.eventsOf t =
      if row.taskId = t then db.eventsOf t ++ [row] else db.eventsOf t := by
  unfold eventsOf
  split <;> simp_all

theorem eventsOf_filter (db db' : Db) (pruned t : TaskId)
    (h : db'.events = db.events.filter fun row => row.taskId ≠ pruned) :
    db'.eventsOf t = if t = pruned then [] else db.eventsOf t := by
  unfold eventsOf
  rw [h]
  split
  · rename_i heq
    subst heq
    simp
  · exact filter_filter_ne (fun _ => of_decide_eq_true) ‹_› _

theorem countEvent_get? (db : Db) (row : EventRow) (t : TaskId) : (db.countEvent row).get? t =
      if t = row.taskId then some ⟨((db.historyStats.get? t).getD ⟨0, 0⟩).eventCount + 1,
          ((db.historyStats.get? t).getD ⟨0, 0⟩).payloadBytes + row.bytes⟩
      else db.historyStats.get? t := by
  unfold countEvent insertEventRow
  rw [get?_insert]
  split
  · rename_i heq
    subst heq
    cases db.historyStats.get? row.taskId <;> simp [bytes]
  · rfl

section

variable (h : db.HistoryOk t)

include h

namespace Db.HistoryOk

theorem nextSequence : db.nextSequence t = (db.eventsOf t).length := by
  unfold Db.nextSequence
  rw [h.sequences]
  cases (db.eventsOf t).length with
  | zero => rfl
  | succ n =>
    have hmax : (range (n + 1)).max? = some n := by
      rw [max?_eq_some_iff]
      exact ⟨by simp, fun b hb => le_of_lt_succ (mem_range.mp hb)⟩
    rw [hmax]

theorem getD_stats : (db.historyStats.get? t).getD ⟨0, 0⟩ =
      ⟨(db.eventsOf t).length, db.historyBytes t⟩ := by
  rw [h.stats]
  split
  · rename_i hnil
    simp [hnil, historyBytes]
  · rfl

theorem of_same (hevents : db'.eventsOf t = db.eventsOf t)
    (hstats : db'.historyStats.get? t = db.historyStats.get? t) : db'.HistoryOk t := by
  have hbytes : db'.historyBytes t = db.historyBytes t := by
    simp only [historyBytes, hevents]
  exact ⟨by rw [hevents, h.sequences], by rw [hevents, hbytes, hstats, h.stats],
    by rw [hevents]; exact h.count, by rw [hbytes]; exact h.bytes⟩

theorem insert (happ : db.Appendable row) (hevents : db'.events = db.events ++ [row])
    (hstats : db'.historyStats = db.countEvent row) : db'.HistoryOk t := by
  have hev := eventsOf_append db db' row t hevents
  have hst := countEvent_get? db row t
  rw [← hstats] at hst
  by_cases htask : row.taskId = t
  · subst htask
    rw [if_pos rfl] at hev hst
    have hbytes : db'.historyBytes row.taskId = db.historyBytes row.taskId + row.bytes := by
      simp [historyBytes, hev]
    have hroom := happ.room
    simp only [HistoryRoom, h.getD_stats] at hroom
    have hseq : row.sequence = (db.eventsOf row.taskId).length := by
      rw [happ.sequence, h.nextSequence]
    refine ⟨?_, ?_, ?_, ?_⟩
    · simp [hev, h.sequences, hseq, range_succ]
    · rw [hst, h.getD_stats, hbytes]
      simp [hev]
    · simp only [hev, length_append, length_singleton]
      omega
    · rw [hbytes]
      omega
  · rw [if_neg htask] at hev
    rw [if_neg (Ne.symm htask)] at hst
    exact h.of_same hev hst

theorem apply {e : Effect} (hen : e.Enabled S db) : (e.apply db).HistoryOk t := by
  have hevents := apply_events db e
  have hstats := apply_historyStats db e
  cases e with
  | append => exact h.insert hen hevents hstats
  | consume | admitModule => exact h.insert hen.1 hevents hstats
  | prune u =>
    have hev := eventsOf_filter db _ u t hevents
    by_cases htask : t = u
    · subst htask
      have hst : (Effect.apply db (.prune t)).historyStats.get? t = none := by
        rw [hstats, get?_erase_self]
      exact ⟨by simp [hev], by simp [hev, hst], by simp [hev], by simp [historyBytes, hev]⟩
    · rw [if_neg htask] at hev
      exact h.of_same hev (by rw [hstats, get?_erase_ne htask])
  | _ => exact h.of_same rfl rfl

end Db.HistoryOk

end

theorem Db.fresh_historyOk (t : TaskId) : fresh.HistoryOk t := ⟨rfl, rfl, zero_le _, zero_le _⟩

theorem historyOk_after (ops : List (Op J)) (t : TaskId) : (after S fresh ops).HistoryOk t :=
  run_keeps_all (P := fun db => db.HistoryOk t) (fun _ _ h hen => h.apply hen)
    fresh_opened (fresh_historyOk t) ops

/-! ## Loading -/

variable {rows : List EventRow} {acc : List (TaskEvent J)}

theorem decodeHistoryRows_cons (hcount : acc.length < maxHistoryEvents)
    (hbytes : bs + row.bytes ≤ maxHistoryBytes) :
    decodeHistoryRows S t (row :: rows) acc bs = parseJson S row.payload >>= fun v =>
        decodeHistoryRows S t rows
          (acc ++ [⟨t, row.sequence, row.kind, row.eventKey, v, row.recordedAtMs,
            row.payload⟩]) (bs + row.bytes) := by
  have hassoc : bs + row.eventKey.utf8ByteSize + row.payload.utf8ByteSize = bs + row.bytes := by
    simp only [bytes]
    omega
  simp only [decodeHistoryRows, hassoc]
  rw [reject_of_not _ (by omega), ok_bind, reject_of_not _ (by omega), ok_bind]

/-- The row loop stays below both limits when the rows do, so only a payload can stop it. -/
theorem decodeHistoryRows_error {e : DurableError}
    (hcount : acc.length + rows.length ≤ maxHistoryEvents)
    (hbytes : bs + (rows.map bytes).sum ≤ maxHistoryBytes)
    (h : decodeHistoryRows S t rows acc bs = .error e) : e = .json := by
  induction rows generalizing acc bs with
  | nil => simp [decodeHistoryRows] at h
  | cons row _ ih =>
    simp only [length_cons, map_cons, sum_cons] at hcount hbytes
    rw [decodeHistoryRows_cons (by omega) (by omega)] at h
    cases hp : S.fromStr row.payload with
    | none =>
      simp only [parseJson, hp, error_bind, error.injEq] at h
      exact h.symm
    | some =>
      rw [parseJson_ok.mpr hp, ok_bind] at h
      refine ih ?_ ?_ h
      · simp only [length_append, length_singleton]
        omega
      · omega

theorem decodeHistoryRows_ok (acc : List (TaskEvent J)) (bs : ℕ)
    (hcount : acc.length + rows.length ≤ maxHistoryEvents)
    (hbytes : bs + (rows.map bytes).sum ≤ maxHistoryBytes)
    (htask : ∀ row ∈ rows, row.taskId = t) (hparse : ∀ row ∈ rows, (S.fromStr row.payload).isSome) :
    ∃ events, decodeHistoryRows S t rows acc bs = .ok (acc ++ events) ∧
      events.map TaskEvent.row = rows ∧
      ∀ ev ∈ events, S.fromStr ev.payloadJson = some ev.payload := by
  induction rows generalizing acc bs with
  | nil => exact ⟨[], by simp [decodeHistoryRows], rfl, by simp⟩
  | cons row _ ih =>
    simp only [length_cons, map_cons, sum_cons] at hcount hbytes
    obtain ⟨v, hvalue⟩ := Option.isSome_iff_exists.mp (hparse row (mem_cons_self ..))
    obtain rfl := htask row (mem_cons_self ..)
    let ev : TaskEvent J :=
      ⟨row.taskId, row.sequence, row.kind, row.eventKey, v, row.recordedAtMs, row.payload⟩
    obtain ⟨events, hrest, hrows, hpay⟩ := ih (acc ++ [ev]) (bs + row.bytes)
      (by simp only [length_append, length_singleton]; omega) (by omega)
      (fun r hr => htask r (mem_cons_of_mem _ hr))
      (fun r hr => hparse r (mem_cons_of_mem _ hr))
    refine ⟨ev :: events, ?_, ?_, ?_⟩
    · rw [decodeHistoryRows_cons (by omega) (by omega), parseJson_ok.mpr hvalue, ok_bind,
        hrest, append_assoc]
      rfl
    · simp [ev, TaskEvent.row, hrows]
    · intro event' hmem
      rcases mem_cons.mp hmem with rfl | hmem
      · exact hvalue
      · exact hpay event' hmem

theorem decodeHistoryRows_parses {out : List (TaskEvent J)}
    (h : decodeHistoryRows S t rows acc bs = .ok out) :
    ∀ row ∈ rows, (S.fromStr row.payload).isSome := by
  induction rows generalizing acc bs with
  | nil => simp
  | cons _ _ ih =>
    simp only [decodeHistoryRows, bind_ok, parseJson_ok] at h
    obtain ⟨-, -, -, -, v, hvalue, hrest⟩ := h
    intro r hr
    rcases mem_cons.mp hr with rfl | hr
    · simp [hvalue]
    · exact ih hrest r hr

section

variable (h : db.HistoryOk t)

include h

/-- With gap-free sequences the ordered and limited query returns all rows as stored. -/
theorem Db.HistoryOk.selected :
    ((db.eventsOf t).insertionSort fun a b => a.sequence ≤ b.sequence).take
      (maxHistoryEvents + 1) = db.eventsOf t := by
  have hsorted : (db.eventsOf t).Pairwise fun a b => a.sequence ≤ b.sequence := by
    have hrange : ((db.eventsOf t).map sequence).Pairwise (· ≤ ·) := by
      rw [h.sequences]
      exact pairwise_le_range
    exact pairwise_map.mp hrange
  rw [hsorted.insertionSort_eq, take_of_length_le (by have := h.count; omega)]

theorem Db.HistoryOk.loadHistory : loadHistory S db t =
      decodeHistoryRows S t (db.eventsOf t) [] 0 >>= fun events => .ok ⟨t, events⟩ := by
  unfold Durable.loadHistory
  rw [h.selected]
  rfl

theorem loadHistory_error {e : DurableError} (hload : loadHistory S db t = .error e) :
    e = .json := by
  rw [h.loadHistory] at hload
  cases hdec : decodeHistoryRows S t (db.eventsOf t) [] 0 with
  | ok => simp [hdec] at hload
  | error =>
    rw [hdec, error_bind] at hload
    obtain rfl := error.inj hload
    exact decodeHistoryRows_error (by simpa using h.count)
      (by simpa [historyBytes] using h.bytes) hdec

theorem loadHistory_ok (hparse : ∀ row ∈ db.eventsOf t, (S.fromStr row.payload).isSome) :
    ∃ events, loadHistory S db t = .ok ⟨t, events⟩ ∧ events.map TaskEvent.row = db.eventsOf t ∧
      ∀ ev ∈ events, S.fromStr ev.payloadJson = some ev.payload := by
  have htask : ∀ row ∈ db.eventsOf t, row.taskId = t := by simp [eventsOf]
  obtain ⟨events, hdec, hrows, hpay⟩ := decodeHistoryRows_ok [] 0
    (by simpa using h.count) (by simpa [historyBytes] using h.bytes) htask hparse
  refine ⟨events, ?_, hrows, hpay⟩
  rw [h.loadHistory, hdec]
  rfl

theorem loadHistory_rows {history : History J} (hload : loadHistory S db t = .ok history) :
    history.events.map TaskEvent.row = db.eventsOf t ∧
      ∀ ev ∈ history.events, S.fromStr ev.payloadJson = some ev.payload := by
  have hparse : ∀ row ∈ db.eventsOf t, (S.fromStr row.payload).isSome := by
    rw [h.loadHistory, bind_ok] at hload
    obtain ⟨_, hdec, -⟩ := hload
    exact decodeHistoryRows_parses hdec
  obtain ⟨_, hok, hrows, hpay⟩ := loadHistory_ok h hparse
  obtain rfl := ok.inj (hok.symm.trans hload)
  exact ⟨hrows, hpay⟩

end

/-! ## Events since the last prune -/

def Call.retain (S : Crates J) (t : TaskId) (seen : List EventRow) (c : Call J) : List EventRow :=
  if c.Prunes t then [] else seen ++ (c.appended S).filter fun row => row.taskId = t

/-- The events of a task appended since it was last pruned, in the order of the calls. -/
def retained (S : Crates J) (t : TaskId) (tr : List (Call J)) : List EventRow :=
  tr.foldl (Call.retain S t) []

theorem eventsOf_apply (db : Db) {e : Effect} (hprune : e ≠ .prune t) :
    (e.apply db).eventsOf t = db.eventsOf t ++ e.appended.filter fun row => row.taskId = t := by
  have hevents := apply_events db e
  have hone : ∀ row, (e.apply db).events = db.events ++ [row] → e.appended = [row] →
      (e.apply db).eventsOf t = db.eventsOf t ++ e.appended.filter fun row => row.taskId = t := by
    intro row hev happ
    rw [eventsOf_append db _ row t hev, happ]
    split <;> simp_all
  cases e with
  | append row | consume row => exact hone row hevents rfl
  | admitModule _ _ ev => exact hone ev hevents rfl
  | prune u =>
    have hne : t ≠ u := by
      rintro rfl
      exact hprune rfl
    rw [eventsOf_filter db _ u t hevents, if_neg hne]
    simp [appended]
  | _ => exact (append_nil _).symm

theorem eventsOf_of_pruned (h : (effects S).Chain db es db') (honly : ∀ e ∈ es, ∃ u, e = .prune u)
    (hmem : .prune t ∈ es) : db'.eventsOf t = [] := by
  have htrack := Guarded.Chain.tracks (P := fun g db => .prune t ∈ g → db.eventsOf t = [])
    (fun e => [e]) (fun e => ∃ u, e = .prune u) ?_ h honly (g := []) (by simp)
  · exact htrack (by simpa using hmem)
  rintro g s _ ⟨u, rfl⟩ hp - hin
  have hev : (apply s (.prune u)).eventsOf t = _ :=
    eventsOf_filter s _ u t (apply_events s (.prune u))
  refine hev.trans ?_
  split
  · rfl
  · rename_i hne
    refine hp ?_
    simpa [hne] using hin

theorem Committed.retains {c : Call J} (h : Committed S c es) (t : TaskId) :
    c.after.eventsOf t = c.retain S t (c.before.eventsOf t) := by
  unfold Call.retain
  by_cases hprune : c.Prunes t
  · have hmem := (h.prunes t).mpr hprune
    rw [if_pos hprune]
    exact eventsOf_of_pruned h.chain (h.pruneOnly t hmem) hmem
  rw [if_neg hprune, h.appended]
  have htrack := Guarded.Chain.tracks (g := [])
    (P := fun g db => db.eventsOf t = c.before.eventsOf t ++ g.filter fun row => row.taskId = t)
    Effect.appended (fun e => e ≠ .prune t) ?_ h.chain
    (Committed.keeps_task c es h hprune) (by simp)
  · simpa using htrack
  · intro g db e hgood hp _
    rw [show (effects S).apply db e = e.apply db from rfl, eventsOf_apply db hgood, hp,
      filter_append, append_assoc]

theorem eventsOf_after (ops : List (Op J)) (t : TaskId) :
    (after S fresh ops).eventsOf t = retained S t (calls S fresh ops) := by
  refine (trace_invariant (call S) fresh
    (P := fun tr db => db.Opened ∧ db.eventsOf t = retained S t tr)
    ⟨fresh_opened, rfl⟩ ?_ ops).2
  rintro _ _ op ⟨hopen, hev⟩
  obtain ⟨es, hes⟩ := call_committed S hopen op
  refine ⟨hes.opened hopen, ?_⟩
  have hstep := hes.retains t
  simp only [retained, foldl_append, foldl_cons, foldl_nil]
  rw [← retained, ← hev]
  exact hstep

/-! ## Readable payloads -/

/-- `serde_json` parses what it printed for the payload of an append. -/
def Op.Prints (S : Crates J) : Op J → Prop
  | .appendEvent _ _ _ ev _ _ => (S.fromStr (S.toStr ev.payload)).isSome
  | .appendEventWithWakeup _ _ _ ev _ _ _ => (S.fromStr (S.toStr ev.payload)).isSome
  | _ => True

theorem call_readable {op : Op J} (hprints : op.Prints S) :
    ∀ row ∈ Call.appended S (entry (call S) db op), (S.fromStr row.payload).isSome := by
  rcases call_cases S db op with ⟨_, -, hcall⟩ | ⟨r, db', hok, hcall⟩
  · simp [entry, hcall, Call.appended]
  have hentry : entry (call S) db op = ⟨db, op, .ok r, db'⟩ := by simp [entry, hcall]
  rw [hentry]
  have hevent : ∀ {ev : TaskEvent J} {t : TaskId} {sequence : ℕ} {kind : EventKind}
      {key payload : String} {time : ℕ}, (S.fromStr payload).isSome →
      ev.row = ⟨t, sequence, kind, key, payload, time⟩ →
      ∀ row ∈ [ev.row], (S.fromStr row.payload).isSome := by
    intro ev t sequence kind key payload time hparse hrow row hmem
    obtain rfl := mem_singleton.mp hmem
    rw [hrow]
    exact hparse
  cases op
  all_goals obtain ⟨v, h, rfl⟩ := replying_ok.mp hok
  case appendEventJsonAt =>
    obtain ⟨happ, hparse⟩ := appendEventJsonAt_commits h
    exact hevent (by simp [hparse]) happ.row
  case appendEventJsonWithWakeupAt =>
    obtain ⟨happ, hparse⟩ := appendEventJsonWithWakeupAt_commits h
    exact hevent (by simp [hparse]) happ.row
  case appendEvent =>
    exact hevent hprints (appendEventInner_commits h).row
  case appendEventWithWakeup =>
    exact hevent hprints (appendEventWithWakeupInner_commits h).row
  case pollSignal =>
    rcases pollSignal_commits h with ⟨rfl, -⟩ | ⟨_, _, rfl, hsome⟩
    · simp [Call.appended]
    · exact hevent (by simp [hsome.parses]) hsome.row
  case admitModule =>
    rcases admitModule_commits h with ⟨hrow, -⟩ | ⟨hrow, -, -, -, -, -, -, hparse⟩
    · simp [Call.appended, Option.isSome_iff_ne_none.mp hrow]
    · simpa [Call.appended, hrow] using hparse
  all_goals simp [Call.appended]

theorem mem_retained {tr : List (Call J)} (h : row ∈ retained S t tr) :
    ∃ c ∈ tr, row ∈ c.appended S := by
  induction tr using reverseRecOn with
  | nil => simp [retained] at h
  | append_singleton _ c ih =>
    simp only [retained, foldl_append, foldl_cons, foldl_nil] at h
    rw [← retained, Call.retain] at h
    split at h
    · simp at h
    · rcases mem_append.mp h with h | h
      · obtain ⟨c', hc', hrow⟩ := ih h
        exact ⟨c', mem_append_left _ hc', hrow⟩
      · exact ⟨c, by simp, mem_of_mem_filter h⟩

/-! ## History integrity -/

def Op.expects? : Op J → Option (TaskId × ℕ)
  | .appendEventJsonAt _ t exp .. => some (t, exp)
  | .appendEventJsonWithWakeupAt _ t exp .. => some (t, exp)
  | .appendEvent _ t exp .. => exp.map (t, ·)
  | .appendEventWithWakeup _ t exp .. => exp.map (t, ·)
  | _ => none

theorem Appended.expects_length {execution : Option ExecutionClaim} {exp : Option ℕ}
    {kind : EventKind} {key payload : String} {time : ℕ} {wakeAtMs : Option ℕ} {clock : ℤ}
    {ev : TaskEvent J} (hist : db.HistoryOk t)
    (h : Appended execution db db' t exp kind key payload time wakeAtMs clock ev) {n : ℕ}
    (hn : exp = some n) : n = (db.eventsOf t).length := by
  have htask : ev.row.taskId = t := by rw [h.row]
  have hseq := h.appendable.sequence
  rw [htask, hist.nextSequence] at hseq
  exact (h.expects n hn).trans hseq

/-- In every state reached from a new store: the history invariant holds, no limit can stop
`load_history`, it returns the events appended since the task was last pruned, and an append
at an expected sequence succeeds only at the end of the history. -/
theorem history_integrity (S : Crates J) (ops : List (Op J)) (t : TaskId)
    (hprints : ∀ op ∈ ops, op.Prints S) : (after S fresh ops).HistoryOk t ∧
      (∀ e, loadHistory S (after S fresh ops) t = .error e → e = .json) ∧
      (∃ events, loadHistory S (after S fresh ops) t = .ok ⟨t, events⟩ ∧
        events.map TaskEvent.row = retained S t (calls S fresh ops) ∧
        ∀ ev ∈ events, S.fromStr ev.payloadJson = some ev.payload) ∧
      ∀ op : Op J, ∀ n r db', op.expects? = some (t, n) →
        perform S (after S fresh ops) op = .ok (r, db') →
        n = ((after S fresh ops).eventsOf t).length := by
  have hist := historyOk_after (S := S) ops t
  refine ⟨hist, fun e he => loadHistory_error hist he, ?_, ?_⟩
  · have hparse : ∀ row ∈ (after S fresh ops).eventsOf t, (S.fromStr row.payload).isSome := by
      intro row hrow
      rw [eventsOf_after] at hrow
      obtain ⟨_, hc, happ⟩ := mem_retained hrow
      obtain ⟨db, op, hop, rfl⟩ := mem_trace _ _ hc
      exact call_readable (hprints op hop) row happ
    obtain ⟨events, hload, hrows, hpay⟩ := loadHistory_ok hist hparse
    exact ⟨events, hload, hrows.trans (eventsOf_after ops t), hpay⟩
  intro op n r db' hop hok
  cases op with
  | appendEventJsonAt =>
    cases hop
    obtain ⟨_, h, -⟩ := replying_ok.mp hok
    exact (appendEventJsonAt_commits h).1.expects_length hist rfl
  | appendEventJsonWithWakeupAt =>
    cases hop
    obtain ⟨_, h, -⟩ := replying_ok.mp hok
    exact (appendEventJsonWithWakeupAt_commits h).1.expects_length hist rfl
  | appendEvent _ u exp ev =>
    obtain ⟨_, h, -⟩ := replying_ok.mp hok
    obtain ⟨hexp, rfl⟩ : exp = some n ∧ u = t := by simpa [Op.expects?] using hop
    exact (appendEventInner_commits h).expects_length hist hexp
  | appendEventWithWakeup _ u exp ev =>
    obtain ⟨_, h, -⟩ := replying_ok.mp hok
    obtain ⟨hexp, rfl⟩ : exp = some n ∧ u = t := by simpa [Op.expects?] using hop
    exact (appendEventWithWakeupInner_commits h).expects_length hist hexp
  | _ => cases hop

/-- A run that completes a task with one event and prunes it. -/
def prunedRun : List (Op Bool) :=
  [.putProgram 7 .module "42" 0, .appendEventJsonAt none 7 0 .step "k" "true" 0 0 0,
    .finishTask none 7 1 true 5 none ⟨0, 0, 0, 0⟩, .pruneCompleted 10 1]

theorem history_integrity_before_prune : (∀ op ∈ prunedRun.take 3, op.Prints bools) ∧
      ∃ events, loadHistory bools (after bools fresh (prunedRun.take 3)) 7 =
          .ok ⟨7, events⟩ ∧ events.map TaskEvent.row = [⟨7, 0, .step, "k", "true", 0⟩] := by
  have hprints : ∀ op ∈ prunedRun.take 3, op.Prints bools := by
    simp [prunedRun, Op.Prints]
  obtain ⟨events, hload, hrows, -⟩ := (history_integrity bools (prunedRun.take 3) 7 hprints).2.2.1
  exact ⟨hprints, events, hload, hrows.trans (by decide)⟩

/-- After the prune the append that returned its event is no longer part of the history. -/
theorem pruned_append_not_loaded : ((calls bools fresh prunedRun).flatMap (Call.appended bools)) =
        [⟨7, 0, .step, "k", "true", 0⟩] ∧
      loadHistory bools (after bools fresh prunedRun) 7 = .ok ⟨7, []⟩ :=
  ⟨by decide, rfl⟩

end Tysel.Durable
