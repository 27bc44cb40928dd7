import Tysel.Shared.Numbered
import Tysel.Verification.Durable.History

/-! Of every signal name, the accepted signals are the consumed ones followed by the pending
ones. The inbox ids increase in the order of acceptance, so the oldest pending signal is
the first accepted one that was not yet consumed. -/

namespace Tysel.Durable

open List EventRow Effect Db

variable {J : Type} {S : Crates J}

structure Db.InboxOk (db : Db) : Prop where
  numbered : Numbered InboxRow.id db.signalInbox
  allocated : ∀ row ∈ db.signalInbox, row.id ≤ db.inboxSequence

theorem Db.InboxOk.apply {db : Db} (h : db.InboxOk) (e : Effect) : (e.apply db).InboxOk := by
  have hinbox := apply_signalInbox db e
  have hsequence := apply_inboxSequence db e
  have hfilter : ∀ p : InboxRow → Bool, (e.apply db).signalInbox = db.signalInbox.filter p →
      (e.apply db).inboxSequence = db.inboxSequence → (e.apply db).InboxOk := by
    intro p hrows hseq
    refine ⟨hrows ▸ h.numbered.filter p, fun row hmem => ?_⟩
    rw [hrows] at hmem
    exact hseq ▸ h.allocated row (mem_filter.mp hmem).1
  cases e with
  | signal =>
    constructor
    · rw [hinbox]
      exact h.numbered.concat fun a ha => Nat.lt_succ_of_le (h.allocated a ha)
    intro a ha
    rw [hsequence]
    rcases mem_append.mp ha with ha | ha
    · exact Nat.le_succ_of_le (h.allocated a ha)
    · rw [mem_singleton.mp ha]
  | consume | prune => exact hfilter _ hinbox hsequence
  | _ => exact ⟨h.numbered, h.allocated⟩

theorem Db.fresh_inboxOk : fresh.InboxOk := ⟨List.Pairwise.nil, by simp [fresh, empty]⟩

theorem Committed.inboxOk {c : Call J} {es : List Effect} (h : Committed S c es)
    (hinbox : c.before.InboxOk) : c.after.InboxOk :=
  Guarded.Chain.invariant (fun _ => True) (fun _ e _ hp _ => hp.apply e) h.chain
    (fun _ _ => trivial) hinbox

theorem inboxOk_after (ops : List (Op J)) : (after S fresh ops).InboxOk :=
  run_keeps_all (fun _ e h _ => h.apply e) fresh_opened fresh_inboxOk ops

def Db.signalQueue (db : Db) (t : TaskId) (name : String) : List InboxRow :=
  ((db.inboxOf t).filter fun row => row.signalName = name).insertionSort
    fun a b => a.id ≤ b.id

def Db.signalEvents (db : Db) (t : TaskId) (name : String) : List EventRow :=
  ((db.eventsOf t).filter fun row => row.kind = .signal ∧ row.eventKey = name).insertionSort
    fun a b => a.sequence ≤ b.sequence

def InboxRow.isFor (t : TaskId) (name : String) (row : InboxRow) : Bool :=
  row.taskId = t ∧ row.signalName = name

def EventRow.consumed (t : TaskId) (name : String) (row : EventRow) : Bool :=
  row.taskId = t ∧ row.kind = .signal ∧ row.eventKey = name

/-- The signals of a name that the calls of a run have accepted, in that order. -/
def acceptedSignals (S : Crates J) (t : TaskId) (name : String) (cs : List (Call J)) :
    List InboxRow :=
  (cs.flatMap (Call.accepted S)).filter (InboxRow.isFor t name)

theorem Db.InboxOk.signalQueue {db : Db} (h : db.InboxOk) (t : TaskId) (name : String) :
    db.signalQueue t name = db.signalInbox.filter (InboxRow.isFor t name) := by
  have hrows : (db.inboxOf t).filter (fun row => row.signalName = name) =
      db.signalInbox.filter (InboxRow.isFor t name) := by
    rw [inboxOf, filter_filter]
    refine filter_congr fun row _ => ?_
    simp [InboxRow.isFor, and_comm]
  rw [Db.signalQueue, hrows, (h.numbered.filter _).insertionSort_eq]

theorem Db.HistoryOk.signalEvents {db : Db} {t : TaskId} (h : db.HistoryOk t) (name : String) :
    db.signalEvents t name = db.events.filter (consumed t name) := by
  have hrows : (db.eventsOf t).filter (fun row => row.kind = .signal ∧ row.eventKey = name) =
      db.events.filter (consumed t name) := by
    rw [eventsOf, filter_filter]
    refine filter_congr fun row _ => ?_
    simp [consumed, and_comm]
  have hnum : Numbered sequence (db.eventsOf t) := by
    refine pairwise_map.mp ?_
    rw [h.sequences]
    exact pairwise_lt_range
  rw [Db.signalEvents, (hnum.filter _).insertionSort_eq, hrows]

/-- The effects a run may commit while signals of `task` are consumed by polls only. -/
structure Effect.PollsOnly (t : TaskId) (e : Effect) : Prop where
  keeps : e ≠ .prune t
  appends : ∀ row wakeAtMs, e = .append row wakeAtMs → row.taskId = t → row.kind ≠ .signal

/-- What was accepted is what was consumed followed by what is pending. -/
structure SignalsConserved (t : TaskId) (name : String) (accepted : List InboxRow)
    (db : Db) : Prop where
  inbox : db.InboxOk
  payloads : (accepted.filter (InboxRow.isFor t name)).map InboxRow.payload =
    (db.events.filter (consumed t name)).map payload ++
      (db.signalInbox.filter (InboxRow.isFor t name)).map InboxRow.payload

variable {t : TaskId} {name : String} {accepted : List InboxRow} {db : Db}

theorem SignalsConserved.of_same (h : SignalsConserved t name accepted db) {e : Effect}
    (hevents : (e.apply db).events.filter (consumed t name) = db.events.filter (consumed t name))
    (hinbox : (e.apply db).signalInbox.filter (InboxRow.isFor t name) =
      db.signalInbox.filter (InboxRow.isFor t name)) :
    SignalsConserved t name (accepted ++ []) (e.apply db) := by
  refine ⟨h.inbox.apply e, ?_⟩
  rw [append_nil, hevents, hinbox, h.payloads]

theorem filter_consumed_concat {rows : List EventRow} {row : EventRow}
    (h : consumed t name row = false) :
    (rows ++ [row]).filter (consumed t name) = rows.filter (consumed t name) := by
  rw [filter_append, filter_cons_of_neg (by simp [h]), filter_nil, append_nil]

section

variable (h : SignalsConserved t name accepted db)

include h

theorem SignalsConserved.signal (row : InboxRow) (receipt : Option ReceiptRow) :
    SignalsConserved t name (accepted ++ [row]) (apply db (.signal row receipt)) := by
  refine ⟨h.inbox.apply _, ?_⟩
  rw [apply_events, apply_signalInbox]
  simp only [filter_append, map_append, h.payloads, append_assoc]
  congr 2
  by_cases hfor : row.taskId = t ∧ row.signalName = name <;> simp [InboxRow.isFor, hfor]

theorem SignalsConserved.consume {row : EventRow} {queued : InboxRow} {claimed : Bool}
    (hen : Effect.Enabled S db (.consume row queued claimed)) :
    SignalsConserved t name (accepted ++ [])
      (apply db (.consume row queued claimed)) := by
  obtain ⟨-, hold, hkind, hpay, -⟩ := hen
  obtain ⟨hmem, htask, hname⟩ := oldestSignal_mem hold
  have hevents := apply_events db (.consume row queued claimed)
  have hinbox := apply_signalInbox db (.consume row queued claimed)
  by_cases hfor : row.taskId = t ∧ row.eventKey = name
  · -- the head of the queue becomes the last consumed signal
    obtain ⟨rfl, rfl⟩ := hfor
    have hqueue := h.inbox.signalQueue row.taskId row.eventKey
    have hhead : (db.signalInbox.filter (InboxRow.isFor row.taskId row.eventKey)).head? =
        some queued := hqueue ▸ hold
    obtain ⟨_, hrest⟩ := head?_eq_some_iff.mp hhead
    refine ⟨h.inbox.apply _, ?_⟩
    rw [hevents, hinbox, h.inbox.numbered.filter_delete_head hhead, append_nil, h.payloads,
      hrest, filter_append]
    simp [consumed, hkind, hpay]
  · refine h.of_same ?_ ?_
    · rw [hevents]
      refine filter_consumed_concat ?_
      simpa [consumed, hkind] using hfor
    · rw [hinbox]
      refine h.inbox.numbered.filter_delete_of_not hmem ?_
      simpa [InboxRow.isFor, htask, hname] using hfor

theorem SignalsConserved.apply {e : Effect} (hgood : e.PollsOnly t) (hen : e.Enabled S db) :
    SignalsConserved t name (accepted ++ e.accepted) (e.apply db) := by
  have hevents := apply_events db e
  have hinbox := apply_signalInbox db e
  cases e with
  | signal row receipt => exact h.signal row receipt
  | consume => exact h.consume hen
  | append =>
    refine h.of_same ?_ (by rw [hinbox])
    refine filter_consumed_concat ?_
    simpa [consumed] using fun htask hkind => absurd hkind (hgood.appends _ _ rfl htask)
  | admitModule =>
    refine h.of_same ?_ (by rw [hinbox])
    rw [hevents]
    exact filter_consumed_concat (by simp [consumed, hen.2.2.2.1])
  | prune u =>
    have hne : t ≠ u := by
      rintro rfl
      exact hgood.keeps rfl
    refine h.of_same ?_ ?_
    · rw [hevents, filter_filter_ne (fun _ hrow => (of_decide_eq_true hrow).1) hne]
    · rw [hinbox, filter_filter_ne (fun _ hrow => (of_decide_eq_true hrow).1) hne]
  | _ => exact h.of_same (by rw [hevents]) (by rw [hinbox])

end

theorem Committed.pollsOnly {c : Call J} {es : List Effect} (h : Committed S c es)
    (hkept : ¬ c.Prunes t)
    (hpolls : ∀ row ∈ c.appended S, row.taskId = t → row.kind = .signal →
      c.input.isPoll = true) : ∀ e ∈ es, e.PollsOnly t := by
  intro e he
  refine ⟨Committed.keeps_task c es h hkept e he, ?_⟩
  rintro row wakeAtMs rfl htask hkind
  have hrow : row ∈ c.appended S := by
    rw [h.appended]
    exact mem_flatMap.mpr ⟨_, he, by simp [Effect.appended]⟩
  have happends : c.input.appends? = _ := (h.origin _ he).arguments
  have hpoll := hpolls row hrow htask hkind
  cases hop : c.input <;> simp [hop, Op.isPoll, Op.appends?] at hpoll happends

/-- While a task is not pruned and Signal events are written by polls only: the accepted
signals of a name are the consumed ones in history order followed by the pending ones in
id order. A failed call changes nothing, and a reply that is not an acceptance or a
consumption leaves both lists as they are. -/
theorem signal_conservation (S : Crates J) (ops : List (Op J)) (t : TaskId) (name : String)
    (hkept : ∀ c ∈ calls S fresh ops, ¬ c.Prunes t)
    (hpolls : ∀ c ∈ calls S fresh ops, ∀ row ∈ c.appended S, row.taskId = t →
      row.kind = .signal → c.input.isPoll = true) :
    (acceptedSignals S t name (calls S fresh ops)).map InboxRow.payload =
        ((after S fresh ops).signalEvents t name).map payload ++
          ((after S fresh ops).signalQueue t name).map InboxRow.payload ∧
      ∀ c ∈ calls S fresh ops, (∃ e, c.output = .error e) → c.after = c.before := by
  constructor
  · have hrun := run_tracks (P := SignalsConserved t name) (Call.accepted S)
      accepted (Effect.PollsOnly t)
      (fun c => ¬ c.Prunes t ∧ ∀ row ∈ c.appended S, row.taskId = t →
        row.kind = .signal → c.input.isPoll = true)
      (fun c es h => h.accepted) (fun c es h hc => h.pollsOnly hc.1 hc.2)
      (fun _ _ _ hgood h hen => h.apply hgood hen) fresh_opened
      ⟨fresh_inboxOk, rfl⟩ ops (fun c hc => ⟨hkept c hc, hpolls c hc⟩)
    rw [(historyOk_after ops t).signalEvents, hrun.inbox.signalQueue]
    exact hrun.payloads
  · rintro _ hc ⟨_, he⟩
    obtain ⟨db, op, -, rfl⟩ := mem_trace _ _ hc
    exact entry_unchanged_of_error he

/-- Two signals are accepted and a keyed one without a program is refused; a poll consumes
the first signal, and a poll at a stale sequence is refused. -/
def deliveryRun : List (Op Bool) :=
  [.sendSignal 7 "go" true 5 none, .sendSignal 7 "go" false 6 (some "again"),
    .sendSignal 7 "go" false 6 none, .pollSignal none 7 0 "go" 7 none 7 7,
    .pollSignal none 7 0 "go" 8 none 8 8]

theorem signal_conservation_delivery :
    ((after bools fresh deliveryRun).signalEvents 7 "go").map payload = ["true"] ∧
      ((after bools fresh deliveryRun).signalQueue 7 "go").map InboxRow.payload =
        ["false"] ∧ (acceptedSignals bools 7 "go" (calls bools fresh deliveryRun)).map
        InboxRow.payload = ["true", "false"] := by
  have hrun := signal_conservation bools deliveryRun 7 "go" (by decide) (by decide)
  have hevents : ((after bools fresh deliveryRun).signalEvents 7 "go").map
      payload = ["true"] := by decide
  have hqueue : ((after bools fresh deliveryRun).signalQueue 7 "go").map
      InboxRow.payload = ["false"] := by decide
  refine ⟨hevents, hqueue, ?_⟩
  rw [hrun.1, hevents, hqueue]
  rfl

end Tysel.Durable
