import Tysel.Verification.Engine.Sessions

/-! A session has loaded a front part of the stored history and has passed a number of its
events. A lookup passes the next loaded event or finds the history exhausted; a host call
that writes either leaves the stored history alone or appends the event that the session
passes next. -/

namespace Tysel.Engine

open Tysel.Durable List Option Nat ReplayCursor DurableSession TaskEvent
open DurableSession (Found sleepElapsed found lookupJson checked record stored recordSleep
  finishSleep completeSleep recordInputJson pollSignalJson findRetryOutcomeJson captureStorage)

variable {J : Type} {S : Crates J} {db db' : Db} {t : TaskId} {H : List EventRow}
  {σ s' : DurableSession J} {payload : String} {e : SessionError}

/-! ## Positions -/

namespace DurableSession

def Exhausted (σ : DurableSession J) : Prop := σ.replay.events.length ≤ σ.replay.position

instance : Decidable σ.Exhausted := inferInstanceAs (Decidable (_ ≤ _))

/-- The number of events that the session has replayed or recorded. -/
def passed (σ : DurableSession J) : ℕ :=
  if σ.Exhausted then σ.nextSequence else σ.replay.position

def remaining (σ : DurableSession J) : List EventRow :=
  (σ.replay.events.drop σ.replay.position).map row

end DurableSession

/-- The session has loaded a front part of the history `H` of its task. -/
structure Replaying (t : TaskId) (H : List EventRow) (σ : DurableSession J) : Prop where
  ofTask : σ.taskId = t
  rows : σ.replay.events.map row = H.take σ.replay.events.length
  pending : ¬ σ.Exhausted → σ.nextSequence = σ.replay.events.length
  loaded : σ.replay.events.length ≤ σ.nextSequence
  stored : σ.nextSequence ≤ H.length
  token : ¬ σ.Exhausted → ∀ token, σ.activeWakeup = some token →
    token.kind = .sleep → token.sequence + 1 = σ.replay.events.length

theorem passed_of_exhausted (h : σ.Exhausted) : σ.passed = σ.nextSequence := if_pos h

theorem passed_of_pending (h : ¬ σ.Exhausted) : σ.passed = σ.replay.position := if_neg h

theorem remaining_of_exhausted (h : σ.Exhausted) : σ.remaining = [] := by
  rw [remaining, drop_of_length_le h, map_nil]

theorem Replaying.passed_le (h : Replaying t H σ) : σ.passed ≤ H.length := by
  by_cases hend : σ.Exhausted
  · rw [passed_of_exhausted hend]
    exact h.stored
  · rw [passed_of_pending hend]
    unfold Exhausted at hend
    have := h.loaded.trans h.stored
    omega

theorem Replaying.grow (h : Replaying t H σ) {H' : List EventRow} (hgrow : H <+: H') :
    Replaying t H' σ where
  ofTask := h.ofTask
  rows := by
    obtain ⟨-, rfl⟩ := hgrow
    rw [h.rows, take_append_of_le_length (h.loaded.trans h.stored)]
  pending := h.pending
  loaded := h.loaded
  stored := h.stored.trans hgrow.length_le
  token := h.token

structure SameCursor (σ s' : DurableSession J) : Prop where
  task : s'.taskId = σ.taskId
  replay : s'.replay = σ.replay
  sequence : s'.nextSequence = σ.nextSequence
  token : ∀ token, s'.activeWakeup = some token → σ.activeWakeup = some token

namespace SameCursor

theorem refl (σ : DurableSession J) : SameCursor σ σ := ⟨rfl, rfl, rfl, fun _ h => h⟩

theorem trans {s : DurableSession J} (h : SameCursor σ s) (h' : SameCursor s s') :
    SameCursor σ s' :=
  ⟨h'.task.trans h.task, h'.replay.trans h.replay, h'.sequence.trans h.sequence,
    fun token ht => h.token token (h'.token token ht)⟩

section

variable (h : SameCursor σ s')

include h

theorem exhausted : s'.Exhausted ↔ σ.Exhausted := by
  simp only [Exhausted, h.replay]

theorem passed : s'.passed = σ.passed := by
  by_cases hend : σ.Exhausted
  · rw [passed_of_exhausted hend, passed_of_exhausted (h.exhausted.mpr hend), h.sequence]
  · rw [passed_of_pending hend, passed_of_pending (mt h.exhausted.mp hend), h.replay]

theorem remaining : s'.remaining = σ.remaining := by
  simp only [DurableSession.remaining, h.replay]

theorem replaying (hr : Replaying t H σ) : Replaying t H s' where
  ofTask := h.task.trans hr.ofTask
  rows := by
    rw [h.replay]
    exact hr.rows
  pending hp := by
    rw [h.sequence, h.replay]
    exact hr.pending fun hend => hp (h.exhausted.mpr hend)
  loaded := by
    rw [h.replay, h.sequence]
    exact hr.loaded
  stored := h.sequence ▸ hr.stored
  token hp token ht hkind := by
    rw [h.replay]
    exact hr.token (fun hend => hp (h.exhausted.mpr hend)) token (h.token token ht) hkind

end

end SameCursor

variable {ev : TaskEvent J} {key : String} {clock : ℤ} {kind : EventKind} {n : ℕ}

theorem Replaying.getElem?_events (h : Replaying t H σ)
    (hn : σ.replay.events[n]? = some ev) : H[n]? = some ev.row := by
  have hlt : n < σ.replay.events.length := (List.getElem?_eq_some_iff.mp hn).1
  calc H[n]? = (H.take σ.replay.events.length)[n]? := by rw [getElem?_take, if_pos hlt]
    _ = (σ.replay.events.map row)[n]? := by rw [h.rows]
    _ = some ev.row := by rw [getElem?_map, hn, map_some]

/-- The same session at another position of its loaded events. -/
structure MovedTo (n : ℕ) (σ s' : DurableSession J) : Prop where
  task : s'.taskId = σ.taskId
  replay : s'.replay = ⟨σ.replay.events, n⟩
  sequence : s'.nextSequence = σ.nextSequence
  token : s'.activeWakeup = σ.activeWakeup

theorem Replaying.move (h : Replaying t H σ) (hmov : MovedTo n σ s') (hpos : σ.replay.position < n)
    (hn : n ≤ σ.replay.events.length) : Replaying t H s' ∧ s'.passed = n ∧
      s'.remaining ⊆ σ.remaining := by
  have hend : ¬ σ.Exhausted := by
    unfold Exhausted
    omega
  have hnext := h.pending hend
  refine ⟨⟨hmov.task.trans h.ofTask, ?_, fun _ => ?_, ?_, ?_, fun _ => ?_⟩, ?_, ?_⟩
  · rw [hmov.replay]
    exact h.rows
  · rw [hmov.sequence, hmov.replay, hnext]
  · rw [hmov.replay, hmov.sequence]
    exact h.loaded
  · exact hmov.sequence ▸ h.stored
  · rw [hmov.token, hmov.replay]
    exact h.token hend
  · by_cases hend' : s'.Exhausted
    · rw [passed_of_exhausted hend', hmov.sequence, hnext]
      rw [Exhausted, hmov.replay] at hend'
      exact le_antisymm hend' hn
    · rw [passed_of_pending hend', hmov.replay]
  have hdrop : σ.replay.events.drop n =
      (σ.replay.events.drop σ.replay.position).drop (n - σ.replay.position) := by
    rw [drop_drop]
    congr 1
    omega
  simp only [remaining, hmov.replay, hdrop]
  exact map_subset _ (drop_subset _ _)

/-! ## Lookups -/

/-- What a lookup has found, and the session after it. -/
inductive Looked (t : TaskId) (H : List EventRow) (σ : DurableSession J)
    (kind : EventKind) (key : String) :
    Except SessionError (Option Found) → DurableSession J → Prop
  | failed (e : DurableError) : Looked t H σ kind key (.error (.storage e)) σ
  | beyond {s' : DurableSession J} (hend : σ.Exhausted)
      (hsame : SameCursor σ s') : Looked t H σ kind key (.ok none) s'
  | replayed {s' : DurableSession J} {row : EventRow} {found : Found}
      (hro : H[σ.passed]? = some row) (hmem : row ∈ σ.remaining)
      (hkind : row.kind = kind) (hkey : row.eventKey = key) (hfound : found.payload = row.payload)
      (hreplaying : Replaying t H s') (hpassed : s'.passed = σ.passed + 1)
      (hrest : s'.remaining ⊆ σ.remaining)
      (hlast : kind = .sleep → s'.sleepElapsed = false → s'.Exhausted) :
      Looked t H σ kind key (.ok (some found)) s'
  | mismatch {row : EventRow} (e : ReplayError) (hro : H[σ.passed]? = some row)
      (hmem : row ∈ σ.remaining) (hnot : ¬ (row.kind = kind ∧ row.eventKey = key)) :
      Looked t H σ kind key (.error (.replay e)) σ

section

variable (hev : σ.replay.events[σ.replay.position]? = some ev)

include hev

theorem not_exhausted_of_event : ¬ σ.Exhausted := by
  have hlt := (List.getElem?_eq_some_iff.mp hev).1
  simpa [Exhausted] using hlt

variable (h : Replaying t H σ)

include h

theorem Replaying.next_event : H[σ.passed]? = some ev.row ∧ ev.row ∈ σ.remaining := by
  have hlt := (List.getElem?_eq_some_iff.mp hev).1
  constructor
  · rw [passed, if_neg (not_exhausted_of_event hev)]
    exact h.getElem?_events hev
  · refine mem_map_of_mem ?_
    rw [drop_eq_getElem_cons hlt]
    simp [(List.getElem?_eq_some_iff.mp hev).2]

theorem Replaying.advance (hmov : MovedTo (σ.replay.position + 1) σ s') :
    Replaying t H s' ∧ s'.passed = σ.passed + 1 ∧ s'.remaining ⊆ σ.remaining := by
  have hlt := (List.getElem?_eq_some_iff.mp hev).1
  have hpassed : σ.passed = σ.replay.position := if_neg (not_exhausted_of_event hev)
  rw [hpassed]
  exact h.move hmov (lt_succ_self _) hlt

theorem Replaying.looked_other (hother : ev.kind ≠ kind ∨ ev.key ≠ key) (e : ReplayError) :
    Looked t H σ kind key (.error (.replay e)) σ :=
  .mismatch e (h.next_event hev).1 (h.next_event hev).2 fun hsame =>
    hother.elim (absurd hsame.1) (absurd hsame.2)

section

variable (hnumbered : H.map EventRow.sequence = List.range H.length)

include hnumbered

/-- The wakeup that a session was resumed for belongs to the last loaded event. -/
theorem Replaying.sleep_last (hmov : MovedTo (σ.replay.position + 1) σ s')
    (hreplayed : s'.replayedSleep = some ev.sequence)
    (hactive : s'.sleepElapsed = false) : s'.Exhausted := by
  have hsequence : ev.sequence = σ.replay.position := by
    have hro := congrArg (Option.map EventRow.sequence) (h.getElem?_events hev)
    rw [← getElem?_map, hnumbered] at hro
    have hvalue := (List.getElem?_eq_some_iff.mp hro).2
    rw [getElem_range] at hvalue
    exact hvalue.symm
  simp only [sleepElapsed, hreplayed, any_some, Bool.not_eq_false',
    any_eq_true_iff_get, Bool.and_eq_true, decide_eq_true_eq] at hactive
  obtain ⟨hsome, hkind, _⟩ := hactive
  have htoken := h.token (not_exhausted_of_event hev) _
    (hmov.token ▸ (some_get hsome).symm) hkind
  rw [Exhausted, hmov.replay]
  dsimp only
  omega

theorem Replaying.looked_next (hkind : ev.kind = kind) (hkey : ev.key = key)
    (hmov : MovedTo (σ.replay.position + 1) σ s')
    (hreplayed : kind = .sleep → s'.replayedSleep = some ev.sequence) :
    Looked t H σ kind key (.ok (some (found ev))) s' := by
  obtain ⟨hreplaying, hpassed, hrest⟩ := h.advance hev hmov
  obtain ⟨hro, hmem⟩ := h.next_event hev
  exact .replayed hro hmem hkind hkey rfl hreplaying hpassed hrest fun hsleep =>
    h.sleep_last hev hnumbered hmov (hreplayed hsleep)

omit hev in
theorem lookup_looked (db : Db) (kind : EventKind) (key : String) :
    ∃ reply s, σ.lookupJson db kind key = (reply, s, db) ∧ Looked t H σ kind key reply s := by
  unfold lookupJson checked
  cases σ.storageError with
  | some e => exact ⟨_, _, rfl, .failed e⟩
  | none =>
    cases hev : σ.replay.events[σ.replay.position]? with
    | none =>
      have hend : σ.Exhausted := getElem?_eq_none_iff.mp hev
      simp only [consumeEvent, hev]
      exact ⟨_, _, rfl, .beyond hend ⟨rfl, rfl, rfl, fun _ ht => ht⟩⟩
    | some ev =>
      by_cases hmatch : ev.kind ≠ kind ∨ ev.key ≠ key
      · simp only [consumeEvent, hev, if_pos hmatch]
        exact ⟨_, _, rfl, h.looked_other hev hmatch _⟩
      · simp only [consumeEvent, hev, if_neg hmatch]
        simp only [ne_eq, not_or, not_not] at hmatch
        exact ⟨_, _, rfl, h.looked_next hev hnumbered hmatch.1 hmatch.2 ⟨rfl, rfl, rfl, rfl⟩
          fun hsleep => if_pos hsleep⟩

end

end

/-- What the search for the outcome of an attempt has found. -/
inductive Sought (t : TaskId) (H : List EventRow) (σ : DurableSession J) (key : String) :
    Except SessionError (Option Found) → DurableSession J → Prop
  | failed (e : DurableError) : Sought t H σ key (.error (.storage e)) σ
  | absent {s' : DurableSession J} (hsame : SameCursor σ s')
      (hnone : ∀ row ∈ σ.remaining, ¬ (row.kind = .retry ∧ row.eventKey = key)) :
      Sought t H σ key (.ok none) s'
  | present {s' : DurableSession J} {skipped : List EventRow} {row : EventRow}
      {found : Found}
      (hsplit : H.take s'.passed = H.take σ.passed ++ (skipped ++ [row]))
      (hskipped : ∀ row ∈ skipped, ¬ (row.kind = .retry ∧ row.eventKey = key))
      (hkind : row.kind = .retry) (hkey : row.eventKey = key)
      (hfound : found.payload = row.payload) (hreplaying : Replaying t H s')
      (hrest : s'.remaining ⊆ σ.remaining) :
      Sought t H σ key (.ok (some found)) s'

theorem Replaying.sought_later (h : Replaying t H σ) (hend : ¬ σ.Exhausted)
    (hev : σ.replay.events[σ.replay.position + n]? = some ev) (hkind : ev.kind = .retry)
    (hkey : ev.key = key)
    (hmiss : ∀ ev ∈ (σ.replay.events.drop σ.replay.position).take n,
      ¬ (ev.kind = .retry ∧ ev.key = key)) (hmov : MovedTo (σ.replay.position + n + 1) σ s') :
    Sought t H σ key (.ok (some (found ev))) s' := by
  have hlt := (List.getElem?_eq_some_iff.mp hev).1
  obtain ⟨hreplaying, hpassed, hrest⟩ := h.move hmov (by omega) hlt
  have hfront : ∀ k ≤ σ.replay.events.length, H.take k = (σ.replay.events.take k).map row := by
    intro k hk
    rw [map_take, h.rows, take_take, min_eq_left hk]
  have htake : H.take s'.passed = H.take σ.passed ++
      (((σ.replay.events.drop σ.replay.position).take n).map row ++ [ev.row]) := by
    rw [hpassed, passed_of_pending hend, hfront _ hlt, hfront _ (by omega), succ_eq_add_one,
      add_assoc, take_add, take_add_one, getElem?_drop, hev]
    simp
  refine .present htake ?_ hkind hkey rfl hreplaying hrest
  intro row hro
  obtain ⟨event', hmem, rfl⟩ := mem_map.mp hro
  exact hmiss event' hmem

theorem find_sought (h : Replaying t H σ) (db : Db) (key : String) :
    ∃ reply s, σ.findRetryOutcomeJson db key = (reply, s, db) ∧ Sought t H σ key reply s := by
  unfold findRetryOutcomeJson checked
  cases σ.storageError with
  | some e => exact ⟨_, _, rfl, .failed e⟩
  | none =>
    refine ⟨_, _, rfl, ?_⟩
    cases hfind : (σ.replay.events.drop σ.replay.position).findIdx? fun ev =>
        ev.kind = .retry ∧ ev.key = key with
    | none =>
      simp only [consumeThrough, hfind]
      refine .absent ⟨rfl, rfl, rfl, fun _ ht => ht⟩ ?_
      intro row hro
      obtain ⟨ev, hev, rfl⟩ := mem_map.mp hro
      simpa [row] using findIdx?_eq_none_iff.mp hfind ev hev
    | some offset =>
      obtain ⟨hlt, hhit, hmiss⟩ := findIdx?_eq_some_iff_getElem.mp hfind
      have hbound : σ.replay.position + offset < σ.replay.events.length := by
        rw [length_drop] at hlt
        omega
      have hend : ¬ σ.Exhausted := by
        unfold Exhausted
        omega
      have hev := getElem?_eq_getElem hbound
      simp only [getElem_drop, decide_eq_true_eq] at hhit
      simp only [consumeThrough, hfind, hev, map_some]
      refine h.sought_later hend hev hhit.1 hhit.2 ?_ ⟨rfl, rfl, rfl, rfl⟩
      intro ev hmem
      obtain ⟨j, -, rfl⟩ := mem_take_iff_getElem.mp hmem
      simpa using hmiss j (by omega)

/-! ## Writes -/

def StoreStep (S : Crates J) (db db' : Db) : Prop :=
  db' = db ∨ ∃ e : Effect, e.Enabled S db ∧ db' = e.apply db

theorem StoreStep.opened (h : StoreStep S db db') (hopen : db.Opened) : db'.Opened := by
  rcases h with rfl | ⟨e, -, rfl⟩
  · exact hopen
  · exact hopen.apply e

theorem StoreStep.history (h : StoreStep S db db') (hist : ∀ u, db.HistoryOk u) (u : TaskId) :
    db'.HistoryOk u := by
  rcases h with rfl | ⟨_, hen, rfl⟩
  · exact hist u
  · exact (hist u).apply hen

/-- A host call that leaves the stored history and the cursor alone. -/
structure Unmoved (S : Crates J) (σ : DurableSession J) (db : Db)
    (s' : DurableSession J) (db' : Db) : Prop where
  store : StoreStep S db db'
  events : db'.eventsOf σ.taskId = db.eventsOf σ.taskId
  cursor : SameCursor σ s'

/-- A host call that appends an event at the end of the stored history. -/
structure Extended (S : Crates J) (σ : DurableSession J) (db : Db) (kind : EventKind)
    (key payload : String) (s' : DurableSession J) (db' : Db) (row : EventRow) : Prop where
  store : StoreStep S db db'
  kind : row.kind = kind
  key : row.eventKey = key
  payload : row.payload = payload
  events : db'.eventsOf σ.taskId = db.eventsOf σ.taskId ++ [row]
  ofTask : s'.taskId = σ.taskId
  replay : s'.replay = σ.replay
  sequence : σ.nextSequence = (db.eventsOf σ.taskId).length
  next : s'.nextSequence = (db.eventsOf σ.taskId).length + 1

theorem Unmoved.refl (σ : DurableSession J) (db : Db) : Unmoved S σ db σ db :=
  ⟨.inl rfl, rfl, .refl σ⟩

theorem Unmoved.of_same {s : DurableSession J} (hsame : SameCursor σ s)
    (h : Unmoved S s db s' db') : Unmoved S σ db s' db' where
  store := h.store
  events := hsame.task ▸ h.events
  cursor := hsame.trans h.cursor

theorem Extended.replaying {row : EventRow} (h : Extended S σ db kind key payload s' db' row)
    (hr : Replaying t (db.eventsOf t) σ) (hend : σ.Exhausted) :
    db'.eventsOf t = db.eventsOf t ++ [row] ∧ σ.passed = (db.eventsOf t).length ∧
      Replaying t (db.eventsOf t ++ [row]) s' ∧
      s'.passed = (db.eventsOf t).length + 1 ∧ s'.remaining = σ.remaining ∧
      s'.Exhausted := by
  obtain rfl := hr.ofTask
  have hend' : s'.Exhausted := by
    rw [Exhausted, h.replay]
    exact hend
  refine ⟨h.events, (passed_of_exhausted hend).trans h.sequence, ?_,
    (passed_of_exhausted hend').trans h.next, by simp only [remaining, h.replay],
    hend'⟩
  have hgrown := hr.grow (prefix_append (db.eventsOf σ.taskId) [row])
  refine ⟨h.ofTask, ?_, fun hpend => absurd hend' hpend, ?_, ?_, fun hpend => absurd hend' hpend⟩
  · rw [h.replay]
    exact hgrown.rows
  · rw [h.replay, h.next, ← h.sequence]
    exact hr.loaded.trans (le_succ _)
  · rw [h.next, length_append, length_singleton]

section

variable {payload : String} {time : ℕ} (hist : db.HistoryOk σ.taskId)
  (ofTask : s'.taskId = σ.taskId) (replay : s'.replay = σ.replay)
  (next : s'.nextSequence = ev.sequence + 1)

include hist ofTask replay next

theorem Extended.of_effect {e : Effect} (hen : e.Enabled S db) (happend : db.Appendable ev.row)
    (heffect : e.appended = [ev.row] ∧ e ≠ .prune σ.taskId)
    (hro : ev.row = ⟨σ.taskId, σ.nextSequence, kind, key, payload, time⟩) :
    Extended S σ db kind key payload s' (e.apply db) ev.row := by
  have hsequence : ev.sequence = σ.nextSequence := congrArg EventRow.sequence hro
  have hlength : σ.nextSequence = (db.eventsOf σ.taskId).length := by
    have hnext := happend.sequence
    rw [hro] at hnext
    exact hnext.trans hist.nextSequence
  refine ⟨.inr ⟨e, hen, rfl⟩, by rw [hro], by rw [hro], by rw [hro], ?_, ofTask, replay, hlength,
    by rw [next, hsequence, hlength]⟩
  rw [eventsOf_apply db heffect.2, heffect.1]
  simp [hro]

theorem appended_extended {store : Option ExecutionClaim} {wakeAtMs : Option ℕ}
    (h : Appended store db db' σ.taskId (some σ.nextSequence) kind key payload time
      wakeAtMs clock ev) : Extended S σ db kind key payload s' db' ev.row := by
  have hro := h.row
  rw [← h.expects _ rfl] at hro
  rw [h.commits]
  exact .of_effect hist ofTask replay next h.appendable h.appendable ⟨rfl, by simp⟩ hro

end

/-- The session methods that append fail with a storage error, or append. -/
inductive Appending (S : Crates J) (σ : DurableSession J) (db : Db) (kind : EventKind)
    (key payload : String) : Except SessionError Unit → DurableSession J → Db → Prop
  | failed {s' : DurableSession J} {db' : Db} (e : SessionError)
      (hnot : ∀ r, e ≠ .replay r) (h : Unmoved S σ db s' db') :
      Appending S σ db kind key payload (.error e) s' db'
  | appended {s' : DurableSession J} {db' : Db} {row : EventRow}
      (h : Extended S σ db kind key payload s' db' row) :
      Appending S σ db kind key payload (.ok ()) s' db'

theorem Unmoved.captured (σ : DurableSession J) (db : Db) (e : DurableError) :
    Unmoved S σ db (σ.captureStorage e) db :=
  ⟨.inl rfl, rfl, rfl, rfl, rfl, fun _ ht => ht⟩

theorem stored_appending {result : Except DurableError (TaskEvent J × Db)}
    {next : TaskEvent J → DurableSession J}
    (h : ∀ ev db', result = .ok (ev, db') → Extended S σ db kind key payload (next ev) db' ev.row) :
    ∃ reply s db', σ.checked db (σ.stored db result fun ev => (.ok (), next ev)) = (reply, s, db') ∧
      Appending S σ db kind key payload reply s db' := by
  refine ⟨_, _, _, rfl, ?_⟩
  cases σ.storageError with
  | some => exact .failed _ (by simp) (.refl σ db)
  | none =>
    cases result with
    | error e => exact .failed _ (by simp) (.captured σ db e)
    | ok p => exact .appended (h p.1 p.2 rfl)

theorem record_appending (hist : db.HistoryOk σ.taskId) (kind : EventKind)
    (key payload : String) (time : ℕ) (c₁ c₂ : ℤ) :
    ∃ reply s db', σ.record S db kind key payload time c₁ c₂ = (reply, s, db') ∧
      Appending S σ db kind key payload reply s db' :=
  stored_appending fun _ _ happend =>
    appended_extended hist rfl rfl rfl (appendEventJsonAt_commits happend).1

theorem recordSleep_appending (hist : db.HistoryOk σ.taskId) (key payload : String)
    (time wakeAtMs : ℕ) (c₁ c₂ : ℤ) :
    ∃ reply s db', σ.recordSleep S db key payload time wakeAtMs c₁ c₂ = (reply, s, db') ∧
      Appending S σ db .sleep key payload reply s db' :=
  stored_appending fun _ _ happend =>
    appended_extended hist rfl rfl rfl (appendEventJsonWithWakeupAt_commits happend).1

/-- Taking the input of a task: a failure, the recorded input, or a new event. -/
inductive Taken (S : Crates J) (t : TaskId) (H : List EventRow) (σ : DurableSession J)
    (db : Db) : Except SessionError String → DurableSession J → Db → Prop
  | failed {s' : DurableSession J} {db' : Db} (e : SessionError)
      (hnot : ∀ r, e ≠ .replay r) (h : Unmoved S σ db s' db') :
      Taken S t H σ db (.error e) s' db'
  | looked {reply : Except SessionError (Option Found)}
      {s' : DurableSession J} (h : Looked t H σ .step taskInputKey reply s')
      {text : Except SessionError String}
      (hreply : (∃ found, reply = .ok (some found) ∧ text = .ok found.payload) ∨
        ∃ e, reply = .error (.replay e) ∧ text = .error (.replay e)) :
      Taken S t H σ db text s' db
  | appended {s' : DurableSession J} {db' : Db} {row : EventRow} {text : String}
      (hend : σ.Exhausted)
      (h : Extended S σ db .step taskInputKey text s' db' row) :
      Taken S t H σ db (.ok text) s' db'

theorem unixTimeMs_error (h : unixTimeMs clock = .error e) (r : ReplayError) : e ≠ .replay r := by
  rintro rfl
  unfold unixTimeMs at h
  split at h <;> simp at h

theorem recordInput_taken (h : Replaying t H σ)
    (hnumbered : H.map EventRow.sequence = range H.length) (hist : db.HistoryOk σ.taskId)
    (input : String) (clock c₁ c₂ : ℤ) :
    ∃ reply s db', σ.recordInputJson S db input clock c₁ c₂ = (reply, s, db') ∧
      Taken S t H σ db reply s db' := by
  refine ⟨_, _, _, rfl, ?_⟩
  cases σ.storageError with
  | some => exact .failed _ (by simp) (.refl σ db)
  | none =>
    cases hev : σ.replay.events[σ.replay.position]? with
    | none =>
      have hend : σ.Exhausted := getElem?_eq_none_iff.mp hev
      simp only [consumeEvent, hev]
      cases hclock : unixTimeMs clock with
      | error => exact .failed _ (unixTimeMs_error hclock) (.refl σ db)
      | ok now =>
        dsimp only
        cases happend : appendEventJsonAt S σ.store db σ.taskId
            σ.nextSequence .step taskInputKey input now c₁ c₂ with
        | error e => exact .failed _ (by simp) (.captured σ db e)
        | ok p =>
          have happended := (appendEventJsonAt_commits happend).1
          have hpayload : p.1.payloadJson = input := congrArg EventRow.payload happended.row
          rw [← hpayload] at happended
          exact .appended hend (appended_extended hist rfl rfl rfl happended)
    | some ev =>
      by_cases hmatch : ev.kind ≠ .step ∨ ev.key ≠ taskInputKey
      · simp only [consumeEvent, hev, if_pos hmatch]
        exact .looked (h.looked_other hev hmatch _) (.inr ⟨_, rfl, rfl⟩)
      simp only [consumeEvent, hev, if_neg hmatch]
      simp only [ne_eq, not_or, not_not] at hmatch
      refine .looked (h.looked_next hev hnumbered hmatch.1 hmatch.2 ?_ ?_) (.inl ⟨_, rfl, rfl⟩)
      · exact ⟨rfl, rfl, rfl, rfl⟩
      · rintro ⟨⟩

/-- A poll fails, finds nothing, or appends the oldest signal of the name. -/
inductive Polled (S : Crates J) (σ : DurableSession J) (db : Db) (name : String) :
    Except SessionError (Option String) → DurableSession J → Db → Prop
  | failed {s' : DurableSession J} {db' : Db} (e : SessionError)
      (hnot : ∀ r, e ≠ .replay r) (h : Unmoved S σ db s' db') :
      Polled S σ db name (.error e) s' db'
  | nothing {s' : DurableSession J} {db' : Db} (h : Unmoved S σ db s' db') :
      Polled S σ db name (.ok none) s' db'
  | signal {s' : DurableSession J} {db' : Db} {row : EventRow} {queued : InboxRow}
      {v : J} (hqueued : db.oldestSignal σ.taskId name = some queued)
      (hparse : S.fromStr queued.payload = some v)
      (h : Extended S σ db .signal name queued.payload s' db' row) :
      Polled S σ db name (.ok (some (S.toStr v))) s' db'

theorem poll_polled (hist : db.HistoryOk σ.taskId) (name : String) (clock c₁ c₂ : ℤ) :
    ∃ reply s db', σ.pollSignalJson S db name clock c₁ c₂ = (reply, s, db') ∧
      Polled S σ db name reply s db' := by
  refine ⟨_, _, _, rfl, ?_⟩
  cases σ.storageError with
  | some => exact .failed _ (by simp) (.refl σ db)
  | none =>
    cases hclock : unixTimeMs clock with
    | error => exact .failed _ (unixTimeMs_error hclock) (.refl σ db)
    | ok now =>
      dsimp only
      cases hpoll : pollSignal S σ.store db σ.taskId σ.nextSequence name
          now σ.signalClaim c₁ c₂ with
      | error e => exact .failed _ (by simp) (.captured σ db e)
      | ok p =>
        obtain ⟨_, _⟩ := p
        rcases pollSignal_commits hpoll with ⟨rfl, hnone⟩ | ⟨ev, queued, rfl, hsome⟩
        · rcases hnone.commits with ⟨-, rfl⟩ | ⟨hwait, rfl⟩
          · exact .nothing ⟨.inl rfl, rfl, rfl, rfl, rfl, fun _ ht => ht⟩
          · exact .nothing ⟨.inr ⟨.wait σ.taskId ⟨σ.nextSequence, name⟩, ⟨hnone.isOpen, hwait,
              hnone.expects, hnone.empty⟩, rfl⟩, rfl, rfl, rfl, rfl, fun _ ht => ht⟩
        · have hqueued : db.oldestSignal σ.taskId name = some queued := by
            have := hsome.enabled.2.1
            rwa [hsome.row] at this
          obtain rfl := hsome.commits
          exact .signal hqueued hsome.parses (.of_effect hist (by rfl) (by rfl) (by rfl)
            hsome.enabled hsome.enabled.1 ⟨rfl, by simp⟩ hsome.row)

theorem finishSleep_unmoved (σ : DurableSession J) (db : Db) (clock c₁ c₂ : ℤ) :
    Unmoved S σ db (σ.finishSleep db clock c₁ c₂).2.1
        (σ.finishSleep db clock c₁ c₂).2.2 ∧
      ∀ r, (σ.finishSleep db clock c₁ c₂).1 ≠ .error (.replay r) := by
  unfold finishSleep
  cases σ.activeWakeup with
  | none => exact ⟨.refl σ db, by simp⟩
  | some token =>
    dsimp only
    split
    · exact ⟨.refl σ db, by simp⟩
    cases hclock : unixTimeMs clock with
    | error =>
      exact ⟨.refl σ db, fun r h => unixTimeMs_error hclock r (by simpa using h)⟩
    | ok now =>
      dsimp only
      unfold stored
      cases hdone : completeWakeup σ.store db σ.taskId token.sequence
          (token.claim.map WakeupClaim.leaseOwner) now c₁ c₂ with
      | error e => exact ⟨.captured σ db e, by simp⟩
      | ok p =>
        obtain ⟨_, _⟩ := p
        obtain ⟨-, ⟨rfl, rfl⟩ | ⟨rfl, rfl, w, hw, -⟩⟩ := completeWakeup_commits hdone
        · exact ⟨⟨.inl rfl, rfl, ⟨rfl, rfl, rfl, fun _ ht => ht⟩⟩, by simp⟩
        · have hen : Effect.Enabled S db (.wake σ.taskId) := by
            simp [Effect.Enabled, hw]
          exact ⟨⟨.inr ⟨_, hen, rfl⟩, rfl, ⟨rfl, rfl, rfl, by simp⟩⟩, by simp⟩

theorem completeSleep_unmoved (σ : DurableSession J) (db : Db) (clock c₁ c₂ : ℤ) :
    Unmoved S σ db (σ.completeSleep db clock c₁ c₂).2.1
        (σ.completeSleep db clock c₁ c₂).2.2 ∧
      ∀ r, (σ.completeSleep db clock c₁ c₂).1 ≠ .error (.replay r) := by
  unfold completeSleep checked
  cases σ.storageError with
  | some => exact ⟨.refl σ db, by simp⟩
  | none =>
    dsimp only
    split
    · exact ⟨⟨.inl rfl, rfl, ⟨rfl, rfl, rfl, fun _ ht => ht⟩⟩, by simp⟩
    · obtain ⟨hmov, hnot⟩ := finishSleep_unmoved
        { σ with replayedSleep := none, storageError := none } db clock c₁ c₂
      exact ⟨⟨hmov.store, hmov.events, ⟨hmov.cursor.task, hmov.cursor.replay,
        hmov.cursor.sequence, hmov.cursor.token⟩⟩, hnot⟩

/-- Only the sleep that the session was resumed for can fail without an error of the store. -/
theorem completeSleep_error {c₁ c₂ : ℤ} (h : (σ.completeSleep db clock c₁ c₂).1 = .error e)
    (hnot : ∀ d, e ≠ .storage d) : σ.sleepElapsed = false := by
  unfold completeSleep checked at h
  cases hstorage : σ.storageError with
  | some d =>
    rw [hstorage, Except.error.injEq] at h
    exact absurd h.symm (hnot d)
  | none =>
    rw [hstorage] at h
    dsimp only at h
    split at h
    · cases h
    · rename_i helapsed
      exact Bool.eq_false_iff.mpr helapsed

end Tysel.Engine
