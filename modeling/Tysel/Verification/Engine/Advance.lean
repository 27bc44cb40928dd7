import Tysel.Verification.Engine.Alignment

/-! Each host call of a runner, from the lookup of a boundary to the outcome of an attempt, leaves
the runner in step with the uninterrupted machine and lets the stored history grow only by the
event that this machine takes next. -/

namespace Tysel.Engine

open Tysel.Durable Boundary List Option Runner DurableSession
open Machine (close_eq_some land give_entered settle enter_entered settle_entered close)

variable {V P J : Type} {S : Crates J} {js : Js V} {p : Program V P} {db db' : Db}
  {t : TaskId} {H : List EventRow} {x : Runner V P J} {m m' : Machine V P} {b : Boundary}
  {k : Cont V P} {frame : Frame V P} {row : EventRow}

/-! ## The next event -/

theorem Machine.consume_asking (hp : (m.awake js p).phase = .asking b k)
    (hkind : row.kind = b.kind) (hkey : row.eventKey = b.key) : m.consume js p row =
      some (land js p m.stack m.retryIndex b k row.payload) := by
  refine consume_of_take ?_
  rw [(awake_asking hp).1]
  simp [take, hkind, hkey]

theorem Machine.consume_interrupted {rest : List (Frame V P)} (hinter : m.Interruptible)
    (hstack : m.stack = frame :: rest) (hclose : close js p frame rest m.retryIndex row = some m') :
    m.consume js p row = some m' := by
  obtain ⟨hkind, hkey⟩ := (close_eq_some.mp hclose).1
  unfold consume
  cases htake : (m.awake js p).take js p row with
  | none => exact interrupt_eq_some.mpr ⟨hinter, frame, rest, hstack, hclose⟩
  | some =>
    rcases take_cases htake with ⟨b, k, -, hb, -⟩ | ⟨g, -, -, hstart, -⟩ |
      ⟨g, res, hp, hclose'⟩
    · exact absurd (hb.symm.trans hkind) b.kind_ne_retry
    · exact absurd (hstart.symm.trans hkey) (startKey_ne_outcomeKey js frame g)
    · obtain ⟨rest', hstack', haw⟩ := awake_recording hinter hp
      obtain ⟨rfl, rfl⟩ := cons.inj (hstack.symm.trans hstack')
      rw [haw] at hclose'
      exact hclose'.symm.trans hclose

section

variable (hx : x.Aligned js p t H)

include hx

/-- The next event of the history is one that the handler takes, as none of its open attempts
is closed in the events that are still to be replayed. -/
theorem Runner.Aligned.take (haw : m.awake js p = x.machine) (hmem : row ∈ x.session.remaining)
    (h : m.consume js p row = some m') : x.machine.take js p row = some m' := by
  rcases Machine.consume_cases h with htake | ⟨-, frame, rest, hstack, hclose⟩
  · exact haw ▸ htake
  · have hopen : frame ∈ x.machine.openFrames :=
      haw ▸ m.stack_subset_awake (hstack ▸ mem_cons_self ..)
    exact absurd (close_eq_some.mp hclose).1 (hx.isOpen frame hopen row hmem)

theorem Runner.Aligned.next_take (hwh : ∃ m, uninterrupted js p H = some m)
    (hm : uninterrupted js p (H.take x.session.passed) = some m)
    (haw : m.awake js p = x.machine) (hpending : ¬ x.session.Exhausted) :
    ∃ row m', H[x.session.passed]? = some row ∧ row ∈ x.session.remaining ∧
      x.machine.take js p row = some m' := by
  have hlt : x.session.replay.position < x.session.replay.events.length := not_le.mp hpending
  obtain ⟨hrow, hmem⟩ := hx.replaying.next_event (getElem?_eq_getElem hlt)
  obtain ⟨m', hcon, -⟩ := consume_next hwh hm hrow
  exact ⟨_, m', hrow, hmem, hx.take haw hmem hcon⟩

/-- A handler finishes only after all loaded events have been replayed. -/
theorem Runner.Aligned.exhausted {res : Except V V} (hwh : ∃ m, uninterrupted js p H = some m)
    (hp : x.machine.phase = .finished res) : x.session.Exhausted := by
  obtain ⟨_, hm, hstep⟩ := hx.inStep
  rcases hstep.at_phase hp with haw | ⟨hend, -⟩
  · by_contra hpending
    obtain ⟨_, _, -, -, htake⟩ := hx.next_take hwh hm haw hpending
    simp [Machine.take, hp] at htake
  · exact hend

theorem Runner.Aligned.not_replay (r : ReplayError) : x.machine.phase ≠ .ended (.replay r) := by
  obtain ⟨_, hm, hstep⟩ := hx.inStep
  exact fun hp => hstep.at_phase hp (uninterrupted_resting hm) r rfl

end

/-! ## Boundaries -/

/-- The lookup of a boundary in a history that is aligned: it never finds another event. -/
inductive Asked (js : Js V) (p : Program V P) (t : TaskId) (H : List EventRow)
    (x : Runner V P J) (b : Boundary) (k : Cont V P) :
    Except SessionError (Option Found) → DurableSession J → Prop
  | failed (e : DurableError) : Asked js p t H x b k (.error (.storage e)) x.session
  | beyond {s : DurableSession J} (hend : x.session.Exhausted)
      (hsame : SameCursor x.session s) : Asked js p t H x b k (.ok none) s
  | replayed {s : DurableSession J} {found : Found} (hr : Replaying t H s)
      (hm : uninterrupted js p (H.take s.passed) =
        some (land js p x.machine.stack x.machine.retryIndex b k found.payload))
      (hrest : s.remaining ⊆ x.session.remaining)
      (hlast : b.kind = .sleep → s.sleepElapsed = false → s.Exhausted) :
      Asked js p t H x b k (.ok (some found)) s

variable {s : DurableSession J} {machine : Machine V P}

theorem Looked.asked {reply : Except SessionError (Option Found)}
    (hwh : ∃ m, uninterrupted js p H = some m) (hx : x.Aligned js p t H)
    (hp : x.machine.phase = .asking b k) (h : Looked t H x.session b.kind b.key reply s) :
    Asked js p t H x b k reply s := by
  obtain ⟨m, hm, hstep⟩ := hx.inStep
  obtain ⟨haw, -, hstack, hix⟩ := hstep.at_phase hp
  have hasking : (m.awake js p).phase = .asking b k := haw ▸ hp
  cases h with
  | failed e => exact .failed e
  | beyond hend hsame => exact .beyond hend hsame
  | replayed hrow _ hkind hkey hfound hr hpassed hrest hlast =>
    obtain ⟨_, hcon, hm'⟩ := consume_next hwh hm hrow
    rw [Machine.consume_asking hasking hkind hkey] at hcon
    refine .replayed hr ?_ hrest hlast
    rw [hpassed, hm', hfound, ← hcon, hstack, hix]
  | mismatch _ hrow hmem hnot =>
    obtain ⟨_, hcon, -⟩ := consume_next hwh hm hrow
    have htake := hx.take haw hmem hcon
    simp only [Machine.take, hp, ite_none_right_eq_some] at htake
    exact absurd htake.1 hnot

section

variable (hwh : ∃ m, uninterrupted js p (db.eventsOf t) = some m)

include hwh

/-- An exception that no event records leaves the uninterrupted machine where it is. -/
theorem Advanced.threw {s' : DurableSession J} {error : V} (hr : Replaying t (db.eventsOf t) s)
    (hm : uninterrupted js p ((db.eventsOf t).take s.passed) = some m)
    (hmov : Unmoved S s db s' db') (hend : s.Exhausted) (hat : m.AtBoundary js p k)
    (hstack : m.stack = x.machine.stack) (hix : m.retryIndex = x.machine.retryIndex)
    (hends : p.Ends k error) :
    Advanced S js p t db (⟨s', x.give p k (.error error)⟩, db') := by
  refine .unmoved hwh hr hm hmov ?_ ?_
  · simp [remaining_of_exhausted hend]
  · rw [give, ← hstack, ← hix]
    exact .thrown (hmov.cursor.exhausted.mpr hend) hat hends

section

variable (hx : x.Aligned js p t (db.eventsOf t))

include hx

theorem Advanced.ready {s' : DurableSession J} (hr : Replaying t (db.eventsOf t) s)
    (hm : uninterrupted js p ((db.eventsOf t).take s.passed) = some m)
    (hrest : s.remaining ⊆ x.session.remaining) (hmov : Unmoved S s db s' db')
    (hopen : machine.openFrames = x.machine.stack) (hstep : InStep js p s'.Exhausted machine m) :
    Advanced S js p t db (⟨s', machine⟩, db') := by
  refine .unmoved hwh hr hm hmov ?_ hstep
  intro frame hframe row hrow
  exact hx.stack_open frame (hopen ▸ hframe) row (hrest hrow)

theorem Advanced.called (hp : x.machine.phase = .asking b k) (hend : x.session.Exhausted)
    (hsame : SameCursor x.session s) :
    Advanced S js p t db (⟨s, { x.machine with phase := .calling b k }⟩, db) := by
  obtain ⟨_, hm, hstep⟩ := hx.inStep
  obtain ⟨haw, -, hstack, hix⟩ := hstep.at_phase hp
  refine .unmoved hwh hx.replaying hm ⟨.inl rfl, rfl, hsame⟩ hx.stack_open ?_
  dsimp only
  rw [← hstack, ← hix]
  exact .calling (hsame.exhausted.mpr hend) (haw ▸ hp)

/-- A host call that fails for good ends the handler, and one that fails for the moment throws. -/
theorem Advanced.throwing {α : Type} {res : Except SessionError α × DurableSession J × Db}
    {next : α → Machine V P} (hr : Replaying t (db.eventsOf t) s)
    (hm : uninterrupted js p ((db.eventsOf t).take s.passed) = some m)
    (hrest : s.remaining ⊆ x.session.remaining)
    (hfailed : ∀ e, res.1 = .error e → Unmoved S s db res.2.1 res.2.2 ∧ ∀ r, e ≠ .replay r)
    (hend : ∀ e, res.1 = .error e → (∀ d, e ≠ .storage d) → s.Exhausted) (hat : m.AtBoundary js p k)
    (hstack : m.stack = x.machine.stack) (hix : m.retryIndex = x.machine.retryIndex)
    (hends : ∀ error, p.Ends k (js.hostError error))
    (hok : ∀ v, res.1 = .ok v → Advanced S js p t db (⟨res.2.1, next v⟩, res.2.2)) :
    Advanced S js p t db (x.throwing js p k res next) := by
  obtain ⟨reply, s', db'⟩ := res
  cases reply with
  | ok v => exact hok v rfl
  | error e =>
    obtain ⟨hmov, hnot⟩ := hfailed e rfl
    cases e with
    | storage => exact .ready hwh hx hr hm hrest hmov rfl (.ended rfl (by simp))
    | replay r => exact absurd rfl (hnot r)
    | _ => exact .threw hwh hr hm hmov (hend _ rfl (by simp)) hat hstack hix (hends _)

end

end

section

variable {turn : Turn V} (hist : ∀ u, db.HistoryOk u)
  (hwh : ∃ m, uninterrupted js p (db.eventsOf t) = some m)
  (hx : x.Aligned js p t (db.eventsOf t))

include hist hwh hx

theorem askInput_advanced {json : String} (hp : x.machine.phase = .asking (.input json) k) :
    Advanced S js p t db (x.ask S js p turn db (.input json) k) := by
  obtain ⟨_, _, _, hinput, htaken⟩ := recordInput_taken hx.replaying
    (hist t).sequences (hist _) json turn.clock turn.clock₁ turn.clock₂
  unfold ask
  dsimp only
  rw [hinput]
  cases htaken with
  | failed _ hnot hmov => exact .ended hwh hx hmov hnot
  | looked hlooked hreply =>
    cases hlooked.asked hwh hx hp with
    | failed | beyond => simp at hreply
    | replayed hr hm hrest =>
      obtain ⟨found, hfound, rfl⟩ | ⟨e, he, -⟩ := hreply
      · cases hfound
        exact .ready hwh hx hr hm hrest (.refl _ _) (give_entered ..).openFrames
          (.given (b := .input json) (by simp [kind]) _)
      · cases he
  | appended hend hext =>
    obtain ⟨_, hm, hstep⟩ := hx.inStep
    obtain ⟨haw, -, hstack, hix⟩ := hstep.at_phase hp
    refine .extended hx.replaying hend hm hext
      (Machine.consume_asking (b := .input json) (haw ▸ hp) hext.kind hext.key) ?_
    rw [hext.payload, hstack, hix]
    exact .given (b := .input json) (by simp [kind]) _

theorem askSleep_advanced {millis : ℕ} (hp : x.machine.phase = .asking (.sleep millis) k)
    (hends : ∀ error, p.Ends k (js.hostError error)) :
    Advanced S js p t db (x.ask S js p turn db (.sleep millis) k) := by
  obtain ⟨_, s, hlookup, hlooked⟩ := lookup_looked hx.replaying (hist t).sequences db .sleep
    (sleep millis).key
  unfold ask
  dsimp only
  rw [hlookup]
  cases hlooked.asked hwh hx hp with
  | failed => exact .ended hwh hx (.refl _ _) (by simp)
  | beyond hend hsame => exact .called hwh hx hp hend hsame
  | replayed hr hm hrest hlast =>
    obtain ⟨hmov, hnot⟩ := completeSleep_unmoved s db turn.clock turn.clock₁ turn.clock₂
    refine .throwing hwh hx hr hm hrest (fun e he => ⟨hmov, fun r hr => ?_⟩)
      (fun e he hstorage => hlast rfl (completeSleep_error he hstorage)) (.inr rfl) rfl rfl hends
      ?_
    · exact hnot r (hr ▸ he)
    · intro v _
      exact .ready hwh hx hr hm hrest hmov (give_entered ..).openFrames .woken

theorem askLookup_advanced (hp : x.machine.phase = .asking b k) (hnot : b.kind ≠ .sleep) :
    Advanced S js p t db
      (x.after (x.session.lookupJson db b.kind b.key) fun found =>
        match found with
        | some found => x.give p k (.ok (b.hand js (js.parse found.payload)))
        | none => { x.machine with phase := .calling b k }) := by
  obtain ⟨_, _, hlookup, hlooked⟩ := lookup_looked hx.replaying (hist t).sequences db b.kind b.key
  rw [hlookup]
  cases hlooked.asked hwh hx hp with
  | failed => exact .ended hwh hx (.refl _ _) (by simp)
  | beyond hend hsame => exact .called hwh hx hp hend hsame
  | replayed hr hm hrest =>
    exact .ready hwh hx hr hm hrest (.refl _ _) (give_entered ..).openFrames (.given hnot _)

theorem ask_advanced (hp : x.machine.phase = .asking b k) (hunc : x.Uncaught js p turn) :
    Advanced S js p t db (x.ask S js p turn db b k) := by
  cases b with
  | input => exact askInput_advanced hist hwh hx hp
  | sleep =>
    simp only [Uncaught, hp] at hunc
    exact askSleep_advanced hist hwh hx hp hunc
  | _ => exact askLookup_advanced hist hwh hx hp (by simp [kind])

/-! ## Live boundaries -/

omit hist

theorem callback_advanced {error : V} (hp : x.machine.phase = .calling b k)
    (hends : p.Ends k error) :
    Advanced S js p t db (x.goto db (x.give p k (.error error))) := by
  obtain ⟨_, hm, hstep⟩ := hx.inStep
  obtain ⟨hend, hasking, hstack, hix⟩ := hstep.at_phase hp (uninterrupted_resting hm)
  exact .threw hwh hx.replaying hm (.refl _ _) hend (.inl ⟨_, hasking⟩) hstack hix hends

omit hwh

theorem Advanced.recorded {text : String} (hp : x.machine.phase = .calling b k)
    (hext : Extended S x.session db b.kind b.key text s db' row)
    (hstep : s.Exhausted → InStep js p s.Exhausted machine
      (land js p x.machine.stack x.machine.retryIndex b k text)) :
    Advanced S js p t db (⟨s, machine⟩, db') := by
  obtain ⟨_, hm, hcalling⟩ := hx.inStep
  obtain ⟨hend, hasking, hstack, hix⟩ := hcalling.at_phase hp (uninterrupted_resting hm)
  have hend' : s.Exhausted := (hext.replaying hx.replaying hend).2.2.2.2.2
  refine .extended hx.replaying hend hm hext (Machine.consume_asking hasking hext.kind hext.key) ?_
  rw [hext.payload, hstack, hix]
  exact hstep hend'

include hist hwh

theorem recordValue_advanced {o : Except V V} (hp : x.machine.phase = .calling b k)
    (hnot : b.kind ≠ .sleep) (hstable : ∀ v, o = .ok v → js.stringify v = none ∨ js.Stable v)
    (herror : ∀ error, o = .error error → p.Ends k error)
    (hnone : ∀ v, o = .ok v → js.stringify v = none →
      p.Ends k (js.typeError "durable values must be JSON serializable")) :
    Advanced S js p t db (x.recordValue S js p turn db b k o) := by
  unfold recordValue
  cases o with
  | error error => exact callback_advanced hwh hx hp (herror error rfl)
  | ok v =>
    dsimp only
    cases htext : js.stringify v with
    | none => exact callback_advanced hwh hx hp (hnone v rfl htext)
    | some text =>
      have hparse : js.parse text = v := by
        rcases hstable v rfl with h | ⟨text', htext', hparse⟩
        · simp [htext] at h
        · obtain rfl : text = text' := mem_unique htext htext'
          exact hparse
      obtain ⟨_, _, _, hrecord, happend⟩ := record_appending
        (hist x.session.taskId) b.kind b.key text turn.nowMs turn.clock₁ turn.clock₂
      dsimp only
      rw [hrecord]
      cases happend with
      | failed _ hnot hmov => exact .ended hwh hx hmov hnot
      | appended hext =>
        refine .recorded hx hp hext fun _ => ?_
        rw [← hparse]
        exact .given hnot text

theorem recordStable_advanced {v : V} (hp : x.machine.phase = .calling b k)
    (hnot : b.kind ≠ .sleep) (hstable : js.Stable v) :
    Advanced S js p t db (x.recordValue S js p turn db b k (.ok v)) := by
  refine recordValue_advanced hist hwh hx hp hnot ?_ ?_ ?_
  · rintro _ ⟨⟩
    exact .inr hstable
  · rintro - ⟨⟩
  · rintro _ ⟨⟩ hnone
    obtain ⟨text, htext, -⟩ := hstable
    simp [htext] at hnone

theorem liveSleep_advanced {millis : ℕ} (hp : x.machine.phase = .calling (.sleep millis) k)
    (hends : maxSafeInteger < turn.nowMs + millis →
      p.Ends k (js.typeError "durable wakeup is too large")) :
    Advanced S js p t db (x.live S js p turn db (.sleep millis) k) := by
  unfold live
  dsimp only
  by_cases hsafe : turn.nowMs + millis ≤ maxSafeInteger
  · rw [if_pos hsafe]
    obtain ⟨_, _, _, hrecord, happend⟩ := recordSleep_appending
      (hist x.session.taskId) (sleep millis).key (js.durationJson millis) turn.nowMs
      (turn.nowMs + millis) turn.clock₁ turn.clock₂
    rw [hrecord]
    cases happend with
    | failed _ hnot hmov => exact .ended hwh hx hmov hnot
    | appended hext => exact .recorded hx hp hext .sleeping
  · rw [if_neg hsafe]
    exact callback_advanced hwh hx hp (hends (not_le.mp hsafe))

theorem liveSignal_advanced {name : String} {nonempty : name ≠ ""}
    (hp : x.machine.phase = .calling (.signal name nonempty) k)
    (hstable : ∀ row v, db.oldestSignal x.session.taskId name = some row →
      S.fromStr row.payload = some v → js.parse (S.toStr v) = js.parse row.payload)
    (hends : ∀ error, p.Ends k (js.hostError error)) :
    Advanced S js p t db (x.live S js p turn db (.signal name nonempty) k) := by
  obtain ⟨m, hm, hstep⟩ := hx.inStep
  obtain ⟨hend, hasking, hstack, hix⟩ := hstep.at_phase hp (uninterrupted_resting hm)
  obtain ⟨_, _, _, hpoll, hpolled⟩ := poll_polled (hist x.session.taskId) name
    turn.clock turn.clock₁ turn.clock₂
  unfold live
  dsimp only
  rw [hpoll]
  refine .throwing hwh hx hx.replaying hm (List.Subset.refl _) ?_ (fun _ _ _ => hend)
    (.inl ⟨_, hasking⟩) hstack hix hends ?_
  · rintro _ rfl
    cases hpolled with
    | failed _ hnot hmov => exact ⟨hmov, hnot⟩
  rintro _ rfl
  cases hpolled with
  | nothing hmov =>
    refine .unmoved hwh hx.replaying hm hmov hx.stack_open ?_
    rw [← hstack, ← hix]
    exact .waiting (hmov.cursor.exhausted.mpr hend) hasking
  | signal hqueued hparse hext =>
    refine .recorded hx hp hext fun _ => ?_
    dsimp only
    rw [hstable _ _ hqueued hparse]
    exact .given (b := .signal name nonempty) (by simp [kind]) _

theorem live_advanced (hp : x.machine.phase = .calling b k)
    (hstable : x.JsonStable S js turn db) (hunc : x.Uncaught js p turn) :
    Advanced S js p t db (x.live S js p turn db b k) := by
  unfold JsonStable at hstable
  unfold Uncaught at hunc
  rw [hp] at hstable hunc
  cases b with
  | input => exact ⟨.inl rfl, prefix_refl _, hwh, hx⟩
  | step | effect =>
    exact recordValue_advanced hist hwh hx hp (by simp [kind]) hstable
      hunc.1 hunc.2
  | now => exact recordStable_advanced hist hwh hx hp (by simp [kind]) hstable
  | random => exact recordStable_advanced hist hwh hx hp (by simp [kind]) hstable
  | sleep => exact liveSleep_advanced hist hwh hx hp hunc
  | signal => exact liveSignal_advanced hist hwh hx hp hstable hunc

omit hist in
theorem sleeping_advanced (hp : x.machine.phase = .sleeping k)
    (hends : ∀ error, p.Ends k (js.hostError error)) : Advanced S js p t db
      (x.throwing js p k (x.session.completeSleep db turn.clock turn.clock₁ turn.clock₂)
        fun _ => x.give p k (.ok js.undefined)) := by
  obtain ⟨_, hm, hstep⟩ := hx.inStep
  obtain ⟨hend, rfl⟩ := hstep.at_phase hp (uninterrupted_resting hm)
  obtain ⟨hmov, hnot⟩ := completeSleep_unmoved x.session db turn.clock turn.clock₁ turn.clock₂
  refine .throwing hwh hx hx.replaying hm (List.Subset.refl _)
    (fun e he => ⟨hmov, fun r hr => hnot r (hr ▸ he)⟩) (fun _ _ _ => hend)
    (.inr hp) rfl rfl hends ?_
  intro v _
  have hwoken : InStep js p
      (x.session.completeSleep db turn.clock turn.clock₁ turn.clock₂).2.1.Exhausted
      (x.give p k (.ok js.undefined))
      ⟨x.machine.stack, x.machine.retryIndex, .sleeping k⟩ := .woken
  rw [← hp] at hwoken
  exact .ready hwh hx hx.replaying hm (List.Subset.refl _) hmov
    (give_entered ..).openFrames hwoken

/-! ## Retries -/

theorem retryLookupOrRecord_advanced {key text : String}
    (hm : uninterrupted js p ((db.eventsOf t).take x.session.passed) = some m)
    (hmatch : ∀ row ∈ x.session.remaining, ∀ m', m.consume js p row = some m' →
      row.kind = .retry ∧ row.eventKey = key)
    (hnext : ∀ row, row.kind = .retry → row.eventKey = key →
      row ∈ x.session.remaining ∨ row.payload = text →
      ∃ m', m.consume js p row = some m' ∧ ∀ end', InStep js p end' machine m')
    (hopen : machine.openFrames = x.machine.stack) : Advanced S js p t db
      (x.retryLookupOrRecord S js p turn db frame key (some text) machine) := by
  obtain ⟨reply, s, hlookup, hlooked⟩ := lookup_looked hx.replaying (hist t).sequences db .retry key
  unfold retryLookupOrRecord
  rw [hlookup]
  cases hlooked with
  | failed => exact .ended hwh hx (.refl _ _) (by simp)
  | mismatch _ hrow hmem hnot =>
    obtain ⟨m', hcon, -⟩ := consume_next hwh hm hrow
    exact absurd (hmatch _ hmem m' hcon) hnot
  | replayed hrow hmem hkind hkey _ hr hpassed hrest =>
    obtain ⟨m', hcon, hm'⟩ := consume_next hwh hm hrow
    obtain ⟨m'', hconsume', hstep⟩ := hnext _ hkind hkey (.inl hmem)
    obtain rfl : m' = m'' := mem_unique hcon hconsume'
    rw [← hpassed] at hm'
    exact .ready hwh hx hr hm' hrest (.refl _ _) hopen (hstep _)
  | beyond hend hsame =>
    obtain ⟨_, _, _, hrecord, happend⟩ := record_appending (hist s.taskId) .retry
      key text turn.nowMs turn.clock₁ turn.clock₂
    dsimp only
    rw [hrecord]
    cases happend with
    | failed _ hnot hmov => exact .ended hwh hx (hmov.of_same hsame) hnot
    | appended hext =>
      obtain ⟨_, hcon, hstep⟩ := hnext _ hext.kind hext.key (.inr hext.payload)
      rw [← hsame.passed] at hm
      exact .extended (hsame.replaying hx.replaying) (hsame.exhausted.mpr hend) hm hext
        hcon (hstep _)

theorem starting_advanced (hp : x.machine.phase = .starting frame) : Advanced S js p t db
      (x.retryLookupOrRecord S js p turn db frame (frame.startKey js)
        (some (js.attemptJson frame.attempt)) { x.machine with phase := .finding frame }) := by
  obtain ⟨m, hm, hstep⟩ := hx.inStep
  have haw : m.awake js p = x.machine := hstep.at_phase hp
  have hready : (m.awake js p).Ready := (uninterrupted_resting hm).awake
  have hix : x.machine.retryIndex = frame.id + 1 := by
    rw [haw] at hready
    simpa [Machine.Ready, hp] using hready
  refine retryLookupOrRecord_advanced hist hwh hx hm ?_ ?_ rfl
  · intro row hmem m' hcon
    have htake := hx.take haw hmem hcon
    simp only [Machine.take, hp, ite_none_right_eq_some] at htake
    exact htake.1
  intro row hkind hkey _
  refine ⟨Machine.begin p x.machine.stack (frame.id + 1) frame,
    Machine.consume_of_take ?_, fun _ => ?_⟩
  · simp [haw, Machine.take, hp, hkind, hkey, hix]
  · simp only [hix]
    exact .finding

omit hist

/-- The outcome of an attempt that is in the history is the next thing the handler sees. -/
theorem finding_advanced (hp : x.machine.phase = .finding frame) : Advanced S js p t db
      (x.after (x.session.findRetryOutcomeJson db (frame.outcomeKey js)) fun found =>
        match found with
        | some found =>
          settle js p x.machine.stack x.machine.retryIndex frame
            (js.replayed (js.parse found.payload))
        | none => Machine.begin p x.machine.stack x.machine.retryIndex frame) := by
  obtain ⟨_, hm, hstep⟩ := hx.inStep
  obtain ⟨hix, rfl⟩ := hstep.at_phase hp (uninterrupted_resting hm)
  obtain ⟨_, s, hfind, hsought⟩ := find_sought hx.replaying db (frame.outcomeKey js)
  rw [hfind]
  cases hsought with
  | failed => exact .ended hwh hx (.refl _ _) (by simp)
  | absent hsame hnone =>
    refine .unmoved hwh hx.replaying hm ⟨.inl rfl, rfl, hsame⟩ ?_
      (.self (enter_entered ..).awake)
    intro f hf row hrow
    rw [Machine.begin, (enter_entered ..).openFrames] at hf
    rcases mem_cons.mp hf with rfl | hf
    · exact hnone row hrow
    · exact hx.stack_open f hf row hrow
  | present hsplit hskipped hkind hkey hfound hr hrest =>
    obtain ⟨last, hlast⟩ := hwh
    obtain ⟨_, hm'⟩ := uninterrupted_front hlast s.passed
    have hrun := hm'
    rw [hsplit, uninterrupted, Machine.run_append, ← uninterrupted, hm, bind_some] at hrun
    have hsettled := (Inside.begin hix).skip hrun hskipped ⟨hkind, hkey⟩
    rw [← hix, ← hfound] at hsettled
    subst hsettled
    exact .ready ⟨last, hlast⟩ hx hr hm' hrest (.refl _ _)
      (settle_entered ..).openFrames
      (.self (settle_entered ..).awake)

include hist

/-- An attempt that has ended is not in the part of the history that is still to be replayed. -/
theorem recording_advanced {res : Except V V}
    (hp : x.machine.phase = .recording frame res) (hstable : js.OutcomeStable res)
    (hix : x.machine.retryIndex = frame.id + 1) : Advanced S js p t db
      (x.retryLookupOrRecord S js p turn db frame (frame.outcomeKey js)
        (js.stringify (js.outcome res))
        (settle js p x.machine.stack x.machine.retryIndex frame (js.verdict res))) := by
  obtain ⟨_, hm, hstep⟩ := hx.inStep
  obtain ⟨text, htext, hparse⟩ := hstable
  have hopen : ∀ row ∈ x.session.remaining, ¬ frame.Outcome js row :=
    hx.isOpen frame (by simp [Machine.openFrames, hp])
  rw [htext]
  refine retryLookupOrRecord_advanced hist hwh hx hm ?_ ?_ (settle_entered ..).openFrames
  · intro row hmem m' hcon
    rcases hstep.at_phase hp with haw | ⟨hend, -⟩
    · have htake := hx.take haw hmem hcon
      simp only [Machine.take, hp, close_eq_some] at htake
      exact htake.1
    · simp [remaining_of_exhausted hend] at hmem
  intro row hkind hkey hrow
  have hpayload : row.payload = text := hrow.resolve_left fun hmem => hopen row hmem ⟨hkind, hkey⟩
  have hclose : close js p frame x.machine.stack x.machine.retryIndex row =
      some (settle js p x.machine.stack x.machine.retryIndex frame (js.verdict res)) :=
    close_eq_some.mpr ⟨⟨hkind, hkey⟩, hix, by rw [hpayload, hparse]⟩
  refine ⟨_, ?_, fun _ => .self (settle_entered ..).awake⟩
  rcases hstep.at_phase hp with haw | ⟨-, hinter, hstack, hindex'⟩
  · rw [← haw] at hclose hp ⊢
    exact Machine.consume_of_take (by simpa [Machine.take, hp] using hclose)
  · rw [← hindex'] at hclose ⊢
    exact Machine.consume_interrupted hinter hstack hclose

/-- Every host call of a runner that meets the conditions keeps the alignment. -/
theorem advance_advanced (hstable : x.JsonStable S js turn db)
    (hunc : x.Uncaught js p turn) (hunnested : x.Unnested) :
    Advanced S js p t db (x.advance S js p turn db) := by
  have hstay : Advanced S js p t db (x, db) := ⟨.inl rfl, prefix_refl _, hwh, hx⟩
  unfold advance
  cases hp : x.machine.phase with
  | asking => exact ask_advanced hist hwh hx hp hunc
  | calling => exact live_advanced hist hwh hx hp hstable hunc
  | sleeping =>
    simp only [Uncaught, hp] at hunc
    exact sleeping_advanced hwh hx hp hunc
  | waiting => exact hstay
  | starting => exact starting_advanced hist hwh hx hp
  | finding => exact finding_advanced hwh hx hp
  | recording =>
    simp only [JsonStable, Unnested, hp] at hstable hunnested
    exact recording_advanced hist hwh hx hp hstable hunnested
  | finished | ended => exact hstay

end

end Tysel.Engine
