import Tysel.Verification.Isolate.Accounts

/-! Operations, promises and channels of a request are gone when its teardown has returned, for
every interleaving of the worker with the tasks of its reactor. -/

namespace Tysel.Isolate

open Option Worker Function Phase Accounts

variable {w : Worker} {id : OpId} {step : TeardownStep}

/-- What every step of the worker and of the tasks keeps. -/
structure Separated (w : Worker) : Prop where
  accounts : Accounts w
  slots : Slots w.io w.number w.phase.Past w.points

namespace Slots

variable {io io' : IoHandle} {number : ℕ} {points : OpId → Option Point}
  {past past' : TeardownStep → Prop}

/-- A step of the worker keeps a slot, or clears it and may from then on be past it. -/
theorem clear (h : Slots io number past points)
    (hinbound : (io'.inbound = io.inbound ∧ past' .inbound = past .inbound) ∨
      io'.inbound = io.inbound.clear)
    (hwsIn : (io'.wsIn = io.wsIn ∧ past' .wsIn = past .wsIn) ∨ io'.wsIn = io.wsIn.clear)
    (hwsOut : (io'.wsOut = io.wsOut ∧ past' .wsOut = past .wsOut) ∨ io'.wsOut = none)
    (houtbound : (io'.outbound = io.outbound ∧ past' .outbound = past .outbound) ∨
      io'.outbound = io.outbound.clearAll) (hgeneration : (io'.clientWs = io.clientWs ∧
        past' .clientGeneration = past .clientGeneration ∧ past' .clientState = past .clientState) ∨
      (io'.clientWs = io.clientWs.nextGeneration ∧ past' .clientState = past .clientState) ∨
      (io'.clientWs = io.clientWs.reset ∧ past' .clientGeneration = past .clientGeneration)) :
    Slots io' number past' points := by
  constructor
  · rcases hinbound with ⟨hio, hpast⟩ | hio
    · rw [hio, hpast]
      exact h.inbound
    · rw [hio]
      exact h.inbound.clear
  · rcases hwsIn with ⟨hio, hpast⟩ | hio
    · rw [hio, hpast]
      exact h.wsIn
    · rw [hio]
      exact h.wsIn.clear
  · rcases hwsOut with ⟨hio, hpast⟩ | hio
    · rw [hio, hpast]
      exact h.wsOut
    · rw [hio]
      exact nofun
  · rcases houtbound with ⟨hio, hpast⟩ | hio
    · rw [hio, hpast]
      exact h.bodies
    · rw [hio]
      exact h.bodies.clearAll
  · rcases hgeneration with ⟨hio, hgen, hstate⟩ | ⟨hio, hstate⟩ | ⟨hio, hgen⟩
    · rw [hio, hgen, hstate]
      exact h.client
    · rw [hio, hstate]
      exact h.client.nextGeneration
    · rw [hio, hgen]
      exact h.client.reset

theorem congr_io (h : Slots io number past points) (hinbound : io'.inbound = io.inbound)
    (houtbound : io'.outbound = io.outbound) (hwsIn : io'.wsIn = io.wsIn)
    (hwsOut : io'.wsOut = io.wsOut) (hclient : io'.clientWs = io.clientWs) :
    Slots io' number past points :=
  h.clear (.inl ⟨hinbound, rfl⟩) (.inl ⟨hwsIn, rfl⟩) (.inl ⟨hwsOut, rfl⟩) (.inl ⟨houtbound, rfl⟩)
    (.inl ⟨hclient, rfl, rfl⟩)

theorem begin (h : Slots w.io w.number (fun _ => True) w.points)
    (hnone : ∀ id, w.points id = none) (rid : ℕ) (wsIn wsOut : Bool) :
    Slots (w.begin rid wsIn wsOut).io (w.number + 1) (fun _ => False) w.points := by
  constructor
  · exact .install hnone
  · cases wsIn with
    | true => exact .install hnone
    | false => exact h.wsIn.restart hnone
  · cases wsOut with
    | true =>
      rintro - ⟨⟩
      exact ⟨rfl, not_false⟩
    | false => exact fun tx htx => absurd trivial (h.wsOut tx htx).2
  · exact h.bodies.restart hnone
  · exact h.client.restart hnone

end Slots

namespace Separated

theorem boot : Separated boot := by
  refine ⟨Accounts.boot, ⟨⟨nofun, nofun⟩, ⟨nofun, nofun⟩, nofun, ⟨nofun, nofun, nofun⟩,
    ⟨nofun, nofun⟩⟩⟩

theorem points_none (h : Accounts w) (hidle : w.phase = .idle) (id : OpId) :
    w.points id = none := by
  simp [points, stage, h.quiet hidle id]

theorem begin (h : Separated w) (hidle : w.phase = .idle) (rid : ℕ) (wsIn wsOut : Bool) :
    Separated (w.begin rid wsIn wsOut) := by
  refine ⟨h.accounts.begin hidle rid wsIn wsOut, ?_⟩
  have hslots := h.slots
  rw [hidle] at hslots
  exact Slots.begin hslots (points_none h.accounts hidle) rid wsIn wsOut

variable {rid : ℕ}

theorem points_consume (hstage : w.stage id = some .completed) :
    (w.consume id).points = w.points := by
  funext id'
  unfold points
  have hstage' : (w.consume id).stage id' = if id' = id then none else w.stage id' := by
    unfold stage
    have hops : (w.consume id).operations.get? id' =
        if id' = id then none else w.operations.get? id' := Table.get?_erase _ id id'
    rw [hops]
    split <;> rfl
  rw [hstage']
  by_cases hid : id' = id
  · rw [if_pos hid, hid, hstage]
  · rw [if_neg hid]

section

variable (h : Separated w) (hrunning : w.phase = .running rid)

include h hrunning

theorem submit (req : IoRequest) : Separated (w.submit req) := by
  refine ⟨h.accounts.submit hrunning req, ?_⟩
  have hpoints : (w.submit req).points = w.points := by
    funext id
    unfold points stage
    by_cases hid : id = w.io.nextId
    · simp [Worker.submit, hid, h.accounts.fresh w.io.nextId (Nat.le_refl _)]
    · simp [Worker.submit, hid]
  rw [hpoints]
  exact h.slots.congr_io rfl rfl rfl rfl rfl

theorem receive (hstage : w.stage id = some .completed) : Separated ((w.consume id).settle id) := by
  refine ⟨h.accounts.receive hrunning id, ?_⟩
  obtain ⟨hph, hio, hops, hnumber⟩ := settle_phase (w.consume id) id
  have hpoints : ((w.consume id).settle id).points = w.points := by
    rw [← points_consume hstage]
    unfold points stage
    rw [hops]
  rw [hpoints, hph, hio, hnumber]
  exact h.slots.congr_io rfl rfl rfl rfl rfl

theorem rejectAll : Separated w.rejectAll := by
  obtain ⟨haccounts, hph, hio, hops, hnumber⟩ :=
    h.accounts.settle_all hrunning (w.pending.entries.map Sigma.fst)
  refine ⟨haccounts, ?_⟩
  have hpoints : w.rejectAll.points = w.points := by
    unfold points stage Worker.rejectAll
    rw [hops]
  rw [hpoints]
  unfold Worker.rejectAll
  rw [hph, hio, hnumber]
  exact h.slots

end

variable {remaining : List OpId}

section

variable (h : Separated w)

include h

/-- A teardown step after the promises were forgotten changes only slots. -/
theorem clearing {step' : TeardownStep} (hph : w.phase = .teardown rid step remaining)
    (hafter : TeardownStep.discard.rank < step.rank) {io : IoHandle}
    (hnext : io.nextId = w.io.nextId) (hrequest : io.requestId = w.io.requestId)
    (hcancels : io.operationCancels = w.io.operationCancels)
    (hslots : Slots io w.number (teardown rid step' remaining).Past w.points) :
    Separated { w with io := io, phase := .teardown rid step' remaining } :=
  ⟨(h.accounts.slots hnext hrequest hcancels).nextStep hph hafter, hslots⟩

theorem teardown (hph : w.phase = .teardown rid step remaining) :
    Separated (w.teardownStep rid remaining step) := by
  have hslots := h.slots
  rw [hph] at hslots
  cases step with
  | bind =>
    refine ⟨h.accounts.bind hph, hslots.clear (.inl ⟨rfl, ?_⟩) (.inl ⟨rfl, ?_⟩)
      (.inl ⟨rfl, ?_⟩) (.inl ⟨rfl, ?_⟩) (.inl ⟨rfl, ?_, ?_⟩)⟩ <;>
      exact past_next rfl (by decide)
  | cancel =>
    have hio := flagged_foldl (w.io.ofRequest rid) w.io
    refine ⟨h.accounts.cancel hph, hslots.clear (.inl ⟨hio.inbound, ?_⟩)
      (.inl ⟨hio.wsIn, ?_⟩) (.inl ⟨hio.wsOut, ?_⟩) (.inl ⟨hio.outbound, ?_⟩)
      (.inl ⟨hio.clientWs, ?_, ?_⟩)⟩ <;>
      exact past_next rfl (by decide)
  | discard =>
    refine ⟨h.accounts.discard hph, hslots.clear (.inl ⟨rfl, ?_⟩) (.inl ⟨rfl, ?_⟩)
      (.inl ⟨rfl, ?_⟩) (.inl ⟨rfl, ?_⟩) (.inl ⟨rfl, ?_, ?_⟩)⟩ <;>
      exact past_next rfl (by decide)
  -- each of these clears its own slot and keeps the others
  | inbound | outbound | wsIn | wsOut | clientGeneration | clientState | resetTimers =>
    refine h.clearing hph (by decide) rfl rfl rfl (hslots.clear ?_ ?_ ?_ ?_ ?_) <;>
      first
      | exact .inr rfl
      | exact .inl ⟨rfl, past_next rfl (by decide)⟩
      | exact .inl ⟨rfl, past_next rfl (by decide), past_next rfl (by decide)⟩
      | exact .inr (.inl ⟨rfl, past_next rfl (by decide)⟩)
      | exact .inr (.inr ⟨rfl, past_next rfl (by decide)⟩)
  | drain => exact h

theorem drained (hph : w.phase = .teardown rid .drain remaining) :
    Slots w.io w.number (fun _ => True) w.points := by
  refine h.slots.clear (.inl ⟨rfl, ?_⟩) (.inl ⟨rfl, ?_⟩) (.inl ⟨rfl, ?_⟩) (.inl ⟨rfl, ?_⟩)
    (.inl ⟨rfl, ?_, ?_⟩) <;>
    exact propext (iff_of_true trivial (past_of hph (by decide)))

theorem drain (hph : w.phase = .teardown rid .drain remaining)
    (hstage : w.stage id = some .completed) : Separated { w.consume id with
      phase := .teardown rid .drain (remaining.filter (· ≠ id)) } := by
  refine ⟨h.accounts.drain hph id, ?_⟩
  have hslots := h.slots
  rw [hph, ← points_consume hstage] at hslots
  exact hslots.congr_io rfl rfl rfl rfl rfl

theorem quiesced (hph : w.phase = .teardown rid .drain []) : Separated { w with phase := .idle } :=
  ⟨h.accounts.quiesced hph, h.drained hph⟩

theorem timeout (hph : w.phase = .teardown rid .drain remaining) :
    Separated { w with phase := .stopped } :=
  ⟨h.accounts.timeout hph, h.drained hph⟩

theorem pickUp (hstage : w.stage id = some .queued) : Separated (w.pickUp id) := by
  refine ⟨h.accounts.setStage ?_, ?_⟩
  · rintro - - ⟨⟩ hop
    exact isSome_iff_ne_none.mpr fun hnone => hop ((h.accounts.registered id).mp hnone)
  unfold Worker.pickUp
  rw [points_setStage hstage]
  have hpoint : w.points id = none := by simp [points, hstage]
  have hremoves : ∀ bodyId, ¬Removes bodyId .started := by simp [Removes]
  exact h.slots.quiet (.inl hpoint) hremoves rfl

end

theorem advance_registry (io : IoHandle) (owner : Channel) (flag go : Bool) (req : IoRequest)
    (point : Point) : (io.advance owner flag go req point).1.nextId = io.nextId ∧
      (io.advance owner flag go req point).1.requestId = io.requestId ∧
      (io.advance owner flag go req point).1.operationCancels = io.operationCancels := by
  have hsource : ∀ slot source, (io.setSource slot source).nextId = io.nextId ∧
      (io.setSource slot source).requestId = io.requestId ∧
      (io.setSource slot source).operationCancels = io.operationCancels := by
    rintro slot (_ | _) <;> exact ⟨rfl, rfl, rfl⟩
  have hread : ∀ source, (io.beginRead source).1.nextId = io.nextId ∧
      (io.beginRead source).1.requestId = io.requestId ∧
      (io.beginRead source).1.operationCancels = io.operationCancels := by
    intro source
    unfold IoHandle.beginRead
    split
    · exact ⟨rfl, rfl, rfl⟩
    · exact hsource _ source
  cases point with
  | started =>
    cases go with
    | false => exact ⟨rfl, rfl, rfl⟩
    | true =>
      cases req with
      | readBody => exact hread .inbound
      | wsRead => exact hread .wsIn
      | httpRead =>
        simp only [IoHandle.advance, IoHandle.start, if_true]
        split <;> exact ⟨rfl, rfl, rfl⟩
      | _ => exact ⟨rfl, rfl, rfl⟩
  | holding source =>
    cases go with
    | false => exact ⟨rfl, rfl, rfl⟩
    | true => exact hsource _ source
  | opening =>
    simp only [IoHandle.advance]
    split <;> exact ⟨rfl, rfl, rfl⟩
  | _ => exact ⟨rfl, rfl, rfl⟩

variable {op : Operation} {shared : Bool} {point : Point}

/-- Once the teardown has set the flags, every task finds its own set. -/
theorem flagged (h : Accounts w) (hop : w.operations.get? id = some op)
    (hstage : op.stage = .running shared point) (hpast : w.phase.Past .cancel) :
    w.io.flagged id shared = true := by
  obtain ⟨control, hcontrol⟩ : ∃ control, w.io.operationCancels.get? id = some control := by
    refine ne_none_iff_exists'.mp fun hnone => ?_
    exact some_ne_none _ (hop.symm.trans ((h.registered id).mp hnone))
  have hshared := h.shared id op shared point hop hstage
  simp [IoHandle.flagged, hshared, hcontrol, h.flagged hpast id control hcontrol]

theorem proceed (h : Separated w) (hop : w.operations.get? id = some op)
    (hrunning : op.stage = .running shared point) (go : Bool) :
    let next := w.io.advance op.owner (w.io.flagged id shared) go op.request point
    Separated ({ w with io := next.1 }.setStage id (.running shared next.2)) := by
  intro next
  have hstage : w.stage id = some (.running shared point) :=
    (stage_of_get? hop).trans (congrArg some hrunning)
  have hpoint : w.points id = some point := by simp [points, hstage]
  have hpoints : (setStage { w with io := next.1 } id (.running shared next.2)).points =
      update w.points id (some next.2) := points_setStage hstage
  have hflag : w.phase.Past .cancel → w.io.flagged id shared = true :=
    flagged h.accounts hop hrunning
  obtain ⟨hnext, hrequest, hcancels⟩ := advance_registry w.io op.owner
    (w.io.flagged id shared) go op.request point
  refine ⟨(h.accounts.slots hnext hrequest hcancels).setStage ?_, ?_⟩
  · rintro _ _ ⟨⟩ _
    exact h.accounts.shared id op shared point hop hrunning
  rw [hpoints]
  have hslots := h.slots.advance hpoint (fun hp => hflag (hp.mono (by decide)))
    (fun hp => hflag (hp.mono (by decide))) (fun hp => hp.mono (by decide)) go op.request
  rw [← h.accounts.owner id op hop] at hslots ⊢
  exact hslots

theorem advance (h : Separated w) (go : Bool) : Separated (w.advance id go) := by
  unfold Worker.advance
  cases hop : w.operations.get? id with
  | none => exact h
  | some op =>
    obtain ⟨_, _, stage⟩ := op
    have hstage := stage_of_get? hop
    cases stage with
    | queued | completed => exact h
    | running _ point =>
      have hproceed := h.proceed hop rfl go
      cases point with
      | finished =>
        have hpoint : w.points id = some .finished := by simp [points, hstage]
        have hcompleted : Accounts (w.setStage id .completed) := h.accounts.setStage nofun
        refine ⟨hcompleted, ?_⟩
        have hpoints : (w.setStage id .completed).points = update w.points id none :=
          points_setStage hstage
        rw [hpoints]
        exact h.slots.complete hpoint
      | _ => exact hproceed

theorem perform (h : Separated w) (action : Action) : Separated (w.perform action) := by
  fun_cases Worker.perform w action with
  | case1 rid wsIn wsOut hph => exact h.begin hph rid wsIn wsOut
  | case3 req _ hph => exact h.submit hph req
  | case5 id =>
    exact ⟨h.accounts.flag (flagged_cancel w.io id), h.slots.congr_io rfl rfl rfl rfl rfl⟩
  | case7 =>
    exact ⟨h.accounts.slots rfl rfl rfl, h.slots.clear (.inr rfl) (.inl ⟨rfl, rfl⟩)
      (.inl ⟨rfl, rfl⟩) (.inl ⟨rfl, rfl⟩) (.inl ⟨rfl, rfl, rfl⟩)⟩
  | case9 bodyId =>
    exact ⟨h.accounts.slots rfl rfl rfl, ⟨h.slots.inbound, h.slots.wsIn, h.slots.wsOut,
      (h.slots.bodies.clear bodyId).1, h.slots.client⟩⟩
  | case11 _ _ hstage hph => exact h.receive hph hstage
  | case13 _ hph => exact h.rejectAll hph
  | case15 _ hph =>
    have hslots := h.slots
    rw [hph] at hslots
    refine ⟨h.accounts.finishJob hph, hslots.clear (.inl ⟨rfl, ?_⟩) (.inl ⟨rfl, ?_⟩)
      (.inl ⟨rfl, ?_⟩) (.inl ⟨rfl, ?_⟩) (.inl ⟨rfl, ?_, ?_⟩)⟩ <;>
      exact propext ⟨fun hp => absurd hp (not_past (by decide)), False.elim⟩
  | case17 _ _ _ hph => exact h.teardown hph
  | case19 _ _ _ hstage hph => exact h.drain hph hstage
  | case21 _ hph => exact h.quiesced hph
  | case23 _ _ _ hph => exact h.timeout hph
  | case25 _ hstage => exact h.pickUp hstage
  | case27 _ go => exact h.advance go
  | case28 =>
    exact ⟨h.accounts.slots rfl rfl rfl, ⟨h.slots.inbound, h.slots.wsIn, h.slots.wsOut,
      h.slots.bodies, ⟨fun _ => nofun, h.slots.client.attempt⟩⟩⟩
  | _ => exact h

end Separated

theorem perform_settled (w : Worker) (action : Action) :
    (w.perform action).settled = w.settled ∨ ∃ rid, w.phase = .running rid := by
  fun_cases perform w action with
  | case11 _ rid _ hph | case13 rid hph => exact .inr ⟨rid, hph⟩
  | case17 _ step => cases step <;> exact .inl rfl
  | case27 id =>
    fun_cases advance w id _ <;> exact .inl rfl
  | _ => exact .inl rfl

/-- For every run of a worker from its start. When a teardown has returned, no operation is
registered, queued, running or completed, no promise is pending and every slot is empty; at any
time every operation is one of the current request, so every completion received is; and a
promise is settled at most once, while the request that submitted its operation runs. -/
theorem requests_separated (actions : List Action) :
    let w := run Worker.step boot actions
    (w.phase = .idle →
      (∀ id, w.io.operationCancels.get? id = none) ∧ (∀ id, w.operations.get? id = none) ∧
      (∀ id, w.pending.get? id = none) ∧ w.io.inbound.inner = none ∧ w.io.wsIn.inner = none ∧
      w.io.wsOut = none ∧ (∀ bodyId, w.io.outbound.streams.get? bodyId = none) ∧
      w.io.clientWs.commands = none) ∧
    (∀ id op, w.operations.get? id = some op → op.owner = w.number) ∧
    (w.settled.map Settlement.id).Nodup ∧
    (∀ settlement ∈ w.settled, settlement.owner = settlement.during) ∧
    ∀ e ∈ trace Worker.step boot actions, e.after.settled = e.before.settled ∨
      ∃ rid, e.before.phase = .running rid := by
  intro w
  have h : Separated w := run_invariant step boot Separated.boot
    (fun _ action hw => hw.perform action) actions
  refine ⟨fun hidle => ?_, h.accounts.owner, h.accounts.nodup,
    fun settlement hs => (h.accounts.settled settlement hs).2.2, fun e he => ?_⟩
  · have hnone := h.accounts.quiet hidle
    have hslots := h.slots
    rw [hidle] at hslots
    obtain ⟨hinbound, hwsIn, hwsOut, hbodies, hcommands⟩ :=
      Slots.empty hslots (Separated.points_none h.accounts hidle)
    exact ⟨fun id => (h.accounts.registered id).mpr (hnone id), hnone,
      h.accounts.discarded (by rw [hidle]; trivial), hinbound, hwsIn, hwsOut, hbodies, hcommands⟩
  · obtain ⟨before, action, -, rfl⟩ := mem_trace step boot he
    exact perform_settled before action

/-- A module without operations is torn down and the worker waits for its first request. -/
example : (run Worker.step Worker.boot
    (.finishJob :: List.replicate 10 .teardown ++ [.quiesced])).phase = .idle := rfl

end Tysel.Isolate
