import Tysel.Verification.Isolate.Tasks

/-! The registered operations of a worker are those of its current request. A teardown sets the
flags of all of them, forgets their promises and waits for their completions, in this order. -/

namespace Tysel.Isolate

open List Table Nat Function Phase IoHandle

/-! ## Phases -/

variable {rid : ℕ} {step current : TeardownStep} {phase : Phase} {io : IoHandle}

namespace Phase

def Past : Phase → TeardownStep → Prop
  | .running _, _ => False
  | .teardown _ current _, step => step.rank < current.rank
  | .idle, _ | .stopped, _ => True

def requestId? : Phase → Option ℕ
  | .running rid | .teardown rid _ _ => some rid
  | .idle | .stopped => none

theorem Past.mono {step' : TeardownStep} (h : phase.Past step)
    (hle : step'.rank ≤ step.rank) : phase.Past step' := by
  cases phase with
  | running => exact h
  | teardown => exact lt_of_le_of_lt hle h
  | idle | stopped => exact h

variable {remaining : List OpId}

theorem past_of (hph : phase = .teardown rid current remaining)
    (h : step.rank < current.rank) : phase.Past step := by
  rw [hph]
  exact h

theorem not_past (h : current.rank ≤ step.rank) : ¬(teardown rid current remaining).Past step :=
  not_lt.mpr h

theorem not_past_of_running (h : phase = .running rid) : ¬phase.Past step := by
  rw [h]
  exact not_false

end Phase

theorem TeardownStep.rank_injective : Function.Injective TeardownStep.rank := by
  intro step step' h
  cases step <;> cases step' <;> first | rfl | cases h

theorem Phase.past_next {next : TeardownStep}
    {remaining' : List OpId} (hnext : next.rank = current.rank + 1)
    (hne : step ≠ current) : (teardown rid next remaining').Past step =
      (teardown rid current remaining).Past step := by
  have hrank : step.rank ≠ current.rank := fun h => hne (TeardownStep.rank_injective h)
  change (step.rank < next.rank) = (step.rank < current.rank)
  refine propext ⟨fun h => ?_, fun h => ?_⟩ <;> omega

/-! ## Stages -/

namespace Worker

variable {w : Worker} {id : OpId}

def points (w : Worker) (id : OpId) : Option Point :=
  match w.stage id with
  | some (.running _ point) => some point
  | _ => none

theorem stage_of_get? {op : Operation} (h : w.operations.get? id = some op) :
    w.stage id = some op.stage := by
  simp [stage, h]

theorem stage_setStage (stage : Stage) (id' : OpId) : (w.setStage id stage).stage id' =
      if id' = id then (w.stage id).map fun _ => stage else w.stage id' := by
  unfold Worker.stage setStage
  rw [get?_modify]
  split
  · cases w.operations.get? id <;> rfl
  · rfl

theorem points_setStage {stage stage' : Stage} (h : w.stage id = some stage) :
    (w.setStage id stage').points = update w.points id
      (match stage' with
        | .running _ point => some point
        | _ => none) := by
  funext id'
  unfold points
  rw [stage_setStage]
  by_cases hid : id' = id
  · subst hid
    rw [if_pos rfl, h, update_self]
    cases stage' <;> rfl
  · rw [if_neg hid, update_of_ne hid]

end Worker

/-! ## The bookkeeping of operations and promises -/

/-- Registered operations are those of the current request; their flags are set and their
promises forgotten in the order of the teardown. -/
structure Accounts (w : Worker) : Prop where
  registered : ∀ id, w.io.operationCancels.get? id = none ↔ w.operations.get? id = none
  fresh : ∀ id, w.io.nextId ≤ id → w.operations.get? id = none
  owner : ∀ id op, w.operations.get? id = some op → op.owner = w.number
  shared : ∀ id op shared point, w.operations.get? id = some op →
    op.stage = .running shared point → shared = true
  bound : ∀ rid, w.phase = .running rid → w.io.requestId = rid
  request : ∀ rid, w.phase.requestId? = some rid → ∀ id ctl,
    w.io.operationCancels.get? id = some ctl → ctl.requestId = rid
  flagged : w.phase.Past .cancel → ∀ id ctl,
    w.io.operationCancels.get? id = some ctl → ctl.cancel = true
  remaining : ∀ rid step remaining, w.phase = .teardown rid step remaining →
    w.phase.Past .cancel → ∀ id, w.operations.get? id ≠ none → id ∈ remaining
  quiet : w.phase = .idle → ∀ id, w.operations.get? id = none
  pending : ∀ id owner, w.pending.get? id = some owner →
    owner = w.number ∧ w.operations.get? id ≠ none
  discarded : w.phase.Past .discard → ∀ id, w.pending.get? id = none
  settled : ∀ st ∈ w.settled, st.id < w.io.nextId ∧
    w.pending.get? st.id = none ∧ st.owner = st.during
  nodup : (w.settled.map Settlement.id).Nodup

namespace Accounts

variable {w : Worker} {id : OpId}

theorem boot : Accounts Worker.boot := by
  constructor <;> simp [Worker.boot, Phase.Past, requestId?]

theorem slots (h : Accounts w) (hnext : io.nextId = w.io.nextId)
    (hrequest : io.requestId = w.io.requestId)
    (hcancels : io.operationCancels = w.io.operationCancels) : Accounts { w with io := io } :=
  { h with
    registered := by simpa only [hcancels] using h.registered
    fresh := by simpa only [hnext] using h.fresh
    bound := by simpa only [hrequest] using h.bound
    request := by simpa only [hcancels] using h.request
    flagged := by simpa only [hcancels] using h.flagged
    settled := by simpa only [hnext] using h.settled }

theorem begin (h : Accounts w) (hidle : w.phase = .idle) (rid : ℕ) (wsIn wsOut : Bool) :
    Accounts (w.begin rid wsIn wsOut) := by
  have hnone := h.quiet hidle
  have hcancels : ∀ id, w.io.operationCancels.get? id = none := fun id =>
    (h.registered id).mpr (hnone id)
  have hpending : ∀ id, w.pending.get? id = none := h.discarded (by rw [hidle]; trivial)
  exact { h with
    owner := fun id op hid => by simp [Worker.begin, hnone] at hid
    bound := fun r hr => running.inj hr
    request := fun r hr id ctl hid => by simp [Worker.begin, hcancels] at hid
    flagged := fun hp => hp.elim
    remaining := nofun
    quiet := nofun
    pending := fun id owner hid => by simp [Worker.begin, hpending] at hid
    discarded := fun hp => hp.elim }

theorem submit (h : Accounts w) (hrun : w.phase = .running rid)
    (request : IoRequest) : Accounts (w.submit request) := by
  refine { h with
    registered := fun id => ?_
    fresh := fun id hid => ?_
    owner := fun id op hid => ?_
    shared := fun id op shared point hid hstage => ?_
    request := fun r hr id ctl hid => ?_
    flagged := fun hp => absurd hp (not_past_of_running hrun)
    remaining := fun r step remaining hr => nomatch hrun.symm.trans hr
    quiet := fun hidle => nomatch hrun.symm.trans hidle
    pending := fun id owner hid => ?_
    discarded := fun hp => absurd hp (not_past_of_running hrun)
    settled := fun st hs => ?_ }
  · simp only [Worker.submit, get?_insert]
    split
    · simp
    · exact h.registered id
  · exact (get?_insert_ne (ne_of_gt hid)).trans (h.fresh id (le_of_succ_le hid))
  · rcases get?_insert_eq_some.mp hid with ⟨-, rfl⟩ | ⟨-, hid⟩
    · rfl
    · exact h.owner id op hid
  · rcases get?_insert_eq_some.mp hid with ⟨-, rfl⟩ | ⟨-, hid⟩
    · cases hstage
    · exact h.shared id op shared point hid hstage
  · rcases get?_insert_eq_some.mp hid with ⟨-, rfl⟩ | ⟨-, hid⟩
    · refine (h.bound rid hrun).trans (Option.some.inj (Eq.trans ?_ hr))
      exact (congrArg requestId? hrun).symm
    · exact h.request r hr id ctl hid
  · rcases get?_insert_eq_some.mp hid with ⟨rfl, rfl⟩ | ⟨hne, hid⟩
    · exact ⟨rfl, by simp [Worker.submit]⟩
    · exact (h.pending id owner hid).imp_right ((get?_insert_ne hne).trans_ne ·)
  · obtain ⟨hlt, hpending, heq⟩ := h.settled st hs
    exact ⟨Nat.lt_succ_of_lt hlt, (get?_insert_ne (Nat.ne_of_lt hlt)).trans hpending, heq⟩

theorem get?_cancel (io : IoHandle) (id id' : OpId) : (io.cancel id).operationCancels.get? id' =
      if id' = id then (io.operationCancels.get? id).map fun ctl =>
        { ctl with cancel := true } else io.operationCancels.get? id' := by
  simp only [cancel, get?_modify]

/-- Setting flags keeps everything else of the registry. -/
structure Flagged (ids : List OpId) (io io' : IoHandle) : Prop where
  nextId : io'.nextId = io.nextId
  requestId : io'.requestId = io.requestId
  inbound : io'.inbound = io.inbound
  outbound : io'.outbound = io.outbound
  wsIn : io'.wsIn = io.wsIn
  wsOut : io'.wsOut = io.wsOut
  clientWs : io'.clientWs = io.clientWs
  controls : ∀ id, io'.operationCancels.get? id =
    if id ∈ ids then (io.operationCancels.get? id).map fun ctl =>
      { ctl with cancel := true } else io.operationCancels.get? id

theorem flagged_cancel (io : IoHandle) (id : OpId) : Flagged [id] io (io.cancel id) := by
  refine ⟨rfl, rfl, rfl, rfl, rfl, rfl, rfl, fun id' => ?_⟩
  rw [get?_cancel]
  by_cases hid : id' = id
  · subst hid
    simp
  · simp [hid]

theorem flagged_foldl (ids : List OpId) (io : IoHandle) : Flagged ids io (ids.foldl cancel io) := by
  induction ids generalizing io with
  | nil => exact ⟨rfl, rfl, rfl, rfl, rfl, rfl, rfl, fun id => rfl⟩
  | cons id _ ih =>
    have hrest := ih (io.cancel id)
    refine ⟨hrest.nextId, hrest.requestId, hrest.inbound, hrest.outbound, hrest.wsIn,
      hrest.wsOut, hrest.clientWs, fun id' => ?_⟩
    rw [foldl_cons, hrest.controls, get?_cancel]
    by_cases hid : id' = id
    · subst hid
      cases io.operationCancels.get? id' <;> simp
    · simp [hid]

theorem flag (h : Accounts w) {ids : List OpId} (hio : Flagged ids w.io io) :
    Accounts { w with io := io } := by
  have hcontrol : ∀ id ctl, io.operationCancels.get? id = some ctl →
      ∃ old, w.io.operationCancels.get? id = some old ∧ ctl.requestId = old.requestId ∧
        (old.cancel = true → ctl.cancel = true) := by
    intro id ctl hid
    rw [hio.controls] at hid
    split at hid
    · obtain ⟨old, hold, rfl⟩ := Option.map_eq_some_iff.mp hid
      exact ⟨old, hold, rfl, fun _ => rfl⟩
    · exact ⟨ctl, hid, rfl, fun hc => hc⟩
  refine { h with
    registered := fun id => ?_
    fresh := by simpa only [hio.nextId] using h.fresh
    bound := by simpa only [hio.requestId] using h.bound
    request := fun r hr id ctl hid => ?_
    flagged := fun hp id ctl hid => ?_
    settled := by simpa only [hio.nextId] using h.settled }
  · rw [hio.controls, ← h.registered id]
    split <;> simp
  · obtain ⟨old, hold, heq, -⟩ := hcontrol id ctl hid
    exact heq.trans (h.request r hr id old hold)
  · obtain ⟨old, hold, -, hcancel⟩ := hcontrol id ctl hid
    exact hcancel (h.flagged hp id old hold)

theorem settle_phase (w : Worker) (id : OpId) :
    (w.settle id).phase = w.phase ∧ (w.settle id).io = w.io ∧
      (w.settle id).operations = w.operations ∧ (w.settle id).number = w.number := by
  unfold Worker.settle
  split <;> exact ⟨rfl, rfl, rfl, rfl⟩

theorem consume (h : Accounts w) (hid : w.pending.get? id = none) : Accounts (w.consume id) := by
  have hnone : ∀ id', w.operations.get? id' = none → (w.consume id).operations.get? id' = none := by
    intro id' hget
    by_cases hne : id' = id <;> simp [Worker.consume, hne, hget]
  refine { h with
    registered := fun id' => ?_
    fresh := fun id' hle => hnone id' (h.fresh id' hle)
    owner := fun id' op hget => h.owner id' op (get?_erase_eq_some.mp hget).2
    shared := fun id' op shared point hget =>
      h.shared id' op shared point (get?_erase_eq_some.mp hget).2
    request := fun r hr id' ctl hget =>
      h.request r hr id' ctl (get?_erase_eq_some.mp hget).2
    flagged := fun hp id' ctl hget =>
      h.flagged hp id' ctl (get?_erase_eq_some.mp hget).2
    remaining := fun r step remaining hr hp id' hget =>
      h.remaining r step remaining hr hp id' fun hold => hget (hnone id' hold)
    quiet := fun hidle id' => hnone id' (h.quiet hidle id')
    pending := fun id' owner hget => ?_ }
  · by_cases hne : id' = id
    · simp [Worker.consume, finish, hne]
    · simpa [Worker.consume, finish, hne] using h.registered id'
  · have hne : id' ≠ id := by
      rintro rfl
      exact Option.some_ne_none _ (Eq.trans (Eq.symm hget) hid)
    exact (h.pending id' owner hget).imp_right ((get?_erase_ne hne).trans_ne ·)

theorem settle_pending (w : Worker) (id : OpId) : (w.settle id).pending.get? id = none := by
  unfold Worker.settle
  cases hid : w.pending.get? id with
  | none => exact hid
  | some => exact get?_erase_self ..

section

variable (h : Accounts w) (hrun : w.phase = .running rid)

include h hrun

theorem settle (id : OpId) : Accounts (w.settle id) := by
  unfold Worker.settle
  cases hid : w.pending.get? id with
  | none => exact h
  | some owner =>
    obtain ⟨howner, hop⟩ := h.pending id owner hid
    have hold : ∀ st ∈ w.settled, st.id ≠ id := by
      rintro st hs rfl
      exact Option.some_ne_none _ (hid.symm.trans (h.settled st hs).2.1)
    refine { h with
      pending := fun id' owner' hid' => ?_
      discarded := fun hp => absurd hp (not_past_of_running hrun)
      settled := fun st hs => ?_
      nodup := ?_ }
    · exact h.pending id' owner' (get?_erase_eq_some.mp hid').2
    · rcases mem_append.mp hs with hs | hs
      · obtain ⟨hlt, hpending, heq⟩ := h.settled st hs
        exact ⟨hlt, (get?_erase_ne (hold st hs)).trans hpending, heq⟩
      · obtain rfl := mem_singleton.mp hs
        refine ⟨?_, get?_erase_self .., howner⟩
        exact Nat.lt_of_not_le fun hle => hop (h.fresh id hle)
    · rw [map_append, nodup_append]
      refine ⟨h.nodup, nodup_singleton _, ?_⟩
      rintro _ hmem _ hlast rfl
      obtain ⟨st, hs, rfl⟩ := mem_map.mp hmem
      exact hold st hs (mem_singleton.mp hlast)

theorem settle_all (ids : List OpId) :
    Accounts (ids.foldl Worker.settle w) ∧ (ids.foldl Worker.settle w).phase = w.phase ∧
      (ids.foldl Worker.settle w).io = w.io ∧
      (ids.foldl Worker.settle w).operations = w.operations ∧
      (ids.foldl Worker.settle w).number = w.number := by
  induction ids generalizing w with
  | nil => exact ⟨h, rfl, rfl, rfl, rfl⟩
  | cons id _ ih =>
    obtain ⟨hph, hio, hops, hnumber⟩ := settle_phase w id
    obtain ⟨hrest, hphase', hio', hops', hnumber'⟩ := ih (h.settle hrun id) (hph.trans hrun)
    exact ⟨hrest, hphase'.trans hph, hio'.trans hio, hops'.trans hops, hnumber'.trans hnumber⟩

theorem receive (id : OpId) : Accounts ((w.consume id).settle id) := by
  have hsettle : (w.consume id).settle id = (w.settle id).consume id := by
    unfold Worker.settle
    rw [show (w.consume id).pending = w.pending from rfl]
    split <;> rfl
  rw [hsettle]
  exact (h.settle hrun id).consume (settle_pending w id)

end

theorem setPhase (h : Accounts w) (hrun : ∀ rid, phase ≠ .running rid)
    (hrequest : ∀ rid, phase.requestId? = some rid → w.phase.requestId? = some rid)
    (hcancel : phase.Past .cancel → w.phase.Past .cancel)
    (hdiscard : phase.Past .discard → w.phase.Past .discard)
    (hremaining : ∀ rid step remaining, phase = .teardown rid step remaining →
      phase.Past .cancel → ∀ id, w.operations.get? id ≠ none → id ∈ remaining)
    (hidle : phase = .idle → ∀ id, w.operations.get? id = none) :
    Accounts { w with phase := phase } :=
  { h with
    bound := fun rid hr => absurd hr (hrun rid)
    request := fun rid hr => h.request rid (hrequest rid hr)
    flagged := fun hp => h.flagged (hcancel hp)
    remaining := hremaining
    quiet := hidle
    discarded := fun hp => h.discarded (hdiscard hp) }

variable {remaining : List OpId}

theorem mem_ofRequest : id ∈ io.ofRequest rid ↔
      ∃ ctl, io.operationCancels.get? id = some ctl ∧ ctl.requestId = rid := by
  unfold ofRequest
  rw [mem_map]
  constructor
  · rintro ⟨⟨_, ctl⟩, hmem, rfl⟩
    exact ⟨ctl, mem_select.mp hmem⟩
  · rintro ⟨ctl, hcontrol⟩
    exact ⟨(id, ctl), mem_select.mpr hcontrol, rfl⟩

theorem get?_discard (pending : Table OpId ℕ) (ids : List OpId) (id : OpId) :
    (ids.foldl (fun pending id => pending.erase id) pending).get? id =
      if id ∈ ids then none else pending.get? id := by
  induction ids generalizing pending with
  | nil => simp
  | cons first _ ih =>
    rw [foldl_cons, ih, get?_erase]
    by_cases hid : id = first
    · simp [hid]
    · simp [hid]

section

variable (h : Accounts w)

include h

theorem nextStep {step' : TeardownStep} (hph : w.phase = .teardown rid step remaining)
    (hafter : TeardownStep.discard.rank < step.rank) :
    Accounts { w with phase := .teardown rid step' remaining } := by
  have hpast : w.phase.Past .discard := past_of hph hafter
  have hcancelled : w.phase.Past .cancel := hpast.mono (by decide)
  refine h.setPhase nofun (fun r hr => hph ▸ hr) (fun _ => hcancelled) (fun _ => hpast) ?_ nofun
  intro r s rem heq _ id hid
  obtain ⟨-, -, rfl⟩ := teardown.inj heq
  exact h.remaining rid step remaining hph hcancelled id hid

theorem finishJob (hrun : w.phase = .running rid) :
    Accounts { w with phase := .teardown rid .bind [] } :=
  h.setPhase nofun (fun r hr => hrun ▸ hr) (fun hp => absurd hp (not_past (by decide)))
    (fun hp => absurd hp (not_past (by decide)))
    (fun r s rem heq hp => absurd hp (not_past (by decide))) nofun

theorem bind (hph : w.phase = .teardown rid .bind remaining) :
    Accounts (w.teardownStep rid remaining .bind) := by
  have hunbound : Accounts { w with io := { w.io with requestId := 0 } } :=
    { h with
      bound := fun r hr => nomatch hph.symm.trans hr }
  refine hunbound.setPhase nofun (fun r hr => hph ▸ hr)
    (fun hp => absurd hp (not_past (by decide)))
    (fun hp => absurd hp (not_past (by decide))) (fun r s rem heq hp => ?_) nofun
  exact absurd hp (not_past (by decide))

/-- All registered operations are of the request, so all of them are cancelled. -/
theorem cancel (hph : w.phase = .teardown rid .cancel remaining) :
    Accounts (w.teardownStep rid remaining .cancel) := by
  have hio := flagged_foldl (w.io.ofRequest rid) w.io
  have hrequest : w.phase.requestId? = some rid := by rw [hph]; rfl
  have hmem : ∀ id, w.io.operationCancels.get? id ≠ none → id ∈ w.io.ofRequest rid := by
    intro id hid
    obtain ⟨ctl, hcontrol⟩ := Option.ne_none_iff_exists'.mp hid
    exact mem_ofRequest.mpr ⟨ctl, hcontrol, h.request rid hrequest id ctl hcontrol⟩
  have hflag := h.flag hio
  exact { hflag with
    bound := nofun
    request := fun r hr => hflag.request r (hrequest.trans hr)
    flagged := by
      intro _ id ctl hid
      change (w.io.cancelRequest rid).operationCancels.get? id = some ctl at hid
      unfold cancelRequest at hid
      rw [hio.controls] at hid
      have hregistered : id ∈ w.io.ofRequest rid := by
        refine hmem id fun hnone => ?_
        rw [hnone] at hid
        simp at hid
      rw [if_pos hregistered] at hid
      obtain ⟨-, -, rfl⟩ := Option.map_eq_some_iff.mp hid
      rfl
    remaining := by
      intro r s rem heq _ id hid
      obtain ⟨-, -, rfl⟩ := teardown.inj heq
      exact hmem id fun hnone => hid ((h.registered id).mp hnone)
    quiet := nofun
    discarded := fun hp => absurd hp (not_past (by decide)) }

theorem discard (hph : w.phase = .teardown rid .discard remaining) :
    Accounts (w.teardownStep rid remaining .discard) := by
  have hcancelled : w.phase.Past .cancel := past_of hph (by decide)
  have hpending : ∀ id, (w.discard remaining).pending.get? id = none := by
    intro id
    refine (get?_discard w.pending remaining id).trans ?_
    split
    · rfl
    · rename_i hnot
      refine Option.eq_none_iff_forall_ne_some.mpr fun owner howner => hnot ?_
      exact h.remaining rid .discard remaining hph hcancelled id
        (h.pending id owner howner).2
  refine { h with
    bound := fun _ hr => by cases hr
    request := fun r hr => h.request r (hph ▸ hr)
    flagged := fun _ => h.flagged hcancelled
    remaining := fun r s rem heq _ id hid => ?_
    quiet := fun hr => by cases hr
    pending := fun id owner hid => ?_
    discarded := fun _ => hpending
    settled := fun st hs => ?_ }
  · obtain ⟨-, -, rfl⟩ := teardown.inj heq
    exact h.remaining rid .discard remaining hph hcancelled id hid
  · exact absurd hid (Option.eq_none_iff_forall_ne_some.mp (hpending id) owner)
  · obtain ⟨hlt, -, heq⟩ := h.settled st hs
    exact ⟨hlt, hpending _, heq⟩

theorem drain (hph : w.phase = .teardown rid .drain remaining) (id : OpId) :
    Accounts { w.consume id with
      phase := .teardown rid .drain (remaining.filter (· ≠ id)) } := by
  have hpast : w.phase.Past .discard := past_of hph (by decide)
  have hconsumed := h.consume (h.discarded hpast id)
  refine hconsumed.setPhase nofun (fun r hr => hph ▸ hr) (fun _ => hpast.mono (by decide))
    (fun _ => hpast) ?_ nofun
  intro r s rem heq _ id' hid'
  obtain ⟨-, -, rfl⟩ := teardown.inj heq
  have hne : id' ≠ id := fun heq => hid' (heq ▸ get?_erase_self ..)
  have hmem := h.remaining rid .drain remaining hph (hpast.mono (by decide)) id'
    ((get?_erase_ne hne).symm.trans_ne hid')
  exact mem_filter.mpr ⟨hmem, by simpa using hne⟩

theorem quiesced (hph : w.phase = .teardown rid .drain []) :
    Accounts { w with phase := .idle } := by
  have hpast : w.phase.Past .discard := past_of hph (by decide)
  refine h.setPhase nofun nofun (fun _ => hpast.mono (by decide)) (fun _ => hpast) nofun ?_
  intro _ id
  by_contra hid
  exact not_mem_nil (h.remaining rid .drain [] hph (hpast.mono (by decide)) id hid)

theorem timeout (hph : w.phase = .teardown rid .drain remaining) :
    Accounts { w with phase := .stopped } := by
  have hpast : w.phase.Past .discard := past_of hph (by decide)
  exact h.setPhase nofun nofun (fun _ => hpast.mono (by decide)) (fun _ => hpast) nofun nofun

theorem setStage {stage : Stage}
    (hshared : ∀ shared point, stage = .running shared point →
      w.operations.get? id ≠ none → shared = true) : Accounts (w.setStage id stage) := by
  have hnone : ∀ id', (w.setStage id stage).operations.get? id' = none ↔
      w.operations.get? id' = none := by
    intro id'
    by_cases hne : id' = id <;> simp [Worker.setStage, hne]
  have hop : ∀ id' op, (w.setStage id stage).operations.get? id' = some op →
      ∃ old, w.operations.get? id' = some old ∧ op.owner = old.owner ∧
        (op.stage = old.stage ∨ (id' = id ∧ op.stage = stage)) := by
    intro id' op hget
    rcases get?_modify_eq_some.mp hget with ⟨rfl, old, hold, rfl⟩ | ⟨-, hold⟩
    · exact ⟨old, hold, rfl, .inr ⟨rfl, rfl⟩⟩
    · exact ⟨op, hold, rfl, .inl rfl⟩
  refine { h with
    registered := fun id' => (h.registered id').trans (hnone id').symm
    fresh := fun id' hle => (hnone id').mpr (h.fresh id' hle)
    owner := fun id' op hget => ?_
    shared := fun id' op shared point hget hstage => ?_
    remaining := fun r step remaining hr hp id' hget =>
      h.remaining r step remaining hr hp id' fun hold => hget ((hnone id').mpr hold)
    quiet := fun hidle id' => (hnone id').mpr (h.quiet hidle id')
    pending := fun id' owner hget => (h.pending id' owner hget).imp_right (mt (hnone id').mp) }
  · obtain ⟨old, hold, howner, -⟩ := hop id' op hget
    exact howner.trans (h.owner id' old hold)
  · obtain ⟨old, hold, -, hsame | ⟨rfl, hnew⟩⟩ := hop id' op hget
    · exact h.shared id' old shared point hold (hsame.symm.trans hstage)
    · exact hshared shared point (hnew.symm.trans hstage) (by simp [hold])

end

end Accounts

end Tysel.Isolate
