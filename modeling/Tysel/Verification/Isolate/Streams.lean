import Tysel.Algorithm.Isolate.Streams

/-! A read that has the receiver of a body reports the end of the body only after all of it has been
returned. A read that finds the slot empty reports an end as well, and there it need not be one:
another read may have the receiver, or a read that failed may have dropped it. A registry tells
such a read that there is no body. -/

namespace Tysel.Isolate

open List Option Nat Function StreamRegistry Body

namespace Body

def chunks : ReadResult → List (Except String Bytes)
  | .ok (some chunk) => [.ok chunk]
  | _ => []

def returned (body : Body) : List (Except String Bytes) := body.results.flatMap chunks

def sent (body : Body) : List (Except String Bytes) := body.received ++ body.queue

/-- All that was sent are chunks, they have been returned in order, and the sender is done. -/
def Complete (body : Body) : Prop := body.returned = body.sent ∧ body.finished

def Failed (body : Body) : Prop := ∃ e, .error e ∈ body.results

variable {body : Body}

@[simp] theorem returned_reply (r : ReadResult) :
    (body.reply r).returned = body.returned ++ chunks r := by
  simp [returned, reply]

variable {r : ReadResult}

theorem returned_receive (hall : body.returned = body.received) (hresult : chunks r = []) :
    (body.receive.reply r).returned <+: body.receive.received := by
  rw [returned_reply, hresult, append_nil]
  exact hall ▸ prefix_append ..

theorem recv_chunk {chunk : Bytes} (h : body.recv = some (.ok (some chunk)))
    (hall : body.returned = body.received) :
    (body.receive.reply (.ok (some chunk))).returned = body.receive.received := by
  revert h
  fun_cases recv body with
  | case1 item _ hqueue =>
    intro h
    rcases item with _ | _
    · cases h
    · cases h
      rw [returned_reply, receive, hqueue]
      exact congrArg (· ++ [_]) hall
  | _ => nofun

theorem recv_end (h : body.recv = some (.ok none)) (hall : body.returned = body.received) :
    body.Complete ∧ body.receive = body := by
  revert h
  fun_cases recv body with
  | case1 item => cases item <;> nofun
  | case2 hqueue hdone =>
    intro
    refine ⟨⟨hall.trans ?_, hdone⟩, ?_⟩
    · rw [sent, hqueue, append_nil]
    · cases body
      cases hqueue
      simp [receive]
  | case3 => nofun

end Body

/-- What holds of a body at any time. A read of the slot's generation is one of the current body,
and the current body is lost only by a failure or at its end. -/
structure Inbound.Keeps (slot : Inbound) (rx : Channel) (body : Body) : Prop where
  stored : slot.inner = some rx →
    slot.current = some rx ∧ body.reading = none ∧ body.returned = body.received
  reading : ∀ gen, body.reading = some gen →
    gen ≤ slot.generation ∧ (gen = slot.generation → slot.current = some rx) ∧
      body.returned = body.received
  lost : slot.current = some rx → slot.inner = none → body.reading = none →
    body.Failed ∨ body.Complete

namespace Inbound.Keeps

variable {slot : Inbound} {rx : Channel} {body : Body} (h : slot.Keeps rx body)

include h

/-- A read that has begun before an installation or a clearance is of an older generation. -/
theorem passed {inner current : Option Channel} (hinner : inner ≠ some rx)
    (hcurrent : current ≠ some rx) :
    Inbound.Keeps ⟨⟨inner, slot.generation + 1⟩, current⟩ rx body := by
  refine ⟨fun hs => absurd hs hinner, fun g hread => ?_, fun hi => absurd hi hcurrent⟩
  obtain ⟨hle, -, hall⟩ := h.reading g hread
  exact ⟨le_succ_of_le hle, fun heq => absurd (heq ▸ hle) (not_succ_le_self _), hall⟩

/-- The sender adds to a body that it has not finished. -/
theorem sent {queue : List (Except String Bytes)} {finished : Bool}
    (hdone : body.finished → body.queue = queue ∧ finished) :
    slot.Keeps rx { body with queue := queue, finished := finished } := by
  refine ⟨h.stored, h.reading, fun hi hs hread => (h.lost hi hs hread).imp_right ?_⟩
  rintro ⟨hall, hfinished⟩
  obtain ⟨rfl, hfinished⟩ := hdone hfinished
  exact ⟨hall, hfinished⟩

theorem reply : slot.Keeps rx (body.reply (.ok none)) := by
  have hsame : (body.reply (.ok none)).returned = body.returned := by simp [chunks]
  refine ⟨fun hs => ?_, fun g hread => ?_, fun hi hs hread => ?_⟩
  · rw [hsame]
    exact h.stored hs
  · rw [hsame]
    exact h.reading g hread
  · refine (h.lost hi hs hread).imp ?_ fun hdone => ⟨hsame.trans hdone.1, hdone.2⟩
    exact fun ⟨e, he⟩ => ⟨e, mem_append_left _ he⟩

end Inbound.Keeps

namespace Inbound

def Sound (w : Streams Inbound) : Prop := ∀ rx, w.owner.Keeps rx (w.bodies rx)

variable {w : Streams Inbound} {rx : Channel}

theorem sound_update {slot : Inbound} {f : Body → Body} (hself : slot.Keeps rx (f (w.bodies rx)))
    (hother : ∀ rx', rx' ≠ rx → slot.Keeps rx' (w.bodies rx')) : Sound (w.update slot rx f) :=
  (forall_update_iff w.bodies slot.Keeps).mpr ⟨hself, hother⟩

section

variable (h : Sound w) {gen : ℕ} {body : Body}

include h

theorem Sound.update {f : Body → Body} (hf : w.owner.Keeps rx (f (w.bodies rx))) :
    Sound (w.update w.owner rx f) := sound_update hf fun rx' _ => h rx'

/-- A read returns without giving the receiver back. -/
theorem Sound.ends (hread : (w.bodies rx).reading = some gen)
    (hlost : (body.reply r).Failed ∨ (body.reply r).Complete) :
    Sound (w.ends w.owner rx body r).2 := by
  refine h.update ⟨fun hs => ?_, nofun, fun _ _ _ => hlost⟩
  rw [((h rx).stored hs).2.1] at hread
  cases hread

theorem Sound.fails (hread : (w.bodies rx).reading = some gen) {e : String} :
    Sound (w.ends w.owner rx body (.error e)).2 :=
  h.ends hread (.inl ⟨_, mem_append_right _ (.head _)⟩)

theorem Sound.step (op : SlotOp) : Sound (step w op).2 := by
  fun_cases Inbound.step w op with
  | case2 rx =>
    refine sound_update ⟨fun _ => ⟨rfl, rfl, rfl⟩, nofun, nofun⟩ fun rx' hne => ?_
    have hnew : some rx ≠ some rx' := fun hs => hne (some.inj hs).symm
    exact (h rx').passed hnew hnew
  | case3 => exact fun rx => (h rx).passed nofun nofun
  | case4 rx =>
    refine h.update ?_
    unfold send
    split
    · exact h rx
    · exact (h rx).sent fun hdone => absurd hdone ‹_›
  | case5 rx => exact h.update ((h rx).sent fun _ => ⟨rfl, rfl⟩)
  | case6 rx hinner =>
    obtain ⟨hcurrent, -, hall⟩ := (h rx).stored hinner
    refine sound_update ⟨nofun, ?_, nofun⟩ fun rx' hne => ⟨nofun, (h rx').reading, fun hi => ?_⟩
    · rintro _ ⟨⟩
      exact ⟨le_rfl, fun _ => hcurrent, hall⟩
    · exact absurd (some.inj (hcurrent.symm.trans hi)).symm hne
  | case7 rx => exact h.update (h rx).reply
  | case9 _ _ _ _ hread => exact h.fails hread
  | case10 rx _ _ hrecv hread =>
    obtain ⟨-, hcurrent, hall⟩ := (h rx).reading _ hread
    rw [StreamSlot.putBack, if_pos rfl]
    refine sound_update ⟨fun _ => ⟨hcurrent rfl, rfl, ?_⟩, nofun, nofun⟩
      fun rx' hne => ⟨fun hs => absurd (some.inj hs).symm hne, (h rx').reading, nofun⟩
    exact recv_chunk hrecv hall
  | case11 _ _ _ _ _ hread => exact h.fails hread
  | case12 rx _ _ r hchunk hrecv hread =>
    rcases r with - | _ | chunk
    · exact h.fails hread
    · obtain ⟨hcomplete, hsame⟩ := recv_end hrecv ((h rx).reading _ hread).2.2
      refine h.ends hread (.inr ⟨?_, hcomplete.2⟩)
      rw [hsame]
      exact (returned_reply _).trans ((append_nil _).trans hcomplete.1)
    · exact (hchunk chunk rfl).elim
  | _ => exact h

end

theorem sound_run (ops : List SlotOp) : Sound (run step { owner := {} } ops) :=
  trace_invariant (P := fun _ w => Sound w) step { owner := {} } (fun _ => ⟨nofun, nofun, nofun⟩)
    (fun _ _ op h => h.step op) ops

end Inbound

/-- A request body ends early only for a read that starts while another read of it is in flight
or after one has failed. -/
theorem body_ends_complete (fromUtf8Lossy : Bytes → String) (ops : List SlotOp) (op : SlotOp)
    (rx : Channel) :
    let w := run Inbound.step { owner := {} } ops
    (Inbound.step w op).1 = some (rx, r) → readChunk fromUtf8Lossy r = .ok none →
    (op = .startRead → (w.bodies rx).reading = none ∧ ¬ (w.bodies rx).Failed) →
    (w.bodies rx).Complete := by
  intro w hread hend hwhen
  have hsound := Inbound.sound_run ops rx
  obtain rfl : r = .ok none := by
    rcases r with e | _ | chunk
    · cases hend
    · rfl
    · cases hend
  revert hread
  fun_cases Inbound.step w op with
  | case7 _ hcurrent hinner =>
    rintro ⟨⟩
    obtain ⟨hidle, hfailed⟩ := hwhen rfl
    exact (hsound.lost hcurrent hinner hidle).resolve_left hfailed
  | case12 _ _ _ _ _ hrecv hread =>
    rintro ⟨⟩
    exact (recv_end hrecv (hsound.reading _ hread).2.2).1
  | _ => nofun

theorem body_ends_after_chunk :
    ((run Inbound.step { owner := {} } [.install 0, .send 0 (.ok [7]), .startRead,
      .endRead 0 none, .finish 0, .startRead]).bodies 0).Complete :=
  body_ends_complete (fun _ => "") _ (.endRead 0 none) 0 rfl rfl nofun

/-- A read reports an end while the chunk is with another read, and after one was interrupted. -/
theorem body_ends_early :
    (let w := run Inbound.step { owner := {} } [.install 0, .send 0 (.ok [7]), .startRead]
     (Inbound.step w .startRead).1 = some (0, .ok none) ∧ ¬ (w.bodies 0).Complete) ∧
    let w := run Inbound.step { owner := {} } [.install 0, .send 0 (.ok [7]), .startRead,
      .endRead 0 (some .timeout)]
    (Inbound.step w .startRead).1 = some (0, .ok none) ∧ ¬ (w.bodies 0).Complete :=
  ⟨⟨rfl, fun h => nomatch h.1⟩, rfl, fun h => nomatch h.1⟩

/-- What a registry holds on one id. -/
structure Holding where
  stored : Prop
  inFlight : Prop
  cancelled : Prop
  generation : ℕ

namespace StreamRegistry

def holding (reg : StreamRegistry) (id : ℕ) : Holding :=
  ⟨reg.streams.get? id ≠ none, id ∈ reg.inFlight, id ∈ reg.cancelled, reg.generation⟩

variable (reg : StreamRegistry) (id : ℕ)

theorem holding_install : { reg with streams := reg.streams.insert id id }.holding =
    update reg.holding id { reg.holding id with stored := True } := by
  funext id'
  by_cases hid : id' = id <;> simp [holding, hid]

theorem holding_clear : (reg.clear id).holding = update reg.holding id { reg.holding id with
      stored := False
      cancelled := (reg.holding id).cancelled ∨
        ¬(reg.holding id).stored ∧ (reg.holding id).inFlight } := by
  funext id'
  fun_cases clear reg id <;> by_cases hid : id' = id <;> simp_all [holding]

theorem holding_beginRead : (reg.beginRead id).holding = update reg.holding id
    { reg.holding id with stored := False, inFlight := True } := by
  funext id'
  by_cases hid : id' = id <;> simp [holding, beginRead, hid]

theorem holding_endRead (gen : ℕ) (chunk : Bool) :
    (reg.endRead id id gen chunk).holding = update reg.holding id
      ⟨(reg.holding id).stored ∨ chunk ∧ reg.generation = gen ∧
        ¬(reg.holding id).cancelled, False, False, reg.generation⟩ := by
  funext id'
  simp only [endRead]
  split <;> by_cases hid : id' = id <;> simp_all [holding]
  grind

/-- What holds of a body at any time: it is not stored while it is read or once it was cleared, and
a read that began before the clearance is of an older generation or cancelled. -/
structure Keeps (holding : Holding) (body : Body) : Prop where
  stored : holding.stored → ¬holding.inFlight ∧ body.installed ∧ ¬body.cleared ∧
    body.returned = body.received
  inFlight : holding.inFlight → body.installed
  reading : ∀ gen, body.reading = some gen → holding.inFlight ∧ gen ≤ holding.generation ∧
    (body.cleared → gen < holding.generation ∨ holding.cancelled) ∧
    body.returned = body.received
  returned : body.returned <+: body.received

def Sound (w : Streams StreamRegistry) : Prop := ∀ id, Keeps (w.owner.holding id) (w.bodies id)

variable {w : Streams StreamRegistry} {reg id}

theorem Sound.update (h : Sound w) {holding : Holding} {f : Body → Body}
    (hholding : reg.holding = update w.owner.holding id holding)
    (hself : Keeps holding (f (w.bodies id))) : Sound (w.update reg id f) := by
  intro id'
  simp only [Streams.update, hholding]
  by_cases hid : id' = id
  · subst hid
    simpa using hself
  · simpa [hid] using h id'

/-- A read returns without giving the receiver back. -/
theorem Sound.drops (h : Sound w) {gen : ℕ} {body : Body} (hread : (w.bodies id).reading = some gen)
    (hreturned : (body.reply r).returned <+: body.received) :
    Sound (w.ends (w.owner.endRead id id gen false) id body r).2 := by
  refine h.update (holding_endRead ..) ⟨?_, nofun, nofun, hreturned⟩
  rintro (hs | ⟨⟨⟩, -⟩)
  exact absurd ((h id).reading _ hread).1 ((h id).stored hs).1

theorem Sound.step (h : Sound w) (op : RegistryOp) : Sound (step w op).2 := by
  fun_cases StreamRegistry.step w op with
  | case2 id hnew =>
    have hidle : ¬(w.owner.holding id).inFlight := fun hin => hnew ((h id).inFlight hin)
    exact h.update (holding_install ..)
      ⟨fun _ => ⟨hidle, rfl, nofun, rfl⟩, fun _ => rfl, nofun, prefix_rfl⟩
  | case3 id =>
    refine h.update (holding_clear ..)
      ⟨nofun, (h id).inFlight, fun g hread => ?_, (h id).returned⟩
    obtain ⟨hin, hle, -, hall⟩ := (h id).reading g hread
    exact ⟨hin, hle, fun _ => .inr (.inr ⟨fun hs => ((h id).stored hs).1 hin, hin⟩), hall⟩
  | case4 =>
    intro id
    refine ⟨fun hs => absurd rfl hs, (h id).inFlight, fun g hread => ?_, (h id).returned⟩
    obtain ⟨hin, hle, -, hall⟩ := (h id).reading g hread
    exact ⟨hin, le_succ_of_le hle, fun _ => .inl (lt_succ_of_le hle), hall⟩
  | case5 id =>
    refine h.update (update_eq_self ..).symm ?_
    unfold send
    split
    · exact h id
    · exact ⟨(h id).stored, (h id).inFlight, (h id).reading, (h id).returned⟩
  | case6 id =>
    exact h.update (update_eq_self ..).symm
      ⟨(h id).stored, (h id).inFlight, (h id).reading, (h id).returned⟩
  | case7 id rx hrx =>
    have hstored : (w.owner.holding id).stored := ne_none_iff_exists'.mpr ⟨rx, hrx⟩
    obtain ⟨-, hinstalled, hopen, hall⟩ := (h id).stored hstored
    refine h.update (holding_beginRead ..) ⟨nofun, fun _ => hinstalled, ?_, (h id).returned⟩
    rintro _ ⟨⟩
    exact ⟨trivial, le_rfl, fun hcleared => absurd hcleared hopen, hall⟩
  | case9 id _ _ _ hread =>
    exact h.drops hread (by simpa [chunks] using (h id).returned)
  | case10 id _ _ _ _ hread =>
    exact h.drops hread (returned_receive ((h id).reading _ hread).2.2.2 rfl)
  | case11 id body _ r hrecv hread hvalid =>
    obtain ⟨hin, -, hcleared, hall⟩ := (h id).reading _ hread
    rcases r with _ | _ | _
    · exact h.drops hread (returned_receive hall rfl)
    · exact h.drops hread (returned_receive hall rfl)
    have hreturned := recv_chunk hrecv hall
    have hopen : ¬body.cleared := fun hc => hvalid ((hcleared hc).imp_left LT.lt.ne')
    exact h.update (holding_endRead ..)
      ⟨fun _ => ⟨nofun, (h id).inFlight hin, hopen, hreturned⟩, nofun, nofun,
        hreturned ▸ prefix_rfl⟩
  | _ => exact h

theorem sound_run (ops : List RegistryOp) : Sound (run step { owner := {} } ops) := by
  refine trace_invariant (P := fun _ w => Sound w) step { owner := {} } (fun _ => ?_)
    (fun _ _ op h => h.step op) ops
  exact ⟨fun hs => absurd rfl hs, nofun, nofun, prefix_rfl⟩

end StreamRegistry

/-- The reads of a response body return what was sent in order and the end only after all of it,
and nothing once it was cleared. It is never stored while it is read or after it was cleared. -/
theorem response_streams_closed (ops : List RegistryOp) (id : ℕ) :
    let w := run step { owner := {} } ops
    (w.bodies id).returned <+: (w.bodies id).sent ∧
    (id ∈ w.owner.inFlight ∨ (w.bodies id).cleared → w.owner.streams.get? id = none) ∧
    ∀ op chunk, (step w op).1 = some (id, .ok chunk) →
      ¬(w.bodies id).cleared ∧ (chunk = none → (w.bodies id).Complete) := by
  intro w
  have hsound := sound_run ops id
  refine ⟨hsound.returned.trans (prefix_append ..), fun hout => ?_, fun op chunk => ?_⟩
  · by_contra hs
    obtain ⟨hidle, -, hopen, -⟩ := hsound.stored hs
    exact hout.elim hidle hopen
  fun_cases step w op with
  | case11 _ _ _ _ hrecv hread hvalid =>
    rintro ⟨⟩
    obtain ⟨-, -, hcleared, hall⟩ := hsound.reading _ hread
    refine ⟨fun hc => hvalid ((hcleared hc).imp_left LT.lt.ne'), ?_⟩
    rintro rfl
    exact (recv_end hrecv hall).1
  | _ => nofun

/-- A chunk is returned for a body that was not cleared. -/
theorem response_stream_of_chunk :
    let w := run step { owner := {} } [.install 1, .send 1 (.ok [7]), .startRead 1]
    (step w (.endRead 1 none)).1 = some (1, .ok (some [7])) ∧ ¬(w.bodies 1).cleared :=
  ⟨rfl, ((response_streams_closed _ 1).2.2 (.endRead 1 none) (some [7]) rfl).1⟩

end Tysel.Isolate
