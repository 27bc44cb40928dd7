import Tysel.Verification.Isolate.Slots

/-! Every step of a task keeps what holds of the slots. The only thing a task needs to know of the
worker is that its flag is set before the first slot is cleared. -/

namespace Tysel.Isolate

open Option Function IoHandle Point BodiesOk

variable {io : IoHandle} {number : ℕ} {past : TeardownStep → Prop}
  {pts : OpId → Option Point} {id : OpId} {point next : Point} {flag : Bool}

structure Slots (io : IoHandle) (number : ℕ) (past : TeardownStep → Prop)
    (pts : OpId → Option Point) : Prop where
  inbound : SourceOk io.inbound .inbound number (past .inbound) pts
  wsIn : SourceOk io.wsIn .wsIn number (past .wsIn) pts
  wsOut : ∀ tx, io.wsOut = some tx → tx = number ∧ ¬past .wsOut
  bodies : BodiesOk io.outbound number (past .outbound) pts
  client : ClientOk io.clientWs number (past .clientGeneration) (past .clientState) pts

namespace Point

def holds : Point → Bool
  | .holding .. => true
  | _ => false

def reads : Point → Bool
  | .reading .. => true
  | _ => false

theorem not_holding (h : point.holds = false) (source : Source) (rx : Channel)
    (g : ℕ) : some point ≠ some (.holding source rx g) := by
  rintro ⟨⟩
  cases h

theorem not_reading (h : point.reads = false) (bid : ℕ) (rx : Channel) (g : ℕ) :
    some point ≠ some (.reading bid rx g) := by
  rintro ⟨⟩
  cases h

/-- The points at which a task neither holds a channel nor attempts to open one. -/
def quiet (point : Point) : Bool := !point.holds && !point.reads && point.attempt.isNone

end Point

namespace Slots

section

variable (h : Slots io number past pts)

include h

theorem client_of_attempt (hattempt : point.attempt = none) :
    ClientOk io.clientWs number (past .clientGeneration) (past .clientState)
      (update pts id (some point)) := by
  refine h.client.move ?_
  rintro _ _ _ ⟨⟩ heq
  rw [hattempt] at heq
  cases heq

section

variable (hpt : pts id = none ∨ pts id = some point)
  (hremoves : ∀ bid, ¬Removes bid point)

include hpt hremoves

theorem bodies_of_not_removes (hreads : next.reads = false) :
    BodiesOk io.outbound number (past .outbound) (update pts id (some next)) :=
  h.bodies.move (fun _ _ hr => removed_of_update hpt hremoves hr) (not_reading hreads)

theorem quiet (hquiet : next.quiet = true) : Slots io number past (update pts id (some next)) := by
  obtain ⟨⟨hholds, hreads⟩, hattempt⟩ := by simpa [Point.quiet] using hquiet
  exact ⟨h.inbound.move (not_holding hholds _), h.wsIn.move (not_holding hholds _),
    h.wsOut, h.bodies_of_not_removes hpt hremoves hreads, h.client_of_attempt hattempt⟩

end

theorem beginRead (hpt : pts id = some .started) (source : Source) :
    Slots (io.beginRead source).1 number past
      (update pts id (some (io.beginRead source).2)) := by
  have hstarted : ∀ bid, ¬Removes bid .started := by simp [Removes]
  unfold IoHandle.beginRead
  cases hinner : (io.source source).inner with
  | none => exact h.quiet (.inr hpt) hstarted rfl
  | some =>
    cases source with
    | inbound =>
      exact ⟨h.inbound.take hinner, h.wsIn.move (by simp), h.wsOut,
        h.bodies_of_not_removes (.inr hpt) hstarted rfl, h.client_of_attempt rfl⟩
    | wsIn =>
      exact ⟨h.inbound.move (by simp), h.wsIn.take hinner, h.wsOut,
        h.bodies_of_not_removes (.inr hpt) hstarted rfl, h.client_of_attempt rfl⟩

theorem putBack {source : Source} {rx : Channel}
    {g : ℕ} (hpt : pts id = some (.holding source rx g)) :
    Slots (io.setSource ((io.source source).putBack rx g) source) number past
      (update pts id (some .finished)) := by
  have hfinished : Slots io number past (update pts id (some .finished)) :=
    h.quiet (.inr hpt) (by simp [Removes]) rfl
  cases source with
  | inbound =>
    exact ⟨h.inbound.putBack hpt, hfinished.wsIn, h.wsOut, hfinished.bodies, hfinished.client⟩
  | wsIn =>
    exact ⟨hfinished.inbound, h.wsIn.putBack hpt, h.wsOut, hfinished.bodies, hfinished.client⟩

theorem body {registry : StreamRegistry}
    (hbodies : BodiesOk registry number (past .outbound) (update pts id (some next)))
    (hholds : next.holds = false) (hattempt : next.attempt = none) :
    Slots { io with outbound := registry } number past
      (update pts id (some next)) :=
  ⟨h.inbound.move (not_holding hholds _), h.wsIn.move (not_holding hholds _), h.wsOut,
    hbodies, h.client_of_attempt hattempt⟩

theorem socket {slot : ClientWebSocketSlot} (hpt : pts id = some point)
    (hremoves : ∀ bid, ¬Removes bid point)
    (hclient : ClientOk slot number (past .clientGeneration) (past .clientState)
      (update pts id (some next))) (hholds : next.holds = false) (hreads : next.reads = false) :
    Slots { io with clientWs := slot } number past (update pts id (some next)) :=
  ⟨h.inbound.move (not_holding hholds _), h.wsIn.move (not_holding hholds _), h.wsOut,
    h.bodies_of_not_removes (.inr hpt) hremoves hreads, hclient⟩

theorem start (hpt : pts id = some .started) (request : IoRequest) :
    Slots (io.start flag request).1 number past
      (update pts id (some (io.start flag request).2)) := by
  have hstarted : ∀ bid, ¬Removes bid .started := by simp [Removes]
  have hfinished : Slots io number past (update pts id (some .finished)) :=
    h.quiet (.inr hpt) hstarted rfl
  cases request with
  | readBody => exact h.beginRead hpt .inbound
  | wsRead => exact h.beginRead hpt .wsIn
  | httpGet =>
    cases flag with
    | true => exact hfinished
    | false => exact h.quiet (.inr hpt) hstarted rfl
  | httpRead bid =>
    simp only [IoHandle.start]
    cases hbody : io.outbound.streams.get? bid with
    | none => exact hfinished
    | some => exact h.body (h.bodies.beginRead hpt hbody) rfl rfl
  | wsClose =>
    exact ⟨hfinished.inbound, hfinished.wsIn, by simp [IoHandle.start], hfinished.bodies,
      hfinished.client⟩
  | wsConnect =>
    have hclient : ClientOk io.clientWs number (past .clientGeneration) (past .clientState)
        (update pts id (some (.opening io.clientWs.generation))) := by
      refine h.client.move ?_
      rintro _ - - ⟨⟩ ⟨⟩
      exact ⟨Nat.le_refl _, by simp⟩
    exact h.socket hpt hstarted hclient rfl rfl
  | other => exact hfinished

/-- A step of a task keeps the slots, if its flag is set once a slot was cleared. -/
theorem advance (hpt : pts id = some point)
    (houtbound : past .outbound → flag = true) (hadvanced : past .clientGeneration → flag = true)
    (hclosed : past .clientState → past .clientGeneration) (go : Bool) (request : IoRequest) :
    Slots (io.advance number flag go request point).1 number past
      (update pts id (some (io.advance number flag go request point).2)) := by
  cases point with
  | started =>
    cases go with
    | true => exact h.start hpt request
    | false => exact h.quiet (.inr hpt) (by simp [Removes]) rfl
  | holding =>
    cases go with
    | true => exact h.putBack hpt
    | false => exact h.quiet (.inr hpt) (by simp [Removes]) rfl
  | reading => exact h.body (h.bodies.endRead hpt go) rfl rfl
  | installing => exact h.body (h.bodies.install hpt) rfl rfl
  | installed =>
    cases flag with
    | true =>
      refine h.body (h.bodies.move (fun _ b hr => ?_) (not_reading rfl)) rfl rfl
      refine removed_update hpt (fun b hb => ⟨_, rfl, ?_⟩) hr
      rcases hb with hb | hb
      · exact .inr (congrArg clearing (installed.inj hb))
      · cases hb
    | false =>
      refine h.body (h.bodies.move (fun hc => ?_) (not_reading rfl)) rfl rfl
      exact absurd (houtbound hc) Bool.false_ne_true
  | clearing => exact h.body (h.bodies.remove hpt) rfl rfl
  | opening g =>
    have hremoves : ∀ bid, ¬Removes bid (.opening g) := by simp [Removes]
    simp only [advance]
    split
    · exact h.quiet (.inr hpt) hremoves rfl
    · exact h.socket hpt hremoves ((h.client.mark true).proceed hpt rfl rfl (by simp)) rfl rfl
  | connecting g =>
    have hremoves : ∀ bid, ¬Removes bid (.connecting g) := by simp [Removes]
    simp only [advance]
    cases hrefused : flag || !go with
    | true =>
      exact h.socket hpt hremoves (h.client.proceed hpt rfl rfl (by simp)) rfl rfl
    | false =>
      refine h.socket hpt hremoves (h.client.proceed hpt rfl rfl fun hc => ?_) rfl rfl
      rw [hadvanced hc] at hrefused
      cases hrefused
  | awaiting g =>
    have hremoves : ∀ bid, ¬Removes bid (.awaiting g) := by simp [Removes]
    cases go with
    | true | false =>
      exact h.socket hpt hremoves (h.client.proceed hpt rfl rfl (by simp)) rfl rfl
  | refused g =>
    exact h.socket hpt (by simp [Removes]) (h.client.refuse g).finish rfl rfl
  | connected =>
    exact h.socket hpt (by simp [Removes]) (h.client.connect hclosed hpt).finish rfl rfl
  | finished => exact h.quiet (.inr hpt) (by simp [Removes]) rfl

theorem complete (hpt : pts id = some .finished) : Slots io number past (update pts id none) := by
  refine ⟨h.inbound.move (by simp), h.wsIn.move (by simp), h.wsOut,
    h.bodies.move (fun _ _ hr => ?_) (by simp), h.client.move (by simp)⟩
  exact removed_of_update (.inr hpt) (by simp [Removes]) hr

end

/-- After a whole teardown and without tasks there is no channel in any slot. -/
theorem empty (h : Slots io number (fun _ => True) pts) (hnone : ∀ id, pts id = none) :
    io.inbound.inner = none ∧ io.wsIn.inner = none ∧ io.wsOut = none ∧
      (∀ bid, io.outbound.streams.get? bid = none) ∧ io.clientWs.commands = none := by
  refine ⟨?_, ?_, ?_, fun bid => ?_, ?_⟩
  · exact eq_none_iff_forall_ne_some.mpr fun rx hrx => (h.inbound.inner rx hrx).2 trivial
  · exact eq_none_iff_forall_ne_some.mpr fun rx hrx => (h.wsIn.inner rx hrx).2 trivial
  · exact eq_none_iff_forall_ne_some.mpr fun tx htx => (h.wsOut tx htx).2 trivial
  · refine eq_none_iff_forall_ne_some.mpr fun rx hrx => ?_
    obtain ⟨_, _, hid, -⟩ := (h.bodies.streams bid rx hrx).2.2 trivial
    simp [hnone] at hid
  · exact eq_none_iff_forall_ne_some.mpr fun tx htx => (h.client.commands tx htx).2 trivial

end Slots

end Tysel.Isolate
