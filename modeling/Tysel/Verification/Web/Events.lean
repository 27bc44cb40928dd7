import Tysel.Algorithm.Web.Events

/-! # Listeners that fire, and the way of the client WebSocket -/

namespace Tysel.Web

namespace EventTarget

open List WebSocket EventTarget

variable {L : Type} [DecidableEq L] {t : EventTarget L} {input : TargetInput L}

/-- No entry leaves the table while a running dispatch has still to call it. -/
def Settled (t : EventTarget L) : TargetInput L → Prop
  | .remove type listener capture =>
    ∀ frame ∈ t.running, ∀ entry ∈ frame, has type listener capture entry = false
  | .call =>
    match t.running with
    | (entry :: rest) :: running => entry.once = true → ∀ frame ∈ rest :: running,
        ∀ other ∈ frame, has entry.type entry.listener entry.capture other = false
    | _ => True
  | _ => True

structure Sound (t : EventTarget L) : Prop where
  listed : ∀ frame ∈ t.running, ∀ entry ∈ frame, entry ∈ t.entries
  numbered : ∀ entry, entry ∈ t.entries ∨ entry ∈ t.called → entry.number < t.added
  spent : ∀ entry ∈ t.called, entry.once = true → entry ∉ t.entries
  once : (t.called.filter (·.once)).Nodup

theorem Sound.add (h : t.Sound) (type : String) (listener : L) (capture once : Bool) :
    (t.step (.add type listener capture once)).2.Sound := by
  obtain ⟨hlisted, hnumbered, hspent, honce⟩ := h
  rw [step]
  split
  · exact ⟨hlisted, hnumbered, hspent, honce⟩
  · refine ⟨fun frame hframe entry hentry => ?_, ?_, ?_, honce⟩
    · exact mem_append_left _ (hlisted frame hframe entry hentry)
    · grind
    -- the new entry has a number that no called one has
    · grind

theorem Sound.remove (h : t.Sound) {type : String} {listener : L} {capture : Bool}
    (hsettled : t.Settled (.remove type listener capture)) :
    (t.removeEventListener type listener capture).Sound := by
  obtain ⟨hlisted, hnumbered, hspent, honce⟩ := h
  refine ⟨fun frame hframe entry hentry => mem_filter.mpr ⟨hlisted frame hframe entry hentry, ?_⟩,
    ?_, ?_, honce⟩
  · rw [hsettled frame hframe entry hentry]
    rfl
  · grind [removeEventListener]
  · grind [removeEventListener]

/-- A once listener has left the table when it is called. -/
theorem Sound.call (h : t.Sound) (hsettled : t.Settled .call) : (t.step .call).2.Sound := by
  rcases hrunning : t.running with _ | ⟨_ | ⟨entry, rest⟩, running⟩
  · simpa only [step, hrunning] using h
  · simpa only [step, hrunning] using h
  obtain ⟨hlisted, hnumbered, hspent, honce⟩ := h
  simp only [Settled, step, hrunning, forall_mem_cons] at hsettled hlisted ⊢
  cases ho : entry.once with
  | false =>
    refine ⟨forall_mem_cons.mpr ⟨hlisted.1.2, hlisted.2⟩, ?_, ?_, ?_⟩
    · grind
    · grind
    · simpa [filter_append, ho] using honce
  | true =>
    refine ⟨?_, ?_, ?_, ?_⟩
    · grind [removeEventListener]
    · grind [removeEventListener]
    · grind [removeEventListener, has]
    · grind [removeEventListener, nodup_append]

theorem Sound.step (h : t.Sound) (hsettled : t.Settled input) : (t.step input).2.Sound := by
  cases input with
  | add => exact h.add ..
  | remove => exact h.remove hsettled
  | call => exact h.call hsettled
  | dispatch type =>
    refine ⟨forall_mem_cons.mpr ⟨fun entry hentry => ?_, h.listed⟩, h.numbered, h.spent, h.once⟩
    exact (mem_filter.mp hentry).1
  | done =>
    rcases hrunning : t.running with _ | ⟨_, running⟩
    · simpa only [step, hrunning] using h
    simp only [step, hrunning]
    exact ⟨(forall_mem_cons.mp (hrunning ▸ h.listed)).2, h.numbered, h.spent, h.once⟩

/-- The entry that is called is the first of the innermost dispatch. -/
theorem Sound.called (h : t.Sound) {entry : EventEntry L} (hcall : (t.step input).1 = some entry) :
    entry ∈ t.entries := by
  unfold EventTarget.step at hcall
  split at hcall
  · split at hcall <;> cases hcall
  · cases hcall
  · cases hcall
  next hrunning =>
    obtain rfl := Option.some.inj hcall
    exact (forall_mem_cons.mp (forall_mem_cons.mp (hrunning ▸ h.listed)).1).1
  · cases hcall
  · cases hcall

/-- While no entry leaves the table that a running dispatch has still to call, every listener that
is called is in the table, and a once listener is called at most once. -/
theorem listeners_fire_while_added (inputs : List (TargetInput L))
    (hsettled : ∀ e ∈ trace step {} inputs, e.before.Settled e.input) :
    ((run step {} inputs).called.filter (·.once)).Nodup ∧
    ∀ e ∈ trace step {} inputs, ∀ entry, e.output = some entry → entry ∈ e.before.entries := by
  have hstart : Sound ({} : EventTarget L) := ⟨by simp, by simp, by simp, by simp⟩
  have hstep (t : EventTarget L) input (hsettled : t.Settled input) (h : t.Sound) := h.step hsettled
  refine ⟨(run_invariant_of step _ hstep hstart hsettled).once, fun e he entry hcall => ?_⟩
  obtain ⟨hsound, heq⟩ := trace_invariant_of step _ hstep hstart hsettled e he
  rw [heq] at hcall
  exact hsound.called hcall

/-- A once listener is called in a dispatch that another listener makes, and that one is removed
before the next dispatch. -/
theorem once_listener_fires :
    ((run step ({} : EventTarget ℕ) [.add "a" 0 false true, .add "b" 1 false false,
      .dispatch "b", .call, .dispatch "a", .call, .done, .done, .remove "b" 1 false,
      .dispatch "b", .done]).called.filter (·.once)).Nodup :=
  (listeners_fire_while_added _ (by simp [entry, step, Settled, removeEventListener, has])).1

/-- The first listener removes the second, which is called nevertheless. -/
theorem removed_listener_called :
    let t := run step ({} : EventTarget ℕ) [.add "a" 0 false false, .add "a" 1 false false,
      .dispatch "a", .call, .remove "a" 1 false]
    t.entries.map (·.listener) = [0] ∧ (t.step .call).1.map (·.listener) = some 1 := by
  decide

end EventTarget

namespace WebSocket

variable {s : WebSocket} {input : SocketInput}

def Sound (s : WebSocket) : Prop :=
  match s.phase with
  | .connect => (s.readyState = .connecting ∨ s.readyState = .closing) ∧ s.dispatched = []
  | .loop | .read => (s.readyState = .open ∨ s.readyState = .closing) ∧
      s.dispatched.count .open = 1 ∧ s.dispatched.count .close = 0
  | .done => s.readyState = .closed ∧ s.dispatched.count .open ≤ 1 ∧ s.dispatched.count .close = 1

/-- `close` was called before the connection opened, or the close event was dispatched. -/
def Shut (s : WebSocket) : Prop :=
  s.phase = .connect ∧ s.readyState = .closing ∨ .close ∈ s.dispatched

/-- The connection does not open after `close` was called. -/
def Opens (s : WebSocket) (input : SocketInput) : Prop :=
  input = .connected → s.phase = .connect → s.readyState = .connecting

theorem Sound.step (h : s.Sound) (input : SocketInput) : (s.step input).2.Sound := by
  obtain ⟨state, phase, dispatched⟩ := s
  unfold Sound at h ⊢
  cases input with
  | connected =>
    cases phase with
    | connect => simp_all [step]
    | _ => exact h
  | refused =>
    cases phase with
    | connect => simp_all [step, ended]
    | _ => exact h
  | turn =>
    cases phase with
    | loop => cases state <;> simp_all [step, ended]
    | _ => exact h
  | message | closeFrame | readError =>
    cases phase with
    | read => simp_all [step, ended]
    | _ => exact h
  | close => cases phase <;> cases state <;> simp_all [step]
  | send => exact h

theorem Opens.one_way (hopens : s.Opens input) :
    s.readyState.code ≤ (s.step input).2.readyState.code := by
  obtain ⟨state, phase, dispatched⟩ := s
  cases input with
  | connected =>
    cases phase with
    | connect =>
      obtain rfl : state = .connecting := hopens rfl rfl
      exact Nat.zero_le _
    | _ => exact Nat.le_refl _
  | close => cases state <;> simp [step, ReadyState.code]
  | send => exact Nat.le_refl _
  | _ => cases phase <;> cases state <;> simp [step, ended, ReadyState.code]

/-- Nothing but the connection attempt and the read loop dispatch an event. -/
theorem Sound.shut (h : s.Sound) (hopens : s.Opens input) (hshut : s.Shut) :
    (s.step input).2.Shut ∧ (s.step input).2.dispatched.count .open = s.dispatched.count .open ∧
      (s.step input).2.dispatched.count .message = s.dispatched.count .message := by
  obtain ⟨state, phase, dispatched⟩ := s
  unfold Sound Shut at *
  cases phase with
  | connect => cases input <;> cases state <;> simp_all [WebSocket.step, Opens, ended]
  | loop | read =>
    have hclose := List.count_eq_zero.mp h.2.2
    simp_all
  | done => cases input <;> simp_all [WebSocket.step]

/-- While the connection does not open after `close`, the ready state never goes back, `open` is
dispatched at most once and `close` exactly once, and nothing opens or arrives after it. -/
theorem socket_one_way (inputs : List SocketInput)
    (hopens : ∀ e ∈ trace step {} inputs, e.before.Opens e.input) :
    let s := run step {} inputs
    s.dispatched.count .open ≤ 1 ∧
    s.dispatched.count .close = (if s.phase = .done then 1 else 0) ∧
    ∀ e ∈ trace step {} inputs, e.before.readyState.code ≤ e.after.readyState.code ∧
      (e.before.Shut → e.after.Shut ∧
        e.after.dispatched.count .open = e.before.dispatched.count .open ∧
        e.after.dispatched.count .message = e.before.dispatched.count .message) ∧
      (e.input = .send → (e.output = true ↔ e.before.readyState ≠ .open)) := by
  have hstart : Sound {} := ⟨.inl rfl, rfl⟩
  have hend := run_invariant step _ hstart (fun s input h => h.step input) inputs
  refine ⟨?_, ?_, fun e he => ?_⟩
  · grind [Sound]
  · grind [Sound]
  · obtain ⟨hsound, heq⟩ := trace_invariant_of step _
      (fun s input _ h => h.step input) hstart hopens e he
    have hopens := hopens e he
    rw [heq]
    refine ⟨hopens.one_way, hsound.shut hopens, fun (hsend : e.input = _) => ?_⟩
    simp [entry, step, hsend]

theorem refused_socket_closes : (run step {} [.close, .refused]).dispatched.count .close = 1 :=
  (socket_one_way [.close, .refused] (by simp [entry, step, Opens])).2.1

/-- `close` is called while the socket connects, and then it opens. -/
theorem closed_socket_opens :
    let s := run step {} [.close]
    s.readyState = .closing ∧ s.step .connected = (false, ⟨.open, .loop, [.open]⟩) := ⟨rfl, rfl⟩

end WebSocket

end Tysel.Web
