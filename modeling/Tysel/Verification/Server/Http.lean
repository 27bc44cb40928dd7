import Tysel.Algorithm.Server.Http
import Tysel.Shared.Run
import Mathlib.Algebra.GroupWithZero.Nat

/-! The counter is the number of permits. An admission exceeds a lowered limit only if the request
had compared the counter with a limit before. -/

namespace Tysel.Server

open List Request HttpShutdown Option HttpBody

/-- The client gets no more of the body. -/
def Poll.Ended : Poll (Option (Except String (List UInt8))) → Prop
  | .ready none | .ready (some (.error _)) => True
  | _ => False

namespace HttpBody

variable {body : HttpBody} {a : ℕ}

@[simp] theorem takePermit_permit : (body.takePermit a).1.permit = false := by
  unfold takePermit
  split <;> simp_all

@[simp] theorem takePermit_counter : (body.takePermit a).2 = a - body.permit.toNat := by
  unfold takePermit
  split <;> simp_all

/-- The permit goes with the end of the body, and with nothing else. -/
theorem pollFrame_permit (recv : Poll (Option (List UInt8)))
    (completed : Poll (Except (Option String) Unit)) :
    let polled := body.pollFrame a recv completed
    polled.1.Ended ∧ polled.2.1.permit = false ∧ polled.2.2 = a - body.permit.toNat ∨
      ¬ polled.1.Ended ∧ polled.2.1.permit = body.permit ∧ polled.2.2 = a := by
  unfold pollFrame
  rcases body.kind with (_ | bytes) | remaining
  · exact .inl ⟨trivial, takePermit_permit, takePermit_counter⟩
  · exact .inr ⟨id, rfl, rfl⟩
  · rcases recv with _ | _ | chunk
    · exact .inr ⟨id, rfl, rfl⟩
    · by_cases hchecked : body.completion
      · rcases completed with _ | _ | _ <;> simp [hchecked, Poll.Ended]
      · simp [hchecked, Poll.Ended]
    · by_cases hfits : chunk.length ≤ remaining <;> simp [hfits, Poll.Ended]

end HttpBody

namespace Request

variable {a limit read : ℕ} {req : Request} {action : RequestAction}

def Ends : Request → RequestAction → RequestOutput → Prop
  | .dispatching, .drop, _ | .answered _ false, .drop, _ | .answered _ true, .socketEnded, _ => True
  | .answered _ false, .pollFrame _ _, .frame result => result.Ended
  | _, _, _ => False

/-- A request has one permit at most, the counter follows it, and it goes with its end. -/
theorem act_permits (limit : ℕ) (action : RequestAction) (hone : req.permits ≤ 1)
    (hpos : req.permits = 1 → 0 < a) :
    let next := req.act a limit action
    next.2.2 + req.permits = a + next.2.1.permits ∧ next.2.1.permits ≤ 1 ∧
      (req.permits = 1 → (next.2.1.permits = 1 ↔ ¬ req.Ends action next.1)) := by
  cases req with
  | loaded read =>
    cases action with
    | tryAcquire => by_cases hlimit : limit ≤ read <;> simp [act, permits, hlimit]
    | _ => simp [act, permits]
  | checked read =>
    cases action with
    | tryAcquire spurious =>
      by_cases hexchange : a = read ∧ spurious = false
      · simp [act, permits, hexchange]
      · simp [act, permits, if_neg hexchange]
    | _ => simp [act, permits]
  | dispatching =>
    cases action with
    | drop => simpa [act, permits, Ends] using Nat.sub_add_cancel (hpos rfl)
    | upgrade error => cases error <;> simp [act, permits, Ends, empty, once]
    | _ => simp [act, permits, Ends, holdPermit]
  | answered body socket =>
    cases action with
    | socketEnded =>
      cases socket with
      | false => simpa [act, Ends] using hone
      | true =>
        simp only [act, permits, Bool.toNat_true, Bool.toNat_false, Ends, not_true, iff_false]
          at hone hpos ⊢
        omega
    | pollFrame recv completed =>
      cases body with
      | none => cases socket <;> simp [act, permits, Ends]
      | some body =>
        simp only [act, permits, any_some] at hone hpos ⊢
        rcases body.pollFrame_permit recv completed with
          ⟨hended, hpermit, hcounter⟩ | ⟨hended, hpermit, hcounter⟩ <;> rw [hpermit, hcounter]
        · rw [Bool.toNat_false]
          refine ⟨by omega, by omega, fun _ => ?_⟩
          cases socket <;> simp [Ends, hended]
        · refine ⟨rfl, hone, fun hholds => ?_⟩
          cases socket <;> exact iff_of_true hholds (by simp [Ends, hended])
    | drop =>
      cases body with
      | none => cases socket <;> simp [act, permits, Ends]
      | some body =>
        simp only [act, permits, any_some, any_none, takePermit_counter,
          Bool.toNat_false] at hone hpos ⊢
        refine ⟨by omega, by omega, fun _ => ?_⟩
        cases socket <;> simp [Ends]
    | _ => simpa [act, Ends] using hone
  | _ => cases action <;> simp [act, permits]

theorem act_checked {read : ℕ} (h : (req.act a limit action).2.1 = .checked read) :
    req = .checked read ∨ read < limit := by
  revert h
  fun_cases act a limit req action <;> grind

theorem act_admits (h : (req.act a limit action).1 = .admitted) :
    req = .checked a ∧ (req.act a limit action).2 = (.dispatching, a + 1) := by
  revert h
  fun_cases act a limit req action <;> grind

end Request

namespace Admission

variable {s : Admission} {i : ℕ} {req : Request} {ev : AdmissionEvent}

def Holds (s : Admission) (i : ℕ) : Prop := ∃ req ∈ s.requests[i]?, req.permits = 1

structure Counts (s : Admission) : Prop where
  count : s.active = (s.requests.map permits).sum
  one : ∀ req ∈ s.requests, req.permits ≤ 1

/-- When the limit is lowered, no request is between reading a limit and its exchange. -/
def Settled (s : Admission) (ev : AdmissionEvent) : Prop :=
  ∀ limit, ev = .setLimit limit → limit < s.limit → ∀ read, .checked read ∉ s.requests

/-- What the requests have compared with a limit is below the current one. -/
def Current (s : Admission) : Prop := ∀ read, .checked read ∈ s.requests → read < s.limit

theorem sum_set {l : List ℕ} {n : ℕ} (hi : l[i]? = some n) (m : ℕ) :
    (l.set i m).sum + n = l.sum + m := by
  induction l generalizing i with
  | nil => simp at hi
  | cons head tail ih =>
    cases i with
    | zero =>
      obtain rfl : head = n := by simpa using hi
      simp only [set_cons_zero, sum_cons]
      omega
    | succ i =>
      have htail := ih (i := i) (by simpa using hi)
      simp only [set_cons_succ, sum_cons]
      omega

theorem Counts.pos (h : s.Counts) (hi : s.requests[i]? = some req)
    (hpermit : req.permits = 1) : 0 < s.active := by
  have hget : (s.requests.map permits)[i]? = some 1 := by simp [hi, hpermit]
  have hsum := sum_set hget 0
  rw [h.count]
  omega

theorem Counts.act (h : s.Counts) (hi : s.requests[i]? = some req) (action : RequestAction) :
    let next := req.act s.active s.limit action
    next.2.2 + req.permits = s.active + next.2.1.permits ∧ next.2.1.permits ≤ 1 ∧
      (req.permits = 1 → (next.2.1.permits = 1 ↔ ¬ req.Ends action next.1)) :=
  req.act_permits s.limit action (h.one _ (mem_of_getElem? hi)) (h.pos hi)

theorem Counts.step (h : s.Counts) (ev : AdmissionEvent) : (s.step ev).2.Counts := by
  fun_cases Admission.step s ev with
  | case1 =>
    refine ⟨by simpa [permits] using h.count, fun req hrequest => ?_⟩
    rcases mem_append.mp hrequest with hrequest | hrequest
    · exact h.one req hrequest
    · simp [mem_singleton.mp hrequest, permits]
  | case2 i action req hi next =>
    have hnext := h.act hi action
    refine ⟨?_, fun other hother => ?_⟩
    · have hget : (s.requests.map permits)[i]? = some req.permits := by simp [hi]
      have hsum := sum_set hget next.2.1.permits
      rw [← h.count, ← map_set] at hsum
      simp only [next] at hsum ⊢
      omega
    · rcases mem_or_eq_of_mem_set hother with hother | rfl
      · exact h.one other hother
      · exact hnext.2.1
  | _ => exact ⟨h.count, h.one⟩

/-- A request keeps its permit to its end. -/
theorem Counts.holds (h : s.Counts) (hi : s.requests[i]? = some req)
    (hpermit : req.permits = 1) : (s.step ev).2.Holds i ↔
      ∀ action, ev = .request i action → ¬ req.Ends action (s.step ev).1 := by
  have hlt := (List.getElem?_eq_some_iff.mp hi).1
  have hkeeps (requests : List Request) (hget : requests[i]? = some req) :
      ∃ req ∈ requests[i]?, req.permits = 1 := ⟨req, hget, hpermit⟩
  fun_cases Admission.step s ev with
  | case1 => exact iff_of_true (hkeeps _ ((getElem?_append_left hlt).trans hi)) nofun
  | case2 j action other hj next =>
    by_cases hij : i = j
    · subst hij
      obtain rfl := mem_unique hi hj
      simpa [Holds, hlt] using (h.act hi action).2.2 hpermit
    · refine iff_of_true (hkeeps _ ((getElem?_set_ne (Ne.symm hij)).trans hi)) ?_
      rintro _ ⟨⟩
      exact absurd rfl hij
  | case3 j action hj =>
    refine iff_of_true (hkeeps _ hi) ?_
    rintro _ ⟨⟩
    simp [hi] at hj
  | case4 => exact iff_of_true (hkeeps _ hi) nofun

/-- The request that is admitted gets its permit. -/
theorem step_admits (h : (s.step ev).1 = .admitted) : ∃ i action,
    ev = .request i action ∧ s.requests[i]? = some (.checked s.active) ∧
      (s.step ev).2.Holds i ∧ (s.step ev).2.active = s.active + 1 ∧
      (s.step ev).2.limit = s.limit := by
  revert h
  fun_cases Admission.step s ev with
  | case2 i action req hi next =>
    intro h
    obtain ⟨rfl, hnext⟩ := act_admits h
    have hlt := (List.getElem?_eq_some_iff.mp hi).1
    refine ⟨i, action, rfl, hi, ⟨.dispatching, ?_, rfl⟩, congrArg Prod.snd hnext, rfl⟩
    simp [next, hnext, hlt]
  | _ => nofun

theorem Current.step (h : s.Current) (hevent : s.Settled ev) : (s.step ev).2.Current := by
  intro read hread
  revert hread
  fun_cases Admission.step s ev with
  | case1 => simpa using h read
  | case2 _ _ _ hi =>
    intro hread
    rcases mem_or_eq_of_mem_set hread with hread | hread
    · exact h read hread
    · rcases act_checked hread.symm with rfl | hlt
      · exact h read (mem_of_getElem? hi)
      · exact hlt
  | case3 => exact h read
  | case4 limit =>
    intro hread
    refine Nat.lt_of_not_le fun hle => ?_
    exact hevent limit rfl (Nat.lt_of_le_of_lt hle (h read hread)) read hread

/-- The counter is the number of permits. The request that is admitted gets one, and has it until
the body of its response ends, fails or is dropped or its socket ends. No admission exceeds the
limit if no request was about to be admitted when it was lowered. -/
theorem requests_in_flight (limit : ℕ) (events : List AdmissionEvent) :
    let run := trace step { limit := limit } events
    (∀ e ∈ run, e.after.Counts ∧ (e.output = .admitted → e.after.active = e.before.active + 1 ∧
        ∃ i action, e.input = .request i action ∧ e.after.Holds i) ∧
      ∀ i req, e.before.requests[i]? = some req → req.permits = 1 →
        0 < e.before.active ∧ (e.after.Holds i ↔
          ∀ action, e.input = .request i action → ¬ req.Ends action e.output)) ∧
    ((∀ e ∈ run, e.before.Settled e.input) →
      ∀ e ∈ run, e.output = .admitted → e.after.active ≤ e.after.limit) := by
  refine ⟨fun e he => ?_, fun hsettled e he hadmits => ?_⟩
  · obtain ⟨hcounts, heq⟩ := trace_invariant_of step { limit := limit } (P := Counts)
      (C := fun _ _ => True) (fun s ev _ h => h.step ev) ⟨rfl, nofun⟩ (fun _ _ => trivial)
      e he
    rw [heq]
    refine ⟨hcounts.step _, fun hadmits => ?_, fun i req hi hpermit => ?_⟩
    · obtain ⟨i, action, hinput, -, hholds, hactive, -⟩ := step_admits hadmits
      exact ⟨hactive, i, action, hinput, hholds⟩
    · exact ⟨hcounts.pos hi hpermit, hcounts.holds hi hpermit⟩
  · obtain ⟨hcurrent, heq⟩ := trace_invariant_of step _ (P := Current)
      (fun s ev hevent h => h.step hevent) (by nofun) hsettled e he
    rw [heq] at hadmits ⊢
    obtain ⟨i, _, -, hi, -, hactive, hlimit⟩ := step_admits hadmits
    have hlt := hcurrent _ (mem_of_getElem? hi)
    simp only [entry]
    omega

def acquire (i : ℕ) : List AdmissionEvent := replicate 3 (.request i (.tryAcquire false))

/-- The limit is lowered before the second request reads it, and admits it when the body of the
first has ended. -/
theorem settled_reload_keeps_limit :
    let events := .arrive :: acquire 0 ++ .setLimit 1 :: .request 0 (.respond (.once [0])) ::
      .request 0 (.pollFrame .pending .pending) :: .request 0 (.pollFrame .pending .pending) ::
      .arrive :: acquire 1
    let last := (trace step { limit := 2 } events).getLast (by simp [events])
    last.output = .admitted ∧ last.after.active ≤ last.after.limit :=
  ⟨rfl, (requests_in_flight 2 _).2 (by simp [entry, step, acquire, act, Settled]) _
    (getLast_mem _) rfl⟩

/-- Two requests fit under the limit, the second has found so, and the limit is lowered to one. -/
theorem lowered_limit_exceeded :
    let s := run step { limit := 2 }
      (.arrive :: .arrive :: acquire 0 ++ (acquire 1).take 2 ++ [.setLimit 1])
    s.limit = 1 ∧ s.step (.request 1 (.tryAcquire false)) =
      (.admitted, ⟨2, 1, [.dispatching, .dispatching]⟩) := ⟨rfl, rfl⟩

end Admission

namespace HttpShutdown

open ConnectionGuard

variable {s : HttpShutdown} {i : ℕ} {guard : ConnectionGuard} {ev : ShutdownEvent}

/-- The counter is the number of guards that are alive. A waiter that is parked waits for one of
them or for the notification of one. -/
structure Sound (s : HttpShutdown) : Prop where
  count : s.active = s.guards.countP alive
  phase : s.phase ≤ if s.forced then 2 else 1
  cancelled : s.drain = .accepting ∨ 1 ≤ s.phase
  parked : s.drain = .parked → s.notified ∨ 0 < s.active ∨ .notifying ∈ s.guards
  returned : s.drain = .returned → s.active = 0

theorem Sound.pos (h : s.Sound) (hget : s.guards[i]? = some guard)
    (halive : guard.alive = true) : 0 < s.active := by
  rw [h.count]
  exact countP_pos_iff.mpr ⟨guard, mem_of_getElem? hget, halive⟩

theorem Sound.track (h : s.Sound) (halive : guard.alive = true) (hdrain : s.drain ≠ .returned) :
    (s.track guard).Sound := by
  refine ⟨?_, h.phase, h.cancelled, fun _ => .inr (.inl (Nat.succ_pos _)), fun hr => ?_⟩
  · simp [HttpShutdown.track, h.count, halive]
  · exact absurd hr hdrain

/-- A guard that is not alive takes the place of another. -/
theorem countP_set_dead (hget : s.guards[i]? = some guard) {dead : ConnectionGuard}
    (hdead : dead.alive = false) :
    (s.guards.set i dead).countP alive = s.guards.countP alive - guard.alive.toNat := by
  obtain ⟨hlt, rfl⟩ := List.getElem?_eq_some_iff.mp hget
  cases halive : s.guards[i].alive <;> simp [countP_set hlt, hdead, halive]

theorem Sound.drop (h : s.Sound) (hget : s.guards[i]? = some guard) (halive : guard.alive = true) :
    (s.next (.drop i)).Sound := by
  have hpos := h.pos hget halive
  have hlt := (List.getElem?_eq_some_iff.mp hget).1
  unfold HttpShutdown.next
  simp only [hget, map_some, halive, if_true]
  refine ⟨?_, h.phase, h.cancelled, fun _ => .inr ?_, fun hr => ?_⟩
  · rw [countP_set_dead hget (by split <;> rfl), h.count, halive, Bool.toNat_true]
  · by_cases hlast : s.active = 1
    · exact .inr (by simp [hlast, mem_set hlt])
    · exact .inl (Nat.sub_pos_of_lt (by omega))
  · simp [h.returned hr]

theorem Sound.notifyWaiters (h : s.Sound) (hget : s.guards[i]? = some .notifying) :
    (s.next (.notifyWaiters i)).Sound := by
  unfold HttpShutdown.next
  simp only [hget, if_true]
  refine ⟨?_, h.phase, h.cancelled, fun _ => .inl rfl, h.returned⟩
  rw [countP_set_dead hget rfl, h.count]
  rfl

theorem Sound.cancel (h : s.Sound) : s.cancel.Sound where
  count := h.count
  phase := by
    have hphase := h.phase
    grind [cancel]
  cancelled := by grind [cancel]
  parked := h.parked
  returned := h.returned

/-- `drain` parks only if it has found the counter above zero, and returns only at zero. -/
theorem Sound.drain (h : s.Sound) : (s.next .drain).Sound := by
  unfold HttpShutdown.next
  cases hdrain : s.drain with
  | accepting =>
    have hcancel := h.cancel
    refine ⟨hcancel.count, hcancel.phase, .inr ?_, nofun, nofun⟩
    grind [HttpShutdown.cancel]
  | looping =>
    have hphase := h.cancelled.resolve_left (by simp [hdrain])
    exact ⟨h.count, h.phase, .inr hphase, nofun, nofun⟩
  | enabled =>
    have hphase := h.cancelled.resolve_left (by simp [hdrain])
    by_cases hzero : s.active = 0
    · exact ⟨h.count, h.phase, .inr hphase, by simp [hzero], fun _ => hzero⟩
    · exact ⟨h.count, h.phase, .inr hphase, fun _ => .inr (.inl (Nat.pos_of_ne_zero hzero)),
        by simp [hzero]⟩
  | parked =>
    have hphase := h.cancelled.resolve_left (by simp [hdrain])
    dsimp only
    split
    · exact ⟨h.count, h.phase, .inr hphase, nofun, nofun⟩
    · exact h
  | returned => exact h

theorem Sound.timeout (h : s.Sound) : (s.next .timeout).Sound := by
  unfold HttpShutdown.next
  cases hdrain : s.drain with
  | parked =>
    dsimp only
    split
    · exact h
    · exact ⟨h.count, Nat.le_refl 2, .inr (Nat.le_succ 1), nofun, nofun⟩
  | _ => exact h

theorem Sound.next (h : s.Sound) (ev : ShutdownEvent) : (s.next ev).Sound := by
  unfold HttpShutdown.next
  cases ev with
  | accept =>
    cases hdrain : s.drain with
    | accepting => exact h.track rfl (by simp [hdrain])
    | _ => exact h
  | upgrade i =>
    dsimp only
    split
    · exact h.track rfl fun hr => Nat.ne_of_gt (h.pos ‹_› rfl) (h.returned hr)
    · exact h
  | drop i =>
    by_cases hget : s.guards[i]?.map (·.alive) = some true
    · obtain ⟨_, hget, halive⟩ := map_eq_some_iff.mp hget
      exact h.drop hget halive
    · simpa only [if_neg hget] using h
  | notifyWaiters i =>
    by_cases hget : s.guards[i]? = some .notifying
    · exact h.notifyWaiters hget
    · simpa only [if_neg hget] using h
  | cancel => exact h.cancel
  | drain => exact h.drain
  | timeout => exact h.timeout

theorem Sound.phase_next (h : s.Sound) (ev : ShutdownEvent) : (s.next ev).phase = s.phase ∨
      (s.next ev).phase = s.phase + 1 ∧ (s.next ev).phase ≤ 2 := by
  fun_cases HttpShutdown.next s ev <;> grind [Sound, HttpShutdown.track, HttpShutdown.cancel]

def tracked (s : HttpShutdown) : ShutdownEvent → Option ConnectionGuard
  | .accept => if s.drain matches .accepting then some .connection else none
  | .upgrade i => if s.guards[i]? = some .connection then some (.socket i) else none
  | _ => none

theorem next_tracked (h : s.tracked ev = some guard) : s.next ev = s.track guard := by
  cases ev with
  | accept => cases hdrain : s.drain <;> simp_all [tracked, next]
  | upgrade i => simp_all [tracked, next]
  | _ => simp [tracked] at h

/-- A guard is tracked to its own drop, and what is alive was tracked. -/
theorem next_alive (halive : guard.alive = true) : (s.next ev).guards[i]? = some guard ↔
    s.guards[i]? = some guard ∧ ev ≠ .drop i ∨ s.tracked ev = some guard ∧ i = s.guards.length := by
  have hset {j : ℕ} {dead : ConnectionGuard} (hdead : dead.alive = false) :
      (s.guards.set j dead)[i]? = some guard ↔ s.guards[i]? = some guard ∧ i ≠ j := by
    grind
  cases htracked : s.tracked ev with
  | some new =>
    have hdrop : ev ≠ .drop i := by
      rintro rfl
      cases htracked
    rw [next_tracked htracked, track]
    grind
  | none =>
    have hguards (hevent : ∀ j, ev ≠ .drop j ∧ ev ≠ .notifyWaiters j) :
        (s.next ev).guards = s.guards := by
      fun_cases next s ev <;> first | rfl | simp_all [tracked]
    simp only [reduceCtorEq, false_and, or_false]
    cases ev with
    | drop j =>
      by_cases hget : s.guards[j]?.map (·.alive) = some true
      · simp only [next, if_pos hget]
        rw [hset (by split <;> rfl)]
        grind
      · simp only [next, if_neg hget]
        grind
    | notifyWaiters j =>
      by_cases hget : s.guards[j]? = some .notifying
      · simp only [next, if_pos hget]
        rw [hset rfl]
        grind [alive]
      · simp only [next, if_neg hget]
        grind
    | _ => simp [hguards (by simp)]

/-- When `drain` returns nothing is tracked, and it is not parked at zero unless a notification
is due. -/
theorem drain_waits (events : List ShutdownEvent) : ∀ e ∈ trace step {} events,
    e.after.active = e.after.guards.countP alive ∧
    (e.after.drain = .returned → ∀ guard ∈ e.after.guards, guard.alive = false) ∧
    (∀ i guard, guard.alive = true → (e.after.guards[i]? = some guard ↔
      e.before.guards[i]? = some guard ∧ e.input ≠ .drop i ∨
        e.before.tracked e.input = some guard ∧ i = e.before.guards.length)) ∧
    (e.after.phase = e.before.phase ∨ e.after.phase = e.before.phase + 1 ∧ e.after.phase ≤ 2) ∧
    (e.after.drain = .parked → e.after.active = 0 →
      e.after.notified ∨ .notifying ∈ e.after.guards) := by
  intro e he
  obtain ⟨hsound, heq⟩ := trace_invariant_of step {} (P := Sound) (C := fun _ _ => True)
    (fun s ev _ h => h.next ev) ⟨rfl, by simp, .inl rfl, nofun, nofun⟩ (by simp) e he
  have hafter : e.after = e.before.next e.input := congrArg Entry.after heq
  have hnext := hsound.next e.input
  rw [hafter]
  refine ⟨hnext.count, fun hr => ?_, fun i guard => next_alive, hsound.phase_next _,
    fun hp hzero => ?_⟩
  · simpa using countP_eq_zero.mp (hnext.count.symm.trans (hnext.returned hr))
  · simpa [hzero] using hnext.parked hp

theorem drained_after_socket :
    let e := (trace step {} [.accept, .upgrade 0, .drop 0, .drain, .drain, .drop 1, .drain]).getLast
      nofun
    e.after.drain = .returned ∧ ∀ guard ∈ e.after.guards, guard.alive = false :=
  ⟨rfl, (drain_waits _ _ (getLast_mem _)).2.1 rfl⟩

end HttpShutdown

end Tysel.Server
