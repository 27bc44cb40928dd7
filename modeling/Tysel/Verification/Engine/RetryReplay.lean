import Tysel.Verification.Engine.CrashReplay

/-! Replay skips the events of a finished attempt and leaves the counter of the retry scopes alone.
The counter is that of the live run as long as no finished attempt has called `retry` itself;
then a resumed handler asks for exactly the recorded keys. -/

namespace Tysel.Engine

open Tysel.Durable Machine Runs

variable {V P J : Type} {S : Crates J} {js : Js V} {p : Program V P} {t : TaskId}
  {H : List EventRow} {x : Runner V P J}

def Phase.Asks : Phase V P → Prop
  | .asking .. | .starting _ => True
  | _ => False

/-- A runner over the stored history `H` of its task. -/
structure RetryAligned (js : Js V) (p : Program V P) (H : List EventRow)
    (x : Runner V P J) : Prop where
  /-- No lookup has met an event that the handler did not ask for. -/
  noMismatch : ∀ r, x.machine.phase ≠ .ended (.replay r)
  /-- At a lookup the handler and its counter are those of the uninterrupted run, whether the
  events before it were recorded live, replayed or skipped. -/
  sameMachine : ∀ m, uninterrupted js p (H.take x.session.passed) = some m →
    x.machine.phase.Asks → x.machine = m.awake js p
  /-- The start of an attempt is looked up under the recorded key. -/
  startKey : ∀ frame row, x.machine.phase = .starting frame → ¬ x.session.Exhausted →
    H[x.session.passed]? = some row → row.kind = .retry ∧ row.eventKey = frame.startKey js
  /-- An attempt that runs again has no recorded outcome. -/
  outcomeKey : ∀ frame result, x.machine.phase = .recording frame result → x.session.Exhausted
  /-- The counter after the start of an attempt is right behind its scope. -/
  counter : ∀ frame, x.machine.phase = .starting frame ∨ x.machine.phase = .finding frame →
    x.machine.retryIndex = frame.id + 1

theorem Runner.Aligned.retryAligned (hx : x.Aligned js p t H)
    (hwhole : ∃ m, uninterrupted js p H = some m) : RetryAligned js p H x := by
  obtain ⟨m, hm, hstep⟩ := hx.inStep
  have hready : (m.awake js p).Ready := (uninterrupted_resting hm).awake
  refine ⟨hx.not_replay, ?_, ?_, ?_, ?_⟩
  · intro m' hm' hasks
    obtain rfl : m = m' := Option.mem_unique hm hm'
    cases hphase : x.machine.phase with
    | asking => exact (hstep.at_phase hphase).1.symm
    | starting => exact (hstep.at_phase hphase).symm
    | _ => simp [Phase.Asks, hphase] at hasks
  · intro frame row hphase hpending hrow
    obtain ⟨row', m', hrow', -, htake⟩ := hx.next_take hwhole hm (hstep.at_phase hphase) hpending
    obtain rfl : row = row' := Option.mem_unique hrow hrow'
    rcases take_cases htake with ⟨b, k, hphase', -⟩ | ⟨g, hphase', hkind, hkey, -⟩ |
      ⟨g, result, hphase', -⟩
    · simp [hphase] at hphase'
    · rw [hphase] at hphase'
      cases hphase'
      exact ⟨hkind, hkey⟩
    · simp [hphase] at hphase'
  · intro frame result hphase
    rcases hstep.at_phase hphase with hawake | ⟨hend, -⟩
    · by_contra hpending
      obtain ⟨row, m', -, hmem, htake⟩ := hx.next_take hwhole hm hawake hpending
      have hclose : close js p frame x.machine.stack x.machine.retryIndex row = some m' := by
        simpa [Machine.take, hphase] using htake
      exact hx.isOpen frame (by simp [openFrames, hphase]) row hmem (close_eq_some.mp hclose).1
    · exact hend
  · rintro frame (hphase | hphase)
    · rw [hstep.at_phase hphase] at hready
      simpa [Machine.Ready, hphase] using hready
    · exact (hstep.at_phase hphase (uninterrupted_resting hm)).1

/-- In every schedule whose host calls hand out what they record, whose unrecorded exceptions end
the function that sees them and whose recorded attempts have not called `retry`, the stored
history is that of an uninterrupted run and every runner asks for the recorded keys. -/
theorem retry_replay_aligned (S : Crates J) (js : Js V) (p : Program V P) (t : TaskId)
    (events : List (Event V J)) (hok : Along S js p t (Replayable S js p) start events) :
    (∃ m, uninterrupted js p ((after S js p t events).db.eventsOf t) = some m) ∧
    ∀ x ∈ (after S js p t events).runners,
      RetryAligned js p ((after S js p t events).db.eventsOf t) x := by
  have haligned := after_aligned hok
  exact ⟨haligned.whole, fun x hx => (haligned.runners x hx).retryAligned haligned.whole⟩

def onePolicy : RetryPolicy Sample := ⟨1, 0, .number 1, none, by decide⟩

def twoRetries : Program Sample Point :=
  plainProgram fun point values =>
    match point, values with
    | .main, [] | .main, [_] => .retry onePolicy fun _ => .outer
    | .outer, [] => .boundary (.step "work")
    | _, value :: _ => .done value
    | .inner, [] => .throw .undefined

/-- The handler is dropped in the second attempt and resumed. -/
def droppedRun : List (Event Sample String) :=
  let advance := Event.advance 0 (.returning (.number 1))
  .load none none :: List.replicate 8 advance ++
    [.crash 0, .load none none, advance, advance, advance, advance, advance, advance]

theorem retry_replay_aligned_dropped :
    ((after textCrates sampleJs twoRetries 7 droppedRun).db.eventsOf 7).map EventRow.eventKey =
      ["retry:0:1:0:1:none:start:1", "work", "retry:0:1:0:1:none:outcome:1",
        "retry:1:1:0:1:none:start:1", "work"] ∧
    ∀ x ∈ (after textCrates sampleJs twoRetries 7 droppedRun).runners,
      RetryAligned sampleJs twoRetries
        ((after textCrates sampleJs twoRetries 7 droppedRun).db.eventsOf 7) x := by
  have hstable : Along textCrates sampleJs twoRetries 7
      (StableUnnested textCrates sampleJs) start droppedRun := by decide +kernel
  exact ⟨by decide +kernel,
    (retry_replay_aligned textCrates sampleJs twoRetries 7 droppedRun hstable.replayable).2⟩

/-- A retry whose attempt calls `retry`, and another retry after it. -/
def nestedRetries : Program Sample Point :=
  plainProgram fun point values =>
    match point, values with
    | .main, [] => .retry onePolicy fun _ => .outer
    | .main, [_] => .retry onePolicy fun _ => .inner
    | .outer, [] => .retry onePolicy fun _ => .inner
    | _, _ => .done (.number 1)

/-- The handler is dropped after the start of its last retry and resumed. -/
def nestedRun : List (Event Sample String) :=
  let advance := Event.advance 0 (.returning (.number 1))
  .load none none :: List.replicate 7 advance ++
    [.crash 0, .load none none, advance, advance, advance]

/-- The skipped attempt had moved the counter: the last retry is looked up under a key that the
live run has used for the nested one. -/
theorem nested_retry_mismatch : (after textCrates sampleJs nestedRetries 7 nestedRun).runners.map
        (fun x => x.machine.mismatch?) =
      [some (.mismatch 4 .retry "retry:2:1:0:1:none:start:1" .retry
        "retry:1:1:0:1:none:start:1")] := by
  decide +kernel

end Tysel.Engine
