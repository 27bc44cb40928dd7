import Tysel.Verification.Engine.Schedules

/-! In a schedule whose host calls hand out what they record, and whose unrecorded exceptions end
the function that sees them, an interrupted and resumed handler behaves as one that is never
interrupted. -/

namespace Tysel.Engine

open Tysel.Durable List Option Machine Runs

variable {V P J : Type} {S : Crates J} {js : Js V} {p : Program V P} {t : TaskId}
  {H : List EventRow} {x : Runner V P J} {m : Machine V P} {res : Except V V}

theorem Machine.Entered.finished {stack : List (Frame V P)} {index : ℕ} (h : Entered stack index m)
    (hp : m.phase = .finished res) : stack = [] := by
  cases h with
  | left =>
    cases stack with
    | nil => rfl
    | cons => cases hp
  | _ => cases hp

theorem Machine.awake_finished (hp : (m.awake js p).phase = .finished res)
    (hinter : m.Interruptible) : m.stack = [] := by
  unfold awake at hp
  split at hp
  · exact (give_entered ..).finished hp
  · simp [Interruptible, hp] at hinter

/-- A finished run takes no further event. -/
theorem uninterrupted_finished {n : ℕ} (hwhole : ∃ m, uninterrupted js p H = some m)
    (hm : uninterrupted js p (H.take n) = some m)
    (hp : (m.awake js p).phase = .finished res) : H.take n = H := by
  rcases Nat.lt_or_ge n H.length with hlt | hge
  · obtain ⟨m', hconsume, -⟩ := consume_next hwhole hm (getElem?_eq_getElem hlt)
    rcases consume_cases hconsume with htake | ⟨hinter, frame, rest, hstack, -⟩
    · simp [Machine.take, hp] at htake
    · rw [awake_finished hp hinter] at hstack
      cases hstack
  · exact take_of_length_le hge

/-- A runner over the stored history `H` of its task. -/
structure CrashConsistent (js : Js V) (p : Program V P) (H : List EventRow)
    (x : Runner V P J) : Prop where
  /-- No lookup has met an event that the handler did not ask for. -/
  noMismatch : ∀ r, x.machine.phase ≠ .ended (.replay r)
  /-- No event is left over when the handler has finished. -/
  consumed : ∀ res, x.machine.phase = .finished res → x.session.replay.ensureConsumed = .ok ()
  /-- The handler has got the recorded results, in order: the calls in progress, with what they
  have seen, are those of the run that is handed the events before this one. -/
  inOrder : ∀ b k, x.machine.phase = .asking b k ∨ x.machine.phase = .calling b k ∨
    x.machine.phase = .waiting b k → ∃ m, uninterrupted js p (H.take x.session.passed) =
      some m ∧ (m.awake js p).phase = .asking b k
  /-- A callback runs only beyond the history that the session was opened with. -/
  once : ∀ b k, x.machine.phase = .calling b k → x.session.replay.events.length ≤ x.session.passed
  /-- The result is that of the uninterrupted run over the whole history, unless an exception that
  no event records has ended the handler. -/
  final : ∀ res, x.machine.phase = .finished res →
    (∃ m, uninterrupted js p H = some m ∧ (m.awake js p).phase = .finished res) ∨
    ∃ m k error, uninterrupted js p (H.take x.session.passed) = some m ∧
      m.AtBoundary js p k ∧ p.Ends k error ∧
      x.machine = give p m.stack m.retryIndex k (.error error)

theorem Runner.Aligned.crashConsistent (hx : x.Aligned js p t H)
    (hwhole : ∃ m, uninterrupted js p H = some m) : CrashConsistent js p H x where
  noMismatch := hx.not_replay
  consumed res hp := by
    have hend := hx.exhausted hwhole hp
    have hnone : x.session.replay.events[x.session.replay.position]? = none :=
      getElem?_eq_none_iff.mpr hend
    simp only [ReplayCursor.ensureConsumed, hnone]
  inOrder b k hrunning := by
    obtain ⟨m, hm, hstep⟩ := hx.inStep
    refine ⟨m, hm, ?_⟩
    have hrest := uninterrupted_resting hm
    rcases hrunning with hp | hp | hp
    · rw [(hstep.at_phase hp).1, hp]
    · exact (hstep.at_phase hp hrest).2.1
    · exact hstep.at_phase hp hrest
  once b k hp := by
    obtain ⟨_, hm, hstep⟩ := hx.inStep
    obtain ⟨hend, -⟩ := hstep.at_phase hp (uninterrupted_resting hm)
    rw [passed_of_exhausted hend]
    exact hx.replaying.loaded
  final res hp := by
    obtain ⟨m, hm, hstep⟩ := hx.inStep
    rcases hstep.at_phase hp with hawake | ⟨-, k, error, hat, hends, hgive⟩
    · have hfinished := hawake ▸ hp
      rw [uninterrupted_finished hwhole hm hfinished] at hm
      exact .inl ⟨m, hm, hfinished⟩
    · exact .inr ⟨m, k, error, hm, hat, hends, hgive⟩

/-- In every schedule of crashes, resumptions and calls on the store whose host calls hand out
what they record and whose unrecorded exceptions end the function that sees them, the stored
history is that of one uninterrupted run, every runner is crash consistent with it, and it
extends the history of every earlier point. -/
theorem crash_consistent_replay (S : Crates J) (js : Js V) (p : Program V P) (t : TaskId)
    (events : List (Event V J)) (hok : Along S js p t (Replayable S js p) start events) :
    (∃ m, uninterrupted js p ((after S js p t events).db.eventsOf t) = some m) ∧
    (∀ x ∈ (after S js p t events).runners, CrashConsistent js p
        ((after S js p t events).db.eventsOf t) x) ∧
    ∀ past future, events = past ++ future → (after S js p t past).db.eventsOf t <+:
        (after S js p t events).db.eventsOf t := by
  have haligned := after_aligned hok
  refine ⟨haligned.whole, ?_, ?_⟩
  · intro x hx
    exact (haligned.runners x hx).crashConsistent haligned.whole
  · rintro _ _ rfl
    obtain ⟨hpast, hfuture⟩ := hok.append
    rw [Runs.after_append]
    exact ((Runs.start_aligned.run hpast).1.run hfuture).2

/-! ## Runs on sample values -/

/-- The JavaScript values of the runs below. -/
inductive Sample where
  | undefined
  | number (n : ℕ)
  | epoch
  | text (text : String)
  | error (message : String)
  | success (n : ℕ)
  | failure (message : String)
  deriving DecidableEq, Repr

/-- JavaScript values and their JSON texts, as far as the examples below use them. -/
def sampleJs : Js Sample where
  stringify
    | .undefined => none
    | .number n => some (toString n)
    | .epoch => some "\"1970-01-01T00:00:00.000Z\""
    | .text text => some ("\"" ++ text ++ "\"")
    | .error _ => some "\x7b\x7d"
    | .success n => some ("\x7b\"ok\":true,\"value\":" ++ toString n ++ "\x7d")
    | .failure message => some ("\x7b\"ok\":false,\"message\":\"" ++ message ++ "\"\x7d")
  parse text :=
    if text = "1" then .number 1
    else if text = "2" then .number 2
    else if text = "\"1970-01-01T00:00:00.000Z\"" then .text "1970-01-01T00:00:00.000Z"
    else if text = "\x7b\"ok\":true,\"value\":1\x7d" then .success 1
    else .undefined
  undefined := .undefined
  typeError := .error
  hostError _ := .error "host"
  number := .number
  date v := if v = .number 0 then .epoch else .undefined
  durationJson millis := "\x7b\"durationMs\":" ++ toString millis ++ "\x7d"
  attemptJson attempt := "\x7b\"attempt\":" ++ toString attempt ++ "\x7d"
  okOutcome
    | .number n => .success n
    | _ => .undefined
  failedOutcome
    | .error message => .failure message
    | _ => .undefined
  isOk
    | .success _ => true
    | _ => false
  applyRetryOutcome
    | .success n => .ok (.number n)
    | .failure message => .error (.error message)
    | _ => .error (.error "invalid durable retry outcome")
  retryFailure error := error
  throwRetryFailure error := error
  factorText _ := "1"
  scaledDelay delayMs _ _ := delayMs

def textCrates : Crates String where
  toStr text := text
  fromStr text := some text
  eq a b := a == b
  sha256 _ := ""

/-- A turn whose callback returns the value, at the first millisecond. -/
def Turn.returning (v : Sample) : Turn Sample := ⟨.ok v, .number 1, 1, 1, 1, 1⟩

/-! ## Programs that catch nothing -/

def outcomes : List (Except V V) → Except V (List V)
  | [] => .ok []
  | .error error :: _ => .error error
  | .ok v :: rest => (outcomes rest).map (v :: ·)

theorem outcomes_error (seen : List (Except V V)) (error : V) :
    ∃ error', outcomes (seen ++ [.error error]) = .error error' := by
  induction seen with
  | nil => exact ⟨error, rfl⟩
  | cons res _ ih =>
    cases res with
    | error e => exact ⟨e, rfl⟩
    | ok =>
      obtain ⟨e, he⟩ := ih
      exact ⟨e, by simp [outcomes, he, Except.map]⟩

/-- The functions of the programs below. -/
inductive Point where
  | main
  | outer
  | inner
  deriving DecidableEq

def plainProgram (next : Point → List Sample → Action Sample Point) : Program Sample Point where
  main := .main
  code point seen :=
    match outcomes seen with
    | .error error => .throw error
    | .ok values => next point values

instance : Decidable x.Unnested :=
  match h : x.machine.phase with
  | .recording frame _ =>
    decidable_of_iff (x.machine.retryIndex = frame.id + 1) (by simp [Runner.Unnested, h])
  | .asking .. | .calling .. | .sleeping _ | .waiting .. | .starting _ | .finding _
  | .finished _ | .ended _ => isTrue (by simp [Runner.Unnested, h])

/-- The conditions that a program without handlers of exceptions has to meet. -/
def Runs.StableUnnested (S : Crates J) (js : Js V) (w : Runs V P J) : Event V J → Prop
  | .advance i turn => ∀ x ∈ w.runners[i]?, x.JsonStable S js turn w.db ∧ x.Unnested
  | _ => True

instance [DecidableEq V] (w : Runs V P J) (event : Event V J) :
    Decidable (w.StableUnnested S js event) :=
  match event with
  | .advance i turn =>
    inferInstanceAs (Decidable (∀ x ∈ w.runners[i]?, x.JsonStable S js turn w.db ∧ x.Unnested))
  | .store _ | .load _ _ | .crash _ => isTrue trivial

theorem Runner.Uncaught.of_ends (hends : ∀ cont error, p.Ends cont error) (js : Js V)
    (turn : Turn V) (x : Runner V P J) : x.Uncaught js p turn := by
  unfold Runner.Uncaught
  split
  · exact ⟨fun error _ => hends _ error, fun _ _ _ => hends _ _⟩
  · exact ⟨fun error _ => hends _ error, fun _ _ _ => hends _ _⟩
  · exact fun _ => hends _ _
  · exact fun _ => hends _ _
  · exact fun _ => hends _ _
  · exact fun _ => hends _ _
  · trivial

theorem Runs.Along.replayable {next : Point → List Sample → Action Sample Point}
    {w : Runs Sample Point J} {events : List (Event Sample J)} {js : Js Sample}
    (h : Along S js (plainProgram next) t (StableUnnested S js) w events) :
    Along S js (plainProgram next) t (Replayable S js (plainProgram next)) w
      events := by
  induction events generalizing w with
  | nil => trivial
  | cons event _ ih =>
    refine ⟨?_, ih h.2⟩
    cases event with
    | advance _ turn =>
      intro x hx
      refine ⟨(h.1 x hx).1, .of_ends (fun k error => ?_) js turn x, (h.1 x hx).2⟩
      obtain ⟨_, he⟩ := outcomes_error k.level.seen error
      simp [Program.Ends, plainProgram, he]
    | _ => trivial

def waitProgram : Program Sample Point :=
  plainProgram fun _ values =>
    match values with
    | [] => .boundary (.step "a")
    | [_] => .boundary (.sleep 5)
    | [_, _] => .boundary (.signal "go" (by decide))
    | _ :: _ :: v :: _ => .done v

/-- The handler is dropped after its step, in its sleep and in its wait. -/
def resumedRun : List (Event Sample String) :=
  let advance := Event.advance 0 (.returning (.number 1))
  [.load none none, advance, advance, .crash 0] ++
    [.load none none, advance, advance, advance, .crash 0] ++
    [.store (.claimWakeup 7 10 "worker" 1000), .load none (some ⟨7, 1, 6, "worker", 1010⟩),
      advance, advance, advance, advance, .crash 0] ++
    [.store (.sendSignal 7 "go" "2" 20 none), .store (.claimWakeup 7 30 "worker" 1000),
      .load none (some ⟨7, 2, 20, "worker", 1030⟩), advance, advance, advance, advance]

theorem crash_consistent_replay_resumed :
    ((after textCrates sampleJs waitProgram 7 resumedRun).db.eventsOf 7).map
        EventRow.eventKey = ["a", "sleep:5", "go"] ∧
      ∀ x ∈ (after textCrates sampleJs waitProgram 7 resumedRun).runners,
        CrashConsistent sampleJs waitProgram
          ((after textCrates sampleJs waitProgram 7 resumedRun).db.eventsOf 7) x := by
  have hstable : Along textCrates sampleJs waitProgram 7
      (StableUnnested textCrates sampleJs) start resumedRun := by decide +kernel
  obtain ⟨-, hrunners, -⟩ :=
    crash_consistent_replay textCrates sampleJs waitProgram 7 resumedRun hstable.replayable
  exact ⟨by decide +kernel, hrunners⟩

/-- A program that asks whether the result of its first step is a date. -/
def dateProgram : Program Sample Point :=
  plainProgram fun _ values =>
    match values with
    | [] => .boundary (.step "start")
    | [.epoch] => .boundary (.step "date")
    | [_] => .boundary (.step "other")
    | _ => .done .undefined

/-- The first step returns a date; the handler is dropped and resumed after its second step. -/
def dateRun : List (Event Sample String) :=
  let advance := fun v => Event.advance 0 (.returning v)
  [.load none none, advance .epoch, advance .epoch, advance (.number 1), advance (.number 1),
    .crash 0, .load none none, advance .undefined, advance .undefined]

/-- The event that a lookup of the handler did not expect. -/
def Machine.mismatch? {P : Type} (m : Machine V P) : Option ReplayError :=
  match m.phase with
  | .ended (.replay error) => some error
  | _ => none

/-- The date is recorded as a text, so the resumed handler asks for another step. -/
theorem date_step_mismatch : (after textCrates sampleJs dateProgram 7 dateRun).runners.map
        (fun x => x.machine.mismatch?) = [some (.mismatch 1 .step "date" .step "other")] := by
  decide +kernel

end Tysel.Engine
