import Tysel.Algorithm.Engine.Runner
import Tysel.Verification.Engine.Uninterrupted
import Tysel.Verification.Engine.Cursor

/-! The machine of every runner is in step with the uninterrupted machine after the events that
its session has passed. One host call keeps this: it replays the next event, finds the history
exhausted and appends the event that the uninterrupted machine takes next, or skips to the
outcome of an attempt. -/

namespace Tysel.Engine

open Tysel.Durable Machine List

variable {V P J : Type} {S : Crates J} {js : Js V} {p : Program V P} {db db' : Db}
  {t : TaskId} {H : List EventRow} {x : Runner V P J} {m : Machine V P}

def Js.Stable (js : Js V) (v : V) : Prop := ∃ text, js.stringify v = some text ∧ js.parse text = v

/-- The record of an attempt reads back as what the live attempt does. -/
def Js.OutcomeStable (js : Js V) (res : Except V V) : Prop :=
  ∃ text, js.stringify (js.outcome res) = some text ∧ js.replayed (js.parse text) = js.verdict res

/-- The values that the host call hands to the handler are those it records. -/
def Runner.JsonStable (S : Crates J) (js : Js V) (turn : Turn V) (db : Db) (x : Runner V P J) :
    Prop :=
  match x.machine.phase with
  | .calling (.step _) _ | .calling (.effect _) _ =>
    ∀ v, turn.callback = .ok v → js.stringify v = none ∨ js.Stable v
  | .calling .now _ => js.Stable (js.number turn.nowMs)
  | .calling .random _ => js.Stable turn.random
  | .calling (.signal name _) _ =>
    ∀ row v, db.oldestSignal x.session.taskId name = some row →
      S.fromStr row.payload = some v → js.parse (S.toStr v) = js.parse row.payload
  | .recording _ res => js.OutcomeStable res
  | _ => True

/-- The function that sees the exception makes no further durable call. -/
def Program.Ends (p : Program V P) (cont : Cont V P) (error : V) : Prop :=
  match p.code cont.level.point (cont.level.seen ++ [.error error]) with
  | .done _ | .throw _ => True
  | _ => False

/-- An exception that no event records ends the function that sees it. -/
def Runner.Uncaught (js : Js V) (p : Program V P) (turn : Turn V) (x : Runner V P J) : Prop :=
  match x.machine.phase with
  | .calling (.step _) cont | .calling (.effect _) cont =>
    (∀ error, turn.callback = .error error → p.Ends cont error) ∧
      ∀ v, turn.callback = .ok v → js.stringify v = none →
        p.Ends cont (js.typeError "durable values must be JSON serializable")
  | .calling (.sleep millis) cont =>
    maxSafeInteger < turn.nowMs + millis → p.Ends cont (js.typeError "durable wakeup is too large")
  | .asking (.sleep _) cont | .sleeping cont | .calling (.signal ..) cont =>
    ∀ error, p.Ends cont (js.hostError error)
  | _ => True

/-- An attempt that is about to record its outcome has not called `retry`. -/
def Runner.Unnested (x : Runner V P J) : Prop :=
  match x.machine.phase with
  | .recording frame _ => x.machine.retryIndex = frame.id + 1
  | _ => True

/-- The uninterrupted machine is at the boundary that hands its result to this continuation. -/
def Machine.AtBoundary (js : Js V) (p : Program V P) (m : Machine V P) (k : Cont V P) : Prop :=
  (∃ b, (m.awake js p).phase = .asking b k) ∨ m.phase = .sleeping k

/-- A machine between two host calls, and the uninterrupted machine after the same events. -/
inductive InStep (js : Js V) (p : Program V P) (exhausted : Prop) :
    Machine V P → Machine V P → Prop
  | ready (m : Machine V P) : InStep js p exhausted (m.awake js p) m
  | calling {m : Machine V P} {b : Boundary} {k : Cont V P} (h : exhausted)
      (hp : (m.awake js p).phase = .asking b k) :
      InStep js p exhausted ⟨m.stack, m.retryIndex, .calling b k⟩ m
  | waiting {m : Machine V P} {b : Boundary} {k : Cont V P} (h : exhausted)
      (hp : (m.awake js p).phase = .asking b k) :
      InStep js p exhausted ⟨m.stack, m.retryIndex, .waiting b k⟩ m
  | sleeping {stack : List (Frame V P)} {index : ℕ} {k : Cont V P} (h : exhausted) :
      InStep js p exhausted ⟨stack, index, .sleeping k⟩ ⟨stack, index, .sleeping k⟩
  | finding {stack : List (Frame V P)} {frame : Frame V P} :
      InStep js p exhausted ⟨stack, frame.id + 1, .finding frame⟩
        (begin p stack (frame.id + 1) frame)
  | thrown {m : Machine V P} {k : Cont V P} {error : V} (h : exhausted)
      (hp : m.AtBoundary js p k) (hends : p.Ends k error) :
      InStep js p exhausted (give p m.stack m.retryIndex k (.error error)) m
  | ended {m m' : Machine V P} {error : SessionError} (hp : m.phase = .ended error)
      (hnot : ∀ r, error ≠ .replay r) : InStep js p exhausted m m'

def Machine.openFrames (m : Machine V P) : List (Frame V P) :=
  match m.phase with
  | .recording frame _ => frame :: m.stack
  | _ => m.stack

namespace Machine

/-- The machines that go on with a function of the handler: it has ended, makes a host call or
starts an attempt. -/
inductive Entered (stack : List (Frame V P)) (index : ℕ) : Machine V P → Prop
  | left (res : Except V V) : Entered stack index (leave stack index res)
  | asking (b : Boundary) (k : Cont V P) : Entered stack index ⟨stack, index, .asking b k⟩
  | starting (next : ℕ) (frame : Frame V P) : Entered stack index ⟨stack, next, .starting frame⟩

section

variable (js p) (stack : List (Frame V P)) (index : ℕ)

theorem enter_entered (level : Level V P) : Entered stack index (enter p stack index level) := by
  unfold enter
  split
  · exact .left _
  · exact .left _
  · exact .asking _ _
  · exact .starting _ _

theorem give_entered (cont : Cont V P) (res : Except V V) :
    Entered stack index (give p stack index cont res) := by
  unfold give
  split
  · exact .starting _ _
  · exact enter_entered ..

theorem settle_entered (frame : Frame V P) (verdict : Bool × Except V V) :
    Entered stack index (settle js p stack index frame verdict) := by
  unfold settle
  split
  · exact enter_entered ..
  · split
    · exact enter_entered ..
    · exact .starting _ _
    · exact .asking _ _

end

namespace Entered

variable {stack : List (Frame V P)} {index : ℕ} (h : Entered stack index m)

include h

theorem openFrames : m.openFrames = stack := by
  cases h with
  | left => cases stack <;> rfl
  | _ => rfl

theorem awake : m.awake js p = m := by
  cases h with
  | left => cases stack <;> rfl
  | _ => rfl

theorem of_asking {b : Boundary} {k : Cont V P} (hp : m.phase = .asking b k) :
    m = ⟨stack, index, .asking b k⟩ := by
  cases h with
  | left => cases stack <;> cases hp
  | asking =>
    cases hp
    rfl
  | starting => cases hp

theorem of_recording {frame : Frame V P} {res : Except V V} (hp : m.phase = .recording frame res) :
    ∃ rest, stack = frame :: rest ∧ m = ⟨rest, index, .recording frame res⟩ := by
  cases h with
  | left =>
    cases stack with
    | nil => cases hp
    | cons _ rest =>
      cases hp
      exact ⟨rest, rfl, rfl⟩
  | _ => cases hp

end Entered

end Machine

theorem Machine.give_error (stack : List (Frame V P)) (index : ℕ) (k : Cont V P) (error : V) :
    give p stack index k (.error error) = enter p stack index (k.level.push (.error error)) := by
  cases k <;> rfl

theorem Machine.give_ends (stack : List (Frame V P)) (index : ℕ) {k : Cont V P} {error : V}
    (h : p.Ends k error) :
    ∃ res, give p stack index k (.error error) = leave stack index res := by
  unfold Program.Ends at h
  rw [give_error, enter, Level.push]
  split at h
  · rename_i hcode
    exact ⟨_, by rw [hcode]⟩
  · rename_i hcode
    exact ⟨_, by rw [hcode]⟩
  · exact h.elim

/-- A runner over a stored history: its session has loaded a front part of it, none of its open
attempts is closed in what is still to be replayed, and its machine is in step. -/
structure Runner.Aligned (js : Js V) (p : Program V P) (t : TaskId) (H : List EventRow)
    (x : Runner V P J) : Prop where
  replaying : Replaying t H x.session
  isOpen : ∀ frame ∈ x.machine.openFrames, ∀ row ∈ x.session.remaining, ¬ frame.Outcome js row
  inStep : ∃ m, uninterrupted js p (H.take x.session.passed) = some m ∧
    InStep js p x.session.Exhausted x.machine m

theorem Runner.Aligned.grow (h : x.Aligned js p t H) {H' : List EventRow}
    (hgrow : H <+: H') : x.Aligned js p t H' where
  replaying := h.replaying.grow hgrow
  isOpen := h.isOpen
  inStep := by
    obtain ⟨-, rfl⟩ := hgrow
    rw [take_append_of_le_length h.replaying.passed_le]
    exact h.inStep

/-- What one host call of a runner has done. -/
structure Advanced (S : Crates J) (js : Js V) (p : Program V P) (t : TaskId) (db : Db)
    (res : Runner V P J × Db) : Prop where
  store : StoreStep S db res.2
  grows : db.eventsOf t <+: res.2.eventsOf t
  whole : ∃ m, uninterrupted js p (res.2.eventsOf t) = some m
  aligned : res.1.Aligned js p t (res.2.eventsOf t)

theorem consume_next (hwhole : ∃ m, uninterrupted js p H = some m) {n : ℕ} {row : EventRow}
    (hm : uninterrupted js p (H.take n) = some m) (hrow : H[n]? = some row) :
    ∃ m', m.consume js p row = some m' ∧ uninterrupted js p (H.take (n + 1)) = some m' := by
  obtain ⟨_, hlast⟩ := hwhole
  obtain ⟨m₀, m', hm₀, hconsume, htake⟩ := uninterrupted_take hlast hrow
  obtain rfl : m = m₀ := Option.mem_unique hm hm₀
  exact ⟨m', hconsume, htake⟩

section

variable {s s' : DurableSession J} {machine : Machine V P}

/-- The history stays: the machine goes on to one that is in step with the same events. -/
theorem Advanced.unmoved (hwhole : ∃ m, uninterrupted js p (db.eventsOf t) = some m)
    (hr : Replaying t (db.eventsOf t) s)
    (hm : uninterrupted js p ((db.eventsOf t).take s.passed) = some m)
    (hmoved : Unmoved S s db s' db')
    (hopen : ∀ frame ∈ machine.openFrames, ∀ row ∈ s.remaining, ¬ frame.Outcome js row)
    (hstep : InStep js p s'.Exhausted machine m) :
    Advanced S js p t db (⟨s', machine⟩, db') := by
  have hevents : db'.eventsOf t = db.eventsOf t := hr.ofTask ▸ hmoved.events
  refine ⟨hmoved.store, by rw [hevents], by rwa [hevents], ?_⟩
  rw [hevents]
  refine ⟨hmoved.cursor.replaying hr, ?_, m, ?_, hstep⟩
  · rwa [hmoved.cursor.remaining]
  · rwa [hmoved.cursor.passed]

/-- The history grows: the uninterrupted machine takes the new event. -/
theorem Advanced.extended {kind : EventKind} {key payload : String} {row : EventRow}
    {m' : Machine V P} (hr : Replaying t (db.eventsOf t) s) (hend : s.Exhausted)
    (hm : uninterrupted js p ((db.eventsOf t).take s.passed) = some m)
    (hext : Extended S s db kind key payload s' db' row) (hconsume : m.consume js p row = some m')
    (hstep : InStep js p s'.Exhausted machine m') :
    Advanced S js p t db (⟨s', machine⟩, db') := by
  obtain ⟨hevents, hpassed, hr', hpassed', -, hend'⟩ := hext.replaying hr hend
  rw [hpassed, take_length] at hm
  have hwhole : uninterrupted js p (db.eventsOf t ++ [row]) = some m' := by
    rw [uninterrupted_concat, hm, Option.bind_some, hconsume]
  refine ⟨hext.store, ?_, ?_, ?_⟩
  · exact ⟨[row], hevents.symm⟩
  · exact ⟨m', hevents ▸ hwhole⟩
  · rw [hevents]
    refine ⟨hr', ?_, m', ?_, hstep⟩
    · simp [remaining_of_exhausted hend']
    · rwa [take_of_length_le (by simp [hpassed'])]

end

theorem Machine.stack_subset_openFrames (m : Machine V P) : m.stack ⊆ m.openFrames := by
  unfold openFrames
  split
  · exact subset_cons_self _ _
  · exact List.Subset.refl _

theorem Runner.Aligned.stack_open (hx : x.Aligned js p t H) :
    ∀ frame ∈ x.machine.stack, ∀ row ∈ x.session.remaining, ¬ frame.Outcome js row :=
  fun frame hframe => hx.isOpen frame (x.machine.stack_subset_openFrames hframe)

theorem Advanced.ended {s : DurableSession J} {error : SessionError}
    (hwhole : ∃ m, uninterrupted js p (db.eventsOf t) = some m)
    (hx : x.Aligned js p t (db.eventsOf t)) (hmoved : Unmoved S x.session db s db')
    (hnot : ∀ r, error ≠ .replay r) :
    Advanced S js p t db (⟨s, { x.machine with phase := .ended error }⟩, db') := by
  obtain ⟨_, hm, -⟩ := hx.inStep
  exact .unmoved hwhole hx.replaying hm hmoved hx.stack_open (.ended rfl hnot)

namespace Machine

variable {stack : List (Frame V P)} {index : ℕ} {res : Except V V} {k : Cont V P}
  {frame : Frame V P} {phase : Phase V P}

theorem awake_recording (hinter : m.Interruptible)
    (h : (m.awake js p).phase = .recording frame res) : ∃ rest, m.stack = frame :: rest ∧
      m.awake js p = ⟨rest, m.retryIndex, .recording frame res⟩ := by
  unfold awake at h ⊢
  split at h
  · exact (give_entered ..).of_recording h
  · simp [Interruptible, h] at hinter

/-- The attempts that a sleeping machine has open are still open when it wakes up. -/
theorem stack_subset_awake : m.stack ⊆ (m.awake js p).openFrames := by
  unfold awake
  split
  · rw [(give_entered ..).openFrames]
    exact List.Subset.refl _
  · exact m.stack_subset_openFrames

theorem awake_asking {b : Boundary} (h : (m.awake js p).phase = .asking b k) :
    m.awake js p = ⟨m.stack, m.retryIndex, .asking b k⟩ ∧ m.Interruptible := by
  unfold awake at h ⊢
  split at h
  · rename_i hp
    exact ⟨(give_entered ..).of_asking h, by simp [Interruptible, hp]⟩
  · refine ⟨?_, by simp [Interruptible, h]⟩
    rw [← h]

theorem AtBoundary.interruptible (h : m.AtBoundary js p k) : m.Interruptible := by
  rcases h with ⟨_, hasking⟩ | hp
  · exact (awake_asking hasking).2
  · simp [Interruptible, hp]

end Machine

namespace InStep

variable {exhausted : Prop} {m m' : Machine V P} {b : Boundary} {k : Cont V P} {frame : Frame V P}
  {phase : Phase V P} {stack : List (Frame V P)} {index : ℕ}

theorem self (h : m.awake js p = m) : InStep js p exhausted m m := by
  have hready : InStep js p exhausted (m.awake js p) m := .ready m
  rwa [h] at hready

theorem woken : InStep js p exhausted (give p stack index k (.ok js.undefined))
      ⟨stack, index, .sleeping k⟩ :=
  .ready ⟨stack, index, .sleeping k⟩

theorem given (hnot : b.kind ≠ .sleep) (payload : String) : InStep js p exhausted
      (give p stack index k (.ok (b.hand js (js.parse payload))))
      (land js p stack index b k payload) := by
  cases b with
  | sleep => exact absurd rfl hnot
  | _ => exact .self (give_entered ..).awake

/-- What a phase says about the uninterrupted machine. -/
def AtPhase (js : Js V) (p : Program V P) (exhausted : Prop) (m m' : Machine V P) : Phase V P → Prop
  | .asking _ k =>
    m'.awake js p = m ∧ m'.AtBoundary js p k ∧ m'.stack = m.stack ∧ m'.retryIndex = m.retryIndex
  | .starting _ => m'.awake js p = m
  | .calling b k =>
    m'.Resting → exhausted ∧ (m'.awake js p).phase = .asking b k ∧
      m'.stack = m.stack ∧ m'.retryIndex = m.retryIndex
  | .waiting b k => m'.Resting → (m'.awake js p).phase = .asking b k
  | .sleeping _ => m'.Resting → exhausted ∧ m' = m
  | .finding frame =>
    m'.Resting → m.retryIndex = frame.id + 1 ∧ m' = begin p m.stack m.retryIndex frame
  -- the callback has ended, or an exception that no event records has interrupted it
  | .recording frame _ => m'.awake js p = m ∨
      exhausted ∧ m'.Interruptible ∧ m'.stack = frame :: m.stack ∧ m'.retryIndex = m.retryIndex
  | .finished _ => m'.awake js p = m ∨
      exhausted ∧ ∃ k error, m'.AtBoundary js p k ∧ p.Ends k error ∧
        m = give p m'.stack m'.retryIndex k (.error error)
  | .ended error => m'.Resting → ∀ r, error ≠ .replay r

theorem at_phase (h : InStep js p exhausted m m') (hp : m.phase = phase) :
    AtPhase js p exhausted m m' phase := by
  subst hp
  cases h with
  | ready =>
    cases hp : (m'.awake js p).phase with
    | asking =>
      obtain ⟨hawake, -⟩ := awake_asking hp
      exact ⟨rfl, .inl ⟨_, hp⟩, by rw [hawake], by rw [hawake]⟩
    | starting => exact rfl
    | recording | finished => exact .inl rfl
    | _ =>
      intro hrest
      simpa [Ready, hp] using (hrest.awake : (m'.awake js p).Ready)
  | calling hend hasking => exact fun _ => ⟨hend, hasking, rfl, rfl⟩
  | waiting _ hasking => exact fun _ => hasking
  | sleeping hend => exact fun _ => ⟨hend, rfl⟩
  | finding => exact fun _ => ⟨rfl, rfl⟩
  | thrown hend hat hends =>
    obtain ⟨_, hgive⟩ := give_ends m'.stack m'.retryIndex hends
    cases hstack : m'.stack with
    | nil =>
      rw [hstack] at hgive
      rw [hgive]
      exact .inr ⟨hend, _, _, hat, hends, by rw [hstack, hgive]⟩
    | cons =>
      rw [hstack] at hgive
      rw [hgive]
      exact .inr ⟨hend, hat.interruptible, hstack, rfl⟩
  | ended hended hnot =>
    rw [hended]
    exact fun _ => hnot

end InStep

end Tysel.Engine
