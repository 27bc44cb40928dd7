import Tysel.Algorithm.Isolate.Supervisor

/-! The thread of the watchdog, `arm`, `finish` and `drop` each hold the lock of the state from the
load of the flag to the end of what they do, and read the clock in between. The thread may wake
up at any time. -/

namespace Tysel.Isolate

namespace Watchdog

/-- An operation: its deadline, and which flag cancels it. -/
structure Operation where
  deadline : ℕ
  cancelled : Option ℕ

structure State where
  deadline : Option ℕ := none
  cancelled : Option ℕ := none
  reason : Option InterruptReason := none

/-- The operation, from the call of `arm` to the end of its `drop`. `finish` ends with the drop,
and returns what it read. -/
inductive Phase where
  | idle
  | arming (op : Operation)
  | armed (op : Operation)
  | finishing (op : Operation) (overdue : Bool)
  | dropping (op : Operation) (result : Option (Option InterruptReason)) (overdue : Bool)

def Phase.op? : Phase → Option Operation
  | .idle => none
  | .arming op | .armed op | .finishing op _ | .dropping op _ _ => some op

inductive Event where
  | tick (span : ℕ)
  | cancel (flag : ℕ)
  | arm (op : Operation)
  | finish
  | drop
  | lock (call : Bool)
  | unlock

def Operation.overdue (op : Operation) (now : ℕ) (flags : ℕ → Bool) : Bool :=
  op.deadline ≤ now || op.cancelled.any flags

/-- Whether the child is killed, and the state after that. -/
def State.interrupt (state : State) (loaded : Bool) (now : ℕ) : Bool × State :=
  if loaded then (true, ⟨none, none, some .cancelled⟩)
  else if state.deadline.any (· ≤ now) then (true, ⟨none, none, some .timeout⟩)
  else (false, state)

end Watchdog

/-- `held` says whether the lock is held by the thread or by a call, and the flag it loaded. -/
structure Watchdog where
  now : ℕ
  flags : ℕ → Bool
  state : Watchdog.State := {}
  phase : Watchdog.Phase := .idle
  held : Option (Bool × Bool) := none
  /-- The child was killed since the last `arm`. -/
  killed : Bool := false

namespace Watchdog

def load (w : Watchdog) (call : Bool) (state : State) : Watchdog :=
  { w with state := state, held := some (call, state.cancelled.any w.flags) }

/-- What a call does after `interrupt`. -/
def leave (phase : Phase) (state : State) : State × Phase :=
  match phase with
  | .arming op => (state, .armed op)
  | .finishing op overdue => (⟨none, none, state.reason⟩, .dropping op (some state.reason) overdue)
  | .dropping _ _ _ => (⟨none, none, state.reason⟩, .idle)
  | phase => (state, phase)

/-- The output says whether the child is killed in the step. -/
def step (w : Watchdog) (event : Event) : Bool × Watchdog :=
  match event, w.phase, w.held with
  | .tick span, _, _ => (false, { w with now := w.now + span })
  | .cancel flag, _, _ => (false, { w with flags := fun i => i = flag || w.flags i })
  | .arm op, .idle, _ => (false, { w with phase := .arming op, killed := false })
  | .finish, .armed op, _ =>
    (false, { w with phase := .finishing op (op.overdue w.now w.flags) })
  | .drop, .armed op, _ => (false, { w with phase := .dropping op none false })
  | .lock true, .arming op, none => (false, w.load true ⟨some op.deadline, op.cancelled, none⟩)
  | .lock true, .finishing _ _, none | .lock true, .dropping _ _ _, none =>
    (false, w.load true w.state)
  | .lock false, _, none => (false, w.load false w.state)
  | .unlock, phase, some (call, loaded) =>
    let (kills, state) := w.state.interrupt loaded w.now
    let (state, phase) := if call then leave phase state else (state, phase)
    (kills, { w with
      state := state, phase := phase, held := none, killed := w.killed || kills })
  | _, _, _ => (false, w)

end Watchdog

end Tysel.Isolate
