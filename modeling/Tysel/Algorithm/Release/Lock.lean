import Tysel.Shared.Run

/-! `UpgradeLock::acquire` and the drop of the lock, one file operation at a time. A lock file holds
the pid of the process whose candidate was linked; the file is named here by that process. -/

namespace Tysel.Release

/-- What a process does next. -/
inductive Phase (P : Type) where
  | idle
  | linking
  | reading
  | testing (owner : P)
  | removing (owner : P)
  | linked
  | holding
  | dead
  deriving DecidableEq

/-- The operations of a process: `create` writes its candidate, `link` links it to the path,
`giveUp` is the end of `acquire` after a timeout or another error of the link, `read` and `test`
are those of `stale_lock`, `recover` removes the stale file, `clean` removes the candidate of the
owner (`leak` when that fails), and `drop` removes the lock file. In `test`, `reused` says that
another process has the pid by now. -/
inductive LockOp where
  | create | link | giveUp | read | test (reused : Bool) | recover | clean | leak | drop | die
  deriving DecidableEq

structure LockState (P : Type) where
  lock : Option P
  phase : P → Phase P

variable {P : Type} [DecidableEq P]

/-- What an operation of a process makes of its phase and of the lock file. -/
def LockState.after (s : LockState P) (p : P) (op : LockOp) : Option (Phase P × Option P) :=
  match s.phase p, op with
  | .idle, .create => some (.linking, s.lock)
  | .linking, .link =>
    if s.lock = none then some (.linked, some p) else some (.reading, s.lock)
  | .linking, .giveUp => some (.idle, s.lock)
  | .reading, .read =>
    match s.lock with
    | none => some (.linking, s.lock)
    | some owner => some (.testing owner, s.lock)
  | .testing owner, .test reused =>
    if s.phase owner ≠ .dead ∨ reused then some (.linking, s.lock)
    else some (.removing owner, s.lock)
  | .removing _, .recover => some (.linking, none)
  | .linked, .clean => some (.holding, s.lock)
  | .linked, .leak => some (.idle, s.lock)
  | .holding, .drop => some (.idle, none)
  | .dead, _ => none
  | _, .die => some (.dead, s.lock)
  | _, _ => none

/-- An operation that is not the next one of the process does nothing. -/
def LockState.step (s : LockState P) (input : P × LockOp) : Unit × LockState P :=
  match s.after input.1 input.2 with
  | some (phase, lock) => ((), ⟨lock, Function.update s.phase input.1 phase⟩)
  | none => ((), s)

def LockState.initial (P : Type) : LockState P := ⟨none, fun _ => .idle⟩

end Tysel.Release
