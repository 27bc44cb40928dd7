import Tysel.Algorithm.Runtime.Dispatcher

/-! `DurablePoller`: a batch retries the retained completions, takes a snapshot of the due
programs, and dispatches them with bounded concurrency. The supervised loop goes on after a
batch that failed with a retryable error and stops on any other error. -/

namespace Tysel.Runtime

open Tysel.Durable

variable {J : Type}

def maxPollConcurrency : ℕ := 16

inductive ProgramRegistryError where
  | invalidProgram
  | full
  | totalBytesExceeded
  | poisoned
  | store (error : DurableError)
  | systemClock
  | timeRange
  deriving DecidableEq, Repr

inductive PollerError (J : Type) where
  | partialBatch (runs : List (DurableRun J)) (source : PollerError J)
  | invalidInterval
  | invalidBatchSize
  | registry (error : ProgramRegistryError)
  | dispatch (error : DispatchError)
  | join

namespace PollerError

def withRuns (error : PollerError J) (runs : List (DurableRun J)) : PollerError J :=
  if runs.isEmpty then error else .partialBatch runs error

/-- The runs that a failed batch still delivers, and its cause. -/
def deliverRuns : PollerError J → List (DurableRun J) × PollerError J
  | .partialBatch runs source => (runs ++ source.deliverRuns.1, source.deliverRuns.2)
  | error => ([], error)

def isRetryable : PollerError J → Bool
  | .partialBatch _ source => source.isRetryable
  | .registry (.store error) | .dispatch (.store error) => error.isRetryable
  | _ => false

end PollerError

/-- The dispatch loop of `poll_batch`: programs not dispatched yet, tasks in flight, runs
collected so far and the first failure. -/
structure Batch (J : Type) where
  programs : List (TaskId × String)
  inFlight : List TaskId
  runs : List (DurableRun J)
  failure : Option (PollerError J)

/-- What a dispatched task hands back: a run, nothing when it was not claimed, or an error. -/
abbrev Joined (J : Type) := Except (PollerError J) (Option (DurableRun J))

namespace Batch

/-- The condition of the inner loop, for any limit on the tasks in flight. -/
def hasRoom (limit batchSize : ℕ) (b : Batch J) : Bool :=
  b.failure.isNone && b.inFlight.length < limit && b.runs.length + b.inFlight.length < batchSize

/-- The inner loop over the programs not dispatched yet. -/
def fillFrom (limit batchSize : ℕ) (b : Batch J) : List (TaskId × String) → Batch J
  | [] => { b with programs := [] }
  | program :: rest =>
    if b.hasRoom limit batchSize then
      fillFrom limit batchSize { b with inFlight := b.inFlight ++ [program.1] } rest
    else { b with programs := program :: rest }

/-- Dispatch while there is room; a cancelled poller dispatches nothing more. -/
def fill (limit batchSize : ℕ) (cancelled : Bool) (b : Batch J) : Batch J :=
  if cancelled then b else b.fillFrom limit batchSize b.programs

def fail (b : Batch J) (error : PollerError J) : Batch J :=
  { b with failure := some (b.failure.getD error) }

/-- The next task in flight has ended with this result. -/
def collect (b : Batch J) (task : TaskId) (joined : Joined J) : Batch J :=
  let b := { b with inFlight := b.inFlight.erase task }
  match joined with
  | .ok (some run) =>
    match run.result with
    | .error (.store error) => b.fail (.dispatch (.store error))
    | _ => { b with runs := b.runs ++ [run] }
  | .ok none => b
  | .error error => b.fail error

/-- One turn of the outer loop: the shutdown flag, the task that ends next and its result. -/
structure Turn (J : Type) where
  cancelled : Bool
  task : TaskId
  joined : Joined J

def turnWithin (limit batchSize : ℕ) (b : Batch J) (t : Turn J) : Batch J :=
  (b.fill limit batchSize t.cancelled).collect t.task t.joined

def turn (batchSize : ℕ) (b : Batch J) (t : Turn J) : Batch J :=
  b.turnWithin maxPollConcurrency batchSize t

/-- The whole loop: every turn joins a task in flight, and after the last turn (with the shutdown
flag `last`) nothing is in flight. -/
inductive Loop (limit batchSize : ℕ) (last : Bool) : Batch J → List (Turn J) → Batch J → Prop
  | done {b : Batch J} (h : (b.fill limit batchSize last).inFlight = []) :
      Loop limit batchSize last b [] (b.fill limit batchSize last)
  | join {b b' : Batch J} {t : Turn J} {turns : List (Turn J)}
      (h : t.task ∈ (b.fill limit batchSize t.cancelled).inFlight)
      (rest : Loop limit batchSize last (b.turnWithin limit batchSize t) turns b') :
      Loop limit batchSize last b (t :: turns) b'

def result (b : Batch J) : Except (PollerError J) (List (DurableRun J)) :=
  match b.failure with
  | some error => .error (error.withRuns b.runs)
  | none => .ok b.runs

end Batch

/-- `poll_batch` from the outcome of its retry pass (`none` is a panic of the pass), the
snapshot of the programs, the cursor and the turns of its loop. -/
def pollWithin (limit batchSize cursor : ℕ) (retried : Option (Retried J))
    (snapshot : Except (PollerError J) (List (TaskId × String))) (turns : List (Batch.Turn J)) :
    Except (PollerError J) (List (DurableRun J)) :=
  match retried with
  | none => .error .join
  | some (runs, some error) => .error (PollerError.withRuns (.dispatch error) runs)
  | some (completed, none) =>
    match snapshot with
    | .error error => .error (error.withRuns completed)
    | .ok programs =>
      (turns.foldl (Batch.turnWithin limit batchSize)
        ⟨programs.rotate (cursor % programs.length), [], completed, none⟩).result

def pollBatch (batchSize cursor : ℕ) (retried : Option (Retried J))
    (snapshot : Except (PollerError J) (List (TaskId × String))) (turns : List (Batch.Turn J)) :
    Except (PollerError J) (List (DurableRun J)) :=
  pollWithin maxPollConcurrency batchSize cursor retried snapshot turns

/-- `cursor.fetch_add(batch_size)`, which wraps around, over a nonempty snapshot. -/
def nextCursor (batchSize : ℕ) (programs : List (TaskId × String)) (cursor : ℕ) : ℕ :=
  if programs.isEmpty then cursor else (cursor + batchSize) % 2 ^ 64

def registrySnapshot (programs : Table TaskId String) : List (TaskId × String) :=
  (programs.entries.map fun e => (e.1, e.2)).insertionSort fun a b => a.1 ≤ b.1

/-- What a poll finds in its source: the registry, unless its lock is poisoned, or the result of
a scan of the store, unless the scanning thread panicked. -/
inductive ProgramSource where
  | memory (programs : Option (Table TaskId String))
  | persistent (scan : Option (Except ProgramRegistryError (List (TaskId × String))))

def ProgramSource.snapshot : ProgramSource → Except (PollerError J) (List (TaskId × String))
  | .memory (some programs) => .ok (registrySnapshot programs)
  | .memory none => .error (.registry .poisoned)
  | .persistent none => .error .join
  | .persistent (some scan) => scan.mapError .registry

inductive PollerHealth where
  | healthy
  | recovering (attempt : ℕ)
  | failed
  deriving DecidableEq, Repr

/-- The attempt counter, the reported health and the delivered runs of `run_supervised`. -/
structure Supervisor (J : Type) where
  attempt : ℕ
  health : List PollerHealth
  delivered : List (DurableRun J)

/-- One round of the loop on the result of its batch; an error ends `run_supervised`. -/
def Supervisor.round (s : Supervisor J) :
    Except (PollerError J) (List (DurableRun J)) → Except (PollerError J) (Supervisor J)
  | .ok runs => .ok
      { attempt := 0
        health := if 0 < s.attempt then s.health ++ [.healthy] else s.health
        delivered := s.delivered ++ runs }
  | .error error =>
    if error.deliverRuns.2.isRetryable then .ok
      { attempt := min (s.attempt + 1) (2 ^ 32 - 1)
        health := s.health ++ [.recovering (min (s.attempt + 1) (2 ^ 32 - 1))]
        delivered := s.delivered ++ error.deliverRuns.1 }
    else .error error.deliverRuns.2

def runSupervised (batches : List (Except (PollerError J) (List (DurableRun J)))) :
    Except (PollerError J) (Supervisor J) :=
  batches.foldlM Supervisor.round ⟨0, [], []⟩

end Tysel.Runtime
