import Tysel.Shared.Related
import Tysel.Algorithm.Durable.Trait
import Tysel.Verification.Durable.Commits

/-! Signal ids come from another sequence, and lock rows come on top. The checks that both stores
run in front of their statements agree on mirrored tables. -/

namespace Tysel.Durable

open List Table Db

variable {J : Type} {nv : ℕ → ℕ}

def InboxRow.rename (nv : ℕ → ℕ) (row : InboxRow) : InboxRow := { row with id := nv row.id }

def ReceiptRow.rename (nv : ℕ → ℕ) (row : ReceiptRow) : ReceiptRow :=
  { row with signalId := nv row.signalId }

/-- The tables with every signal id replaced by the id the sequence gave it. -/
def Db.rename (nv : ℕ → ℕ) (db : Db) : Db :=
  { db with
    signalInbox := db.signalInbox.map (InboxRow.rename nv)
    signalReceipts := db.signalReceipts.map (ReceiptRow.rename nv) }

namespace Db

section

variable (nv : ℕ → ℕ) (db : Db) (t : TaskId)

theorem inboxOf_rename : (db.rename nv).inboxOf t = (db.inboxOf t).map (InboxRow.rename nv) :=
  filter_map

theorem receiptsOf_rename :
    (db.rename nv).receiptsOf t = (db.receiptsOf t).map (ReceiptRow.rename nv) :=
  filter_map

theorem receipt?_rename (key : String) :
    (db.rename nv).receipt? t key = (db.receipt? t key).map (ReceiptRow.rename nv) := by
  unfold receipt?
  rw [receiptsOf_rename, find?_map]
  rfl

theorem pendingBytes_rename : (db.rename nv).pendingBytes t = db.pendingBytes t := by
  unfold pendingBytes
  rw [inboxOf_rename, map_map]
  rfl

theorem retainedBytes_rename (row : CompletionRow) :
    (db.rename nv).retainedBytes t row = db.retainedBytes t row := by
  unfold retainedBytes
  rw [pendingBytes_rename, receiptsOf_rename, map_map]
  rfl

end

/-- The oldest signal of a name is the same signal: the sequence preserves the order of ids. -/
theorem oldestSignal_rename (hmono : StrictMono nv) (db : Db) (t : TaskId) (name : String) :
    (db.rename nv).oldestSignal t name = (db.oldestSignal t name).map (InboxRow.rename nv) := by
  unfold oldestSignal
  rw [inboxOf_rename, filter_map, ← head?_map]
  refine congrArg head? (Eq.symm (map_insertionSort _ _ _ _ fun a _ b _ => ?_))
  exact hmono.le_iff_le.symm

theorem deleteSignal_rename (hmono : StrictMono nv) (db : Db) (id : ℕ) :
    (db.rename nv).deleteSignal (nv id) = (db.deleteSignal id).rename nv := by
  have hrows : (db.signalInbox.map (InboxRow.rename nv)).filter
      (fun row => row.id ≠ nv id) =
        (db.signalInbox.filter fun row => row.id ≠ id).map (InboxRow.rename nv) := by
    rw [filter_map]
    congr 1
    refine filter_congr fun row _ => ?_
    simp [InboxRow.rename, hmono.injective.eq_iff]
  unfold deleteSignal rename
  rw [hrows]

end Db

def Answer.rename (nv : ℕ → ℕ) : Answer J → Answer J
  | .reply (.signalId id) => .reply (.signalId (nv id))
  | answer => answer

/-- `pg` holds the tables of `db`, and a lock row for every task with an execution row. -/
structure PostgresDb.Mirrors (nv : ℕ → ℕ) (pg : PostgresDb) (db : Db) : Prop where
  tables : pg.tables = db.rename nv
  locked : ∀ t, (db.executions.get? t).isSome → t ∈ pg.taskLocks

/-- Equal values up to `f`, and stores that still mirror each other. -/
structure Matches {α : Type} (nv : ℕ → ℕ) (f : α → α) (p : α × Db) (q : α × PostgresDb) :
    Prop where
  value : q.1 = f p.1
  store : q.2.Mirrors nv p.2

def DurableError.SameVariant (e e' : DurableError) : Prop := e.ctorIdx = e'.ctorIdx

instance (e e' : DurableError) : Decidable (e.SameVariant e') := inferInstanceAs (Decidable (_ = _))

section Simulation

variable {R : DurableError → DurableError → Prop} {pg : PostgresDb} {db : Db} {t : TaskId}

namespace PostgresDb.Mirrors

section

variable (h : pg.Mirrors nv db)

include h

theorem eq : ∃ locks, pg = ⟨db.rename nv, locks⟩ := ⟨pg.taskLocks, by rw [← h.tables]⟩

theorem lockRow (t : TaskId) : (pg.lockRow t).Mirrors nv db :=
  ⟨h.tables, fun u ht => Finset.mem_insert_of_mem (h.locked u ht)⟩

/-- Statements on the shared tables that leave the execution rows alone. -/
theorem write {tables db' : Db} (ht : tables = db'.rename nv)
    (hsame : db'.executions = db.executions) : (pg.write tables).Mirrors nv db' :=
  ⟨ht, fun u hs => h.locked u (hsame ▸ hs)⟩

theorem writeRenamed (db' : Db) (hsame : db'.executions = db.executions) :
    (pg.write (db'.rename nv)).Mirrors nv db' :=
  h.write rfl hsame

theorem writeExecution {tables db' : Db} (ht : tables = db'.rename nv)
    (hlock : t ∈ pg.taskLocks) (hsame : ∀ u, u ≠ t → db'.executions.get? u = db.executions.get? u) :
    (pg.write tables).Mirrors nv db' := by
  refine ⟨ht, fun u hs => ?_⟩
  by_cases htask : u = t
  · exact htask ▸ hlock
  · exact h.locked u (hsame u htask ▸ hs)

theorem closeExecution (t : TaskId) (state : ExecutionState) :
    (pg.write (pg.tables.closeExecution t state)).Mirrors nv
      (db.closeExecution t state) := by
  refine ⟨by rw [h.tables]; rfl, fun u ht => h.locked u ?_⟩
  change ((db.executions.modify t _).get? u).isSome at ht
  rw [get?_modify] at ht
  split at ht
  · rename_i heq
    simpa [heq] using ht
  · exact ht

theorem deleteTask (t : TaskId) :
    (pg.write (pg.tables.deleteTask t)).Mirrors nv (db.deleteTask t) := by
  refine ⟨?_, fun u ht => h.locked u ?_⟩
  · unfold Db.deleteTask
    rw [h.tables]
    dsimp only [rename]
    rw [filter_map, filter_map]
    rfl
  change (get? (AList.erase t db.executions) u).isSome at ht
  rw [get?_erase] at ht
  split at ht
  · cases ht
  · exact ht

end

end PostgresDb.Mirrors

theorem lockTask_bind {β : Type} (pg : PostgresDb) (t : TaskId)
    (g : PostgresDb → Except DurableError β) : (Postgres.lockTask pg t >>= g) =
      (ensureOpen pg.tables t >>= fun _ => g (pg.lockRow t)) := by
  have hlock : Postgres.lockTask pg t =
      (ensureOpen pg.tables t >>= fun _ => .ok (pg.lockRow t)) := rfl
  rw [hlock]
  cases ensureOpen pg.tables t <;> rfl

/-- The guards of the two stores. Without a lock row there is no execution row, so the SQLite
guard fails as well. -/
theorem guardExecution_related (hR : ∀ e, R e e) (h : pg.Mirrors nv db)
    (execution : Option ExecutionClaim) (t : TaskId) (clock : ℤ)
    (hlock : execution.isSome → t ∉ pg.taskLocks → ∀ e, R e .postgres) :
    Related R (fun _ _ => True) (guardExecution execution db t clock)
      (Postgres.guardExecution execution pg t clock) := by
  cases execution with
  | none => exact .ok trivial
  | some c =>
    by_cases hmem : t ∈ pg.taskLocks
    · have hsame : Postgres.guardExecution (some c) pg t clock =
          guardExecution (some c) db t clock := by
        unfold Postgres.guardExecution guardExecution
        rw [reject_of_not _ (not_not.mpr hmem), h.tables]
        rfl
      rw [hsame]
      exact .refl hR (fun _ => trivial) _
    have hpg : Postgres.guardExecution (some c) pg t clock = .error .postgres := by
      unfold Postgres.guardExecution
      rw [reject_of _ hmem]
      rfl
    rw [hpg]
    cases hguard : guardExecution (some c) db t clock with
    | error e => exact .error (hlock rfl hmem e)
    | ok =>
      obtain ⟨-, -, -, -, _, hr, -⟩ :=
        ExecutionClaim.passes_iff.mp (guardExecution_ok.mp hguard c rfl)
      exact absurd (h.locked t (by simp [hr])) hmem

theorem insertEvent_related (hR : ∀ e, R e e) (h : pg.Mirrors nv db) (t : TaskId)
    (expected : ℕ) (event : NewEvent J) (payload : String) (time : ℕ) :
    Related R (fun p q => Matches nv id p q ∧ t ∈ q.2.taskLocks)
      (insertEvent db t (some expected) event payload time)
      (Postgres.insertEvent pg t expected event payload time) := by
  obtain ⟨_, rfl⟩ := h.eq
  unfold insertEvent Postgres.insertEvent
  rw [lockTask_bind]
  refine .same hR fun _ _ => .same hR fun _ _ => .same hR fun _ _ => .same hR fun _ _ => .ok ?_
  exact ⟨⟨rfl, (h.lockRow t).write rfl rfl⟩, Finset.mem_insert_self ..⟩

end Simulation

end Tysel.Durable
