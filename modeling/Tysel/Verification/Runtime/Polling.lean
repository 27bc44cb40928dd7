import Mathlib.Data.List.Rotate
import Tysel.Verification.Runtime.Retained

/-! Every run that a retry pass or a dispatch hands to a poll reaches `on_run` once, whichever part
of the poll fails, because a failed batch carries its runs in its error. A poll over a registry
sends the next programs in turn, at least a batch of them, and the cursor moves on by a batch, so
`⌈n / b⌉` polls go round the registry, as long as the cursor does not wrap around. -/

namespace Tysel.Runtime

open Tysel.Durable List Except Nat Prod Function PollerError Batch Turn
open Batch (Turn Loop turnWithin collect)

variable {J : Type} {limit k : ℕ} {e : PollerError J} {progs : List (TaskId × String)}
  {cursor : ℕ}

/-! ## Polls -/

/-- Everything that a poll meets: the cursor, the outcome of its retry pass, its source of
programs, the turns of its loop, and the shutdown flag when the loop ends. -/
structure Poll (J : Type) where
  cursor : ℕ
  retried : Option (Retried J)
  source : ProgramSource
  turns : List (Turn J)
  last : Bool

namespace Poll

def result (limit k : ℕ) (p : Poll J) : Except (PollerError J) (List (DurableRun J)) :=
  pollWithin limit k p.cursor p.retried p.source.snapshot p.turns

/-- The batch that the loop starts with, if the retry pass and the snapshot succeed. -/
def start (p : Poll J) : Option (Batch J) :=
  match p.retried, (p.source.snapshot : Except (PollerError J) _) with
  | some (completed, none), .ok progs =>
    some ⟨progs.rotate (p.cursor % progs.length), [], completed, none⟩
  | _, _ => none

def Dispatched (limit k : ℕ) (p : Poll J) (sent : List (TaskId × String)) : Prop :=
  ∃ b final, p.start = some b ∧ Loop limit k p.last b p.turns final ∧
    b.programs = sent ++ final.programs

/-- A poll as `poll_batch` can run it: it stops early without a turn, or its loop runs to its end.
A task that does not hand back a run has failed to join or to dispatch. -/
structure Ran (limit k : ℕ) (p : Poll J) : Prop where
  stopped : p.start = none → p.turns = []
  loop : p.start.isSome → ∃ sent, p.Dispatched limit k sent
  errors : ∀ u ∈ p.turns, ∀ e, u.joined = .error e → e = .join ∨ ∃ d, e = .dispatch d

end Poll

def Batch.Turn.run? (u : Turn J) : Option (DurableRun J) := u.joined.toOption.join

def Poll.produced (p : Poll J) : List (DurableRun J) :=
  p.retried.elim [] Prod.fst ++ p.turns.filterMap run?

def DurableRun.isStorageError (run : DurableRun J) : Bool :=
  match run.result with
  | .error (.store _) => true
  | _ => false

def deliveredBy : Except (PollerError J) (List (DurableRun J)) → List (DurableRun J)
  | .ok runs => runs
  | .error e => e.deliverRuns.1

def goesOn : Except (PollerError J) (List (DurableRun J)) → Bool
  | .ok _ => true
  | .error e => e.deliverRuns.2.isRetryable

/-- The polls that `run_supervised` gets to: it stops after an error that is not retryable. -/
def supervised (limit k : ℕ) : List (Poll J) → List (Poll J)
  | [] => []
  | p :: rest => p :: if goesOn (p.result limit k) then supervised limit k rest
      else []

/-- The runs that `run_supervised` passes to `on_run`, in order. -/
def delivered (limit k : ℕ) (polls : List (Poll J)) : List (DurableRun J) :=
  (supervised limit k polls).flatMap fun p => deliveredBy (p.result limit k)

theorem mem_of_supervised {polls : List (Poll J)} {p : Poll J}
    (h : p ∈ supervised limit k polls) : p ∈ polls := by
  induction polls with
  | nil => exact h
  | cons _ _ ih =>
    rcases mem_cons.mp h with rfl | hrest
    · exact mem_cons_self ..
    · split at hrest
      · exact mem_cons_of_mem _ (ih hrest)
      · cases hrest

theorem foldlM_round_delivered {polls : List (Poll J)} {s s' : Supervisor J}
    (h : (polls.map (Poll.result limit k)).foldlM Supervisor.round s = .ok s') :
    s'.delivered = s.delivered ++ delivered limit k polls := by
  induction polls generalizing s with
  | nil =>
    obtain rfl := ok.inj h
    simp [delivered, supervised]
  | cons p _ ih =>
    rw [map_cons, foldlM_cons, bind_ok] at h
    obtain ⟨next, hround, hrest⟩ := h
    have hgoes : goesOn (p.result limit k) ∧
        next.delivered = s.delivered ++ deliveredBy (p.result limit k) := by
      cases hresult : p.result limit k with
      | ok =>
        rw [hresult] at hround
        obtain rfl := ok.inj hround
        exact ⟨rfl, rfl⟩
      | error =>
        rw [hresult, Supervisor.round] at hround
        split at hround
        · rename_i hretry
          obtain rfl := ok.inj hround
          exact ⟨hretry, rfl⟩
        · cases hround
    rw [ih hrest, hgoes.2]
    simp [delivered, supervised, hgoes.1]

/-! ## Outcomes -/

def PollerError.Plain : PollerError J → Prop
  | .partialBatch .. => False
  | _ => True

theorem PollerError.Plain.deliverRuns (h : e.Plain) : e.deliverRuns = ([], e) := by
  cases e with
  | partialBatch => exact h.elim
  | _ => rfl

theorem PollerError.Plain.withRuns_deliverRuns (h : e.Plain)
    (runs : List (DurableRun J)) : (e.withRuns runs).deliverRuns.1 = runs := by
  unfold withRuns
  cases runs with
  | nil => simp [h.deliverRuns]
  | cons => simp [PollerError.deliverRuns, h.deliverRuns]

theorem DurableRun.isStorageError_eq_false {run : DurableRun J}
    (h : ∀ e, run.result ≠ .error (.store e)) : run.isStorageError = false := by
  unfold DurableRun.isStorageError
  split
  · rename_i hstore
    exact absurd hstore (h _)
  · rfl

theorem turnWithin_runs (b : Batch J) (u : Turn J) : (b.turnWithin limit k u).runs =
      b.runs ++ u.run?.toList.filter fun run => !run.isStorageError := by
  rw [← fill_runs limit k u.cancelled b]
  unfold turnWithin run?
  fun_cases collect (b.fill limit k u.cancelled) u.task u.joined with
  | case1 b' run _ hstore =>
    have hstorage : run.isStorageError = true := by simp [DurableRun.isStorageError, hstore]
    simp [b', Except.toOption, hstorage, fail]
  | case2 b' _ hother =>
    simp [b', Except.toOption, DurableRun.isStorageError_eq_false hother]
  | case3 b' | case4 b' => simp [b', fail, Except.toOption]

theorem turns_runs (turns : List (Turn J)) (b : Batch J) :
    (turns.foldl (turnWithin limit k) b).runs =
      b.runs ++ (turns.filterMap run?).filter fun run => !run.isStorageError := by
  induction turns generalizing b with
  | nil => simp
  | cons u _ ih =>
    rw [foldl_cons, ih, turnWithin_runs, append_assoc, ← filter_append]
    cases hrun : u.run? <;> simp [hrun]

variable {b : Batch J}

theorem turnWithin_plain {u : Turn J} (hb : ∀ e, b.failure = some e → e.Plain)
    (ht : ∀ e, u.joined = .error e → e = .join ∨ ∃ d, e = .dispatch d) :
    ∀ e, (b.turnWithin limit k u).failure = some e → e.Plain := by
  rw [← fill_failure limit k u.cancelled b] at hb
  have hfail : ∀ c : Batch J, ∀ e' : PollerError J, e'.Plain →
      c.failure = (b.fill limit k u.cancelled).failure →
      ∀ e, (c.fail e').failure = some e → e.Plain := by
    intro c e' he' hc e he
    obtain rfl := Option.some.inj he
    rw [hc]
    cases hfailure : (b.fill limit k u.cancelled).failure with
    | none => exact he'
    | some first => exact hb first hfailure
  unfold turnWithin collect
  cases hjoined : u.joined with
  | error e' =>
    refine hfail _ e' ?_ rfl
    rcases ht e' hjoined with rfl | ⟨d, rfl⟩ <;> trivial
  | ok run? =>
    cases run? with
    | none => exact hb
    | some =>
      dsimp only
      split
      · exact hfail _ _ trivial rfl
      · exact hb

variable {turns : List (Turn J)} {final : Batch J}

theorem turns_plain (hb : ∀ e, b.failure = some e → e.Plain)
    (ht : ∀ u ∈ turns, ∀ e, u.joined = .error e → e = .join ∨ ∃ d, e = .dispatch d) :
    ∀ e, (turns.foldl (turnWithin limit k) b).failure = some e → e.Plain := by
  induction turns generalizing b with
  | nil => exact hb
  | cons u _ ih =>
    exact ih (turnWithin_plain hb (ht u (mem_cons_self ..)))
      fun t' h' => ht t' (mem_cons_of_mem _ h')

theorem result_delivers (h : ∀ e, b.failure = some e → e.Plain) :
    deliveredBy b.result = b.runs := by
  unfold result
  cases hfailure : b.failure with
  | none => rfl
  | some e => exact (h e hfailure).withRuns_deliverRuns b.runs

theorem snapshot_plain {source : ProgramSource} (h : source.snapshot = .error e) : e.Plain := by
  unfold ProgramSource.snapshot at h
  split at h
  · cases h
  · cases h
    trivial
  · cases h
    trivial
  · rename_i scan
    cases scan <;> cases h
    trivial

/-- A poll delivers what it has produced, apart from errors of the store. -/
theorem poll_delivers {p : Poll J} (h : p.Ran limit k) :
    (deliveredBy (p.result limit k)).filter (fun run => !run.isStorageError) =
      p.produced.filter fun run => !run.isStorageError := by
  have hstopped := h.stopped
  unfold Poll.start at hstopped
  unfold Poll.result pollWithin Poll.produced
  cases hretried : p.retried with
  | none =>
    rw [hretried] at hstopped
    simp [hstopped, deliveredBy, deliverRuns]
  | some retried =>
    obtain ⟨_, error?⟩ := retried
    cases error? with
    | some error =>
      rw [hretried] at hstopped
      have hplain : Plain (dispatch error : PollerError J) := trivial
      simp [hstopped, deliveredBy, hplain.withRuns_deliverRuns]
    | none =>
      cases hsnapshot : p.source.snapshot with
      | error =>
        rw [hsnapshot] at hstopped
        simp [hstopped, deliveredBy, (snapshot_plain hsnapshot).withRuns_deliverRuns]
      | ok =>
        rw [result_delivers (turns_plain (by simp) h.errors), turns_runs]
        simp

/-! ## Dispatches -/

/-- A turn joins one task and sends nothing after the batch is filled. -/
theorem turnWithin_joins (b : Batch J) (u : Turn J) :
    (b.turnWithin limit k u).inFlight = (b.fill limit k u.cancelled).inFlight.erase u.task ∧
      (b.turnWithin limit k u).programs = (b.fill limit k u.cancelled).programs := by
  unfold turnWithin
  fun_cases collect (b.fill limit k u.cancelled) u.task u.joined <;> exact ⟨rfl, rfl⟩

/-- The loop sends a front part of its programs, and joins what it has sent and what was in
flight, each once. -/
theorem Batch.Loop.joins {last : Bool} (h : Loop limit k last b turns final) :
    ∃ sent, b.programs = sent ++ final.programs ∧
      (turns.map task).Perm (b.inFlight ++ sent.map fst) := by
  induction h with
  | @done b hempty =>
    obtain ⟨front, _, hprograms, hfill, -⟩ := fill_spec limit k last b
    rw [hfill] at hempty ⊢
    refine ⟨front, hprograms, ?_⟩
    rw [show b.inFlight ++ front.map fst = [] from hempty]
    exact .refl _
  | @join b _ u _ hflight _ ih =>
    obtain ⟨front, _, hprograms, hfill, -⟩ := fill_spec limit k u.cancelled b
    obtain ⟨sent, hsent, hperm⟩ := ih
    rw [(turnWithin_joins b u).2, hfill] at hsent
    rw [(turnWithin_joins b u).1] at hperm
    rw [hfill] at hperm hflight
    refine ⟨front ++ sent, ?_, ?_⟩
    · rw [hprograms, append_assoc, ← hsent]
    · refine (hperm.cons u.task).trans ?_
      rw [map_append, ← append_assoc]
      exact (perm_cons_erase hflight).symm.append_right _

theorem Poll.Dispatched.joined {p : Poll J} {sent : List (TaskId × String)}
    (h : p.Dispatched limit k sent) : (p.turns.map task).Perm (sent.map fst) := by
  obtain ⟨b, _, hstart, hloop, hprograms⟩ := h
  obtain ⟨sent', hsent', hperm⟩ := hloop.joins
  obtain rfl : sent = sent' := append_cancel_right (hprograms.symm.trans hsent')
  have hflight : b.inFlight = [] := by
    unfold Poll.start at hstart
    split at hstart
    · rw [← Option.some.inj hstart]
    · cases hstart
  rwa [hflight, nil_append] at hperm

/-- Without cancellation or a failure the loop ends with no program left or with a full batch: the
runs, the tasks in flight and the programs sent are never fewer than before. -/
theorem Batch.Loop.fills (hlimit : 0 < limit) (h : Loop limit k false b turns final)
    (hcancelled : ∀ u ∈ turns, u.cancelled = false) (hfinal : final.failure = none) :
    ∃ sent, b.programs = sent ++ final.programs ∧ (final.programs = [] ∨
        k ≤ b.runs.length + b.inFlight.length + sent.length) := by
  induction h with
  | @done b hempty =>
    obtain ⟨front, _, hprograms, hfill, hstop⟩ := fill_spec limit k false b
    rw [hfill] at hempty hfinal hstop ⊢
    refine ⟨front, hprograms, (hstop.resolve_left (by simp)).imp_right fun hroom => ?_⟩
    have hnone : b.failure = none := hfinal
    have hflight : (b.inFlight ++ front.map fst).length = 0 := length_eq_zero_iff.mpr hempty
    simp only [hasRoom, hnone, hflight, hlimit, Option.isNone_none, decide_true,
      Bool.true_and, add_zero, decide_eq_false_iff_not, not_lt] at hroom
    omega
  | @join b _ u _ hflight _ ih =>
    obtain ⟨front, _, hprograms, hfill, -⟩ := fill_spec limit k u.cancelled b
    obtain ⟨sent, hsent, hbound⟩ := ih (fun t' h' => hcancelled t' (mem_cons_of_mem _ h')) hfinal
    rw [(turnWithin_joins b u).2, hfill] at hsent
    refine ⟨front ++ sent, by rw [hprograms, append_assoc, ← hsent], hbound.imp_right ?_⟩
    have hruns : (b.turnWithin limit k u).runs.length ≤ b.runs.length + 1 := by
      rw [turnWithin_runs, length_append]
      have := length_filter_le (fun run => !run.isStorageError) u.run?.toList
      have : u.run?.toList.length ≤ 1 := by cases u.run? <;> simp
      omega
    have hless := length_erase_of_mem hflight
    rw [← (turnWithin_joins b u).1, hfill] at hless
    have hpos := length_pos_of_mem hflight
    rw [hfill] at hpos
    simp only [length_append, length_map] at hless hpos ⊢
    omega

/-! ## Fairness -/

/-- A poll that succeeds, without retained completions and without cancellation. -/
structure Poll.Calm (limit k : ℕ) (p : Poll J) : Prop where
  ran : p.Ran limit k
  retried : p.retried = some ([], none)
  last : p.last = false
  cancelled : ∀ u ∈ p.turns, u.cancelled = false
  succeeds : ∃ runs, p.result limit k = .ok runs

theorem registrySnapshot_perm (progs : Table TaskId String) :
    (registrySnapshot progs).Perm (progs.entries.map fun e => (e.1, e.2)) :=
  perm_insertionSort ..

theorem mem_registrySnapshot {progs : Table TaskId String} {t : TaskId} {script : String} :
    (t, script) ∈ registrySnapshot progs ↔ progs.get? t = some script := by
  rw [(registrySnapshot_perm progs).mem_iff, mem_map, ← Table.mem_entries]
  constructor
  · rintro ⟨⟨_, _⟩, hmem, heq⟩
    obtain ⟨rfl, rfl⟩ := mk.inj heq
    exact hmem
  · intro hmem
    exact ⟨_, hmem, rfl⟩

/-- The loop leaves the batch that its turns lead to, with nothing more in flight. -/
theorem Batch.Loop.failure_eq {last : Bool} (h : Loop limit k last b turns final) :
    final.failure = (turns.foldl (turnWithin limit k) b).failure := by
  induction h with
  | done => exact fill_failure ..
  | join _ _ ih => exact ih

/-- A calm poll sends the programs from the cursor on, at least a batch of them or all. -/
theorem Poll.Calm.sends {p : Poll J} (h : p.Calm limit k) (hlimit : 0 < limit)
    (hprograms : p.source.snapshot (J := J) = .ok progs) :
    ∃ sent rest, p.Dispatched limit k sent ∧ progs.rotate (p.cursor % progs.length) = sent ++ rest ∧
      (rest = [] ∨ k ≤ sent.length) := by
  have hstart : p.start = some ⟨progs.rotate (p.cursor % progs.length), [], [], none⟩ := by
    unfold Poll.start
    rw [h.retried, hprograms]
  obtain ⟨sent, _, final, hb, hloop, hsent⟩ := h.ran.loop (by simp [hstart])
  obtain rfl := Option.mem_unique hstart hb
  have hnone : final.failure = none := by
    obtain ⟨_, hruns⟩ := h.succeeds
    unfold Poll.result pollWithin Batch.result at hruns
    rw [h.retried, hprograms] at hruns
    rw [hloop.failure_eq]
    dsimp only at hruns
    split at hruns
    · cases hruns
    · assumption
  have hloop' := hloop
  rw [h.last] at hloop'
  obtain ⟨sent', hsent', hbound⟩ := hloop'.fills hlimit h.cancelled hnone
  obtain rfl : sent = sent' := append_cancel_right (hsent.symm.trans hsent')
  exact ⟨sent, final.programs, ⟨_, final, hstart, hloop, hsent⟩, hsent, by simpa using hbound⟩

theorem nextCursor_iterate (hne : progs ≠ []) (hcursor : cursor < 2 ^ 64) (i : ℕ) :
    (nextCursor k progs)^[i] cursor = (cursor + i * k) % 2 ^ 64 := by
  induction i with
  | zero => rw [Nat.zero_mul, add_zero, mod_eq_of_lt hcursor, iterate_zero_apply]
  | succ _ ih =>
    rw [iterate_succ_apply', ih, nextCursor, if_neg (by simpa using hne),
      mod_add_mod, succ_mul, add_assoc]

/-- The position `j` of a ring of length `n` is in the window of a batch that starts `i` batches
after `start`, for some `i < ⌈n / b⌉`. -/
theorem exists_window (start : ℕ) {n j : ℕ} (hbatch : 0 < k) (hj : j < n) :
    ∃ i < (n + k - 1) / k, ∃ offset < k, offset < n ∧ (start + i * k + offset) % n = j := by
  -- The distance from the start to the position, around the ring.
  set distance := (j + (n - start % n)) % n with hdistance
  have hn : 0 < n := by omega
  have hlt : distance < n := mod_lt _ hn
  have hreach : (start + distance) % n = j := by
    have hmod := mod_lt start hn
    calc (start + distance) % n = (start % n + (j + (n - start % n))) % n := by
          rw [hdistance, add_mod_mod, mod_add_mod]
      _ = (j + n) % n := by congr 1; omega
      _ = j := by rw [add_mod_right, mod_eq_of_lt hj]
  refine ⟨distance / k, ?_, distance % k, mod_lt _ hbatch, (mod_le _ _).trans_lt hlt, ?_⟩
  · rw [div_lt_iff_lt_mul hbatch]
    have := div_add_mod (n + k - 1) k
    have hrest := mod_lt (n + k - 1) hbatch
    rw [mul_comm] at this
    omega
  · rw [add_assoc, mul_comm, div_add_mod, hreach]

/-- Consecutive polls over a fixed registry, none of which fails, is cancelled or meets a retained
completion. -/
structure CalmPolls (limit k : ℕ) (progs : Table TaskId String) (cursor count : ℕ)
    (polls : ℕ → Poll J) : Prop where
  calm : ∀ i < count, (polls i).Calm limit k
  source : ∀ i < count, (polls i).source = .memory (some progs)
  cursor : ∀ i < count, (polls i).cursor = (nextCursor k (registrySnapshot progs))^[i] cursor

/-- The number of polls that go once round `n` programs. -/
def roundsFor (k n : ℕ) : ℕ := (n + k - 1) / k

/-- Every run that a retry pass or a dispatch produces is delivered once, unless it is an error
of the store: the dispatches are joined once each, and whatever fails, the runs passed to `on_run`
are those produced by the polls that `run_supervised` gets to. And `⌈n / b⌉` calm polls of a
registry of `n` programs dispatch every program, unless the cursor wraps around. -/
theorem polling_delivers_and_is_fair (J : Type) (limit k : ℕ) (hlimit : 0 < limit)
    (hbatch : 0 < k) : (∀ polls : List (Poll J), (∀ p ∈ polls, p.Ran limit k) →
      (delivered limit k polls).filter (fun run => !run.isStorageError) =
        ((supervised limit k polls).flatMap Poll.produced).filter
          fun run => !run.isStorageError) ∧
    (∀ (polls : List (Poll J)) s, runSupervised (polls.map (Poll.result limit k)) = .ok s →
      s.delivered = delivered limit k polls) ∧
    (∀ (p : Poll J) sent, p.Dispatched limit k sent → (p.turns.map task).Perm (sent.map Prod.fst)) ∧
    ∀ (progs : Table TaskId String) (cursor : ℕ) (polls : ℕ → Poll J),
      CalmPolls limit k progs cursor (roundsFor k progs.entries.length)
        polls → cursor + (roundsFor k progs.entries.length - 1) * k < 2 ^ 64 →
      ∀ t script, progs.get? t = some script → ∃ i < roundsFor k progs.entries.length, ∃ sent,
          (polls i).Dispatched limit k sent ∧ (t, script) ∈ sent := by
  refine ⟨fun polls hran => ?_, fun polls s hrun => foldlM_round_delivered hrun,
    fun p sent hsent => ?_, ?_⟩
  · rw [delivered, filter_flatMap, filter_flatMap]
    exact flatMap_congr fun p hp => poll_delivers (hran p (mem_of_supervised hp))
  · exact hsent.joined
  intro progs cursor polls hpolls hwrap t script hmem
  have hsnapshot := mem_registrySnapshot.mpr hmem
  have hlength : (registrySnapshot progs).length = progs.entries.length := by
    rw [(registrySnapshot_perm progs).length_eq, length_map]
  obtain ⟨j, hj, hget⟩ := getElem_of_mem hsnapshot
  obtain ⟨i, hi, offset, hoffset, hbound, hposition⟩ := exists_window cursor hbatch hj
  have hi : i < roundsFor k progs.entries.length := by rwa [← hlength]
  have hcursor : (polls i).cursor = cursor + i * k := by
    have hle : i * k ≤ (roundsFor k progs.entries.length - 1) * k := mul_le_mul_right _ (by omega)
    rw [hpolls.cursor i hi, nextCursor_iterate (ne_nil_of_mem hsnapshot) (by omega),
      mod_eq_of_lt (by omega)]
  have hprograms : (polls i).source.snapshot (J := J) = .ok (registrySnapshot progs) := by
    rw [hpolls.source i hi]
    rfl
  obtain ⟨sent, rest, hsent, hrotate, hfull⟩ := (hpolls.calm i hi).sends hlimit hprograms
  refine ⟨i, hi, sent, hsent, ?_⟩
  -- The program stands `offset` places after the cursor, which is within the part sent.
  have hin : offset < sent.length := by
    rcases hfull with rfl | hle
    · rw [append_nil] at hrotate
      rw [← hrotate, length_rotate]
      exact hbound
    · omega
  have hat : ((registrySnapshot progs).rotate ((polls i).cursor %
      (registrySnapshot progs).length))[offset]? = some (t, script) := by
    rw [getElem?_rotate hbound, add_mod_mod, hcursor, add_comm, hposition,
      getElem?_eq_getElem hj, hget]
  rw [hrotate, getElem?_append_left hin] at hat
  exact mem_of_getElem? hat

/-! ## A registry of three programs -/

def threePrograms : Table TaskId String :=
  (((∅ : Table TaskId String).insert 1 "a").insert 2 "b").insert 3 "c"

/-- A poll of the three programs whose tasks suspend, in this order. -/
def suspendingPoll (cursor : ℕ) (tasks : List TaskId) : Poll Bool where
  cursor := cursor
  retried := some ([], none)
  source := .memory (some threePrograms)
  turns := tasks.map fun t => ⟨false, t, .ok (some ⟨t, .ok .suspended⟩)⟩
  last := false

theorem suspendingPoll_calm {tasks : List TaskId} (sent : List (TaskId × String))
    (hsent : (suspendingPoll cursor tasks).Dispatched limit k sent)
    (hok : ∃ runs, (suspendingPoll cursor tasks).result limit k = .ok runs) :
    (suspendingPoll cursor tasks).Calm limit k where
  ran :=
    { stopped := fun hstop => by
        obtain ⟨_, -, hstart, -⟩ := hsent
        rw [hstop] at hstart
        cases hstart
      loop := fun _ => ⟨sent, hsent⟩
      errors := fun u ht e he => by
        obtain ⟨_, -, rfl⟩ := mem_map.mp ht
        cases he }
  retried := rfl
  last := rfl
  cancelled := fun u ht => by
    obtain ⟨-, -, rfl⟩ := mem_map.mp ht
    rfl
  succeeds := hok

/-- With a batch of two the first poll sends the programs 1 and 2, the second 3 and 1. -/
theorem polling_delivers_and_is_fair_three :
    ∃ polls : ℕ → Poll Bool, CalmPolls 16 2 threePrograms 0 2 polls ∧
      (∀ t script, threePrograms.get? t = some script → ∃ i < 2, ∃ sent,
        (polls i).Dispatched 16 2 sent ∧ (t, script) ∈ sent) ∧
      (delivered 16 2 [polls 0, polls 1]).filter (fun run => !run.isStorageError) =
        ((supervised 16 2 [polls 0, polls 1]).flatMap Poll.produced).filter
          fun run => !run.isStorageError := by
  have hfirst : (suspendingPoll 0 [1, 2]).Calm 16 2 :=
    suspendingPoll_calm [(1, "a"), (2, "b")]
      ⟨_, _, rfl, .join (by decide) (.join (by decide) (.done rfl)), rfl⟩ ⟨_, rfl⟩
  have hsecond : (suspendingPoll 2 [3, 1]).Calm 16 2 :=
    suspendingPoll_calm [(3, "c"), (1, "a")]
      ⟨_, _, rfl, .join (by decide) (.join (by decide) (.done rfl)), rfl⟩ ⟨_, rfl⟩
  have hpolls : CalmPolls 16 2 threePrograms 0 2
      fun i => if i = 0 then suspendingPoll 0 [1, 2] else suspendingPoll 2 [3, 1] := by
    refine ⟨fun i hi => ?_, fun i hi => ?_, fun i hi => ?_⟩
    all_goals obtain rfl | rfl : i = 0 ∨ i = 1 := by omega
    · exact hfirst
    · exact hsecond
    all_goals rfl
  obtain ⟨houtcomes, -, -, hfair⟩ := polling_delivers_and_is_fair Bool 16 2 (by decide) (by decide)
  refine ⟨_, hpolls, hfair threePrograms 0 _ hpolls (by decide), houtcomes _ fun p hp => ?_⟩
  rcases mem_cons.mp hp with rfl | hp
  · exact hfirst.ran
  · obtain rfl := mem_singleton.mp hp
    exact hsecond.ran

/-- With a batch of one the cursor of a new poller comes to its last value, and of the three
polls from there on two send the program 1 and one the program 2. -/
theorem wrapped_cursor_skips_program :
    (nextCursor 1 (registrySnapshot threePrograms))^[2 ^ 64 - 1] 0 = 2 ^ 64 - 1 ∧
      ∃ polls : ℕ → Poll Bool, CalmPolls 16 1 threePrograms (2 ^ 64 - 1)
          (roundsFor 1 threePrograms.entries.length) polls ∧ threePrograms.get? 3 = some "c" ∧
        ∀ i < roundsFor 1 threePrograms.entries.length, ∀ sent,
          (polls i).Dispatched 16 1 sent → (3, "c") ∉ sent := by
  have hlast : (suspendingPoll (2 ^ 64 - 1) [1]).Calm 16 1 :=
    suspendingPoll_calm [(1, "a")] ⟨_, _, rfl, .join (by decide) (.done rfl), rfl⟩ ⟨_, rfl⟩
  have hzero : (suspendingPoll 0 [1]).Calm 16 1 :=
    suspendingPoll_calm [(1, "a")] ⟨_, _, rfl, .join (by decide) (.done rfl), rfl⟩ ⟨_, rfl⟩
  have hone : (suspendingPoll 1 [2]).Calm 16 1 :=
    suspendingPoll_calm [(2, "b")] ⟨_, _, rfl, .join (by decide) (.done rfl), rfl⟩ ⟨_, rfl⟩
  refine ⟨?_, fun i => if i = 0 then suspendingPoll (2 ^ 64 - 1) [1]
    else if i = 1 then suspendingPoll 0 [1] else suspendingPoll 1 [2], ⟨?_, ?_, ?_⟩, rfl, ?_⟩
  · rw [nextCursor_iterate (by decide) (by decide)]
    rfl
  all_goals
    intro i hi
    obtain rfl | rfl | rfl : i = 0 ∨ i = 1 ∨ i = 2 := by
      have : roundsFor 1 threePrograms.entries.length = 3 := rfl
      omega
  · exact hlast
  · exact hzero
  · exact hone
  any_goals rfl
  all_goals
    intro sent hsent hmem
    have htask := hsent.joined.mem_iff.mpr (mem_map_of_mem hmem)
    revert htask
    decide

end Tysel.Runtime
