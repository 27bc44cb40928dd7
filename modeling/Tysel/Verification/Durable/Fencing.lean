import Tysel.Verification.Durable.Frames

/-! The owner stored in an execution row is always the owner of the last claim issued for
that task. A claim that has been superseded therefore never passes the guard again. -/

namespace Tysel.Durable

open List Option Table ExecutionClaim Db

open ExecutionClaim (passes_iff holds_iff)

variable {J : Type} {S : Crates J} {r : ExecutionRow}

/-- The claim a store handle is scoped to; releasing a run scopes itself to its claim. -/
def Op.store? : Op J → Option ExecutionClaim
  | .appendEventJsonAt store .. | .appendEventJsonWithWakeupAt store .. | .appendEvent store ..
  | .appendEventWithWakeup store .. | .completeWakeup store .. | .pollSignal store ..
  | .finishTask store .. => store
  | .releaseRun claim .. => some claim
  | _ => none

def issuedIn (tr : List (Call J)) : List ExecutionClaim := tr.flatMap Call.issued

def issuedFor (t : TaskId) (issued : List ExecutionClaim) : List ExecutionClaim :=
  issued.filter fun c => c.taskId = t

theorem issuedFor_append_claim (t : TaskId) (issued : List ExecutionClaim) (c : ExecutionClaim) :
    issuedFor t (issued ++ [c]) =
      if c.taskId = t then issuedFor t issued ++ [c] else issuedFor t issued := by
  unfold issuedFor
  split <;> simp_all

def OwnedByLast (t : TaskId) (issued : List ExecutionClaim) (db : Db) : Prop :=
  ∀ r owner, db.executions.get? t = some r → r.owner = some owner →
    ∃ c, (issuedFor t issued).getLast? = some c ∧ c.owner = owner

variable {db : Db} {t : TaskId}

/-- The owner of an execution row comes from a claim; every other effect keeps or clears it. -/
theorem owner_apply {e : Effect} {owner : String} (hr : (e.apply db).executions.get? t = some r)
    (howner : r.owner = some owner) :
    (∃ c, e = .claim c ∧ c.taskId = t ∧ c.owner = owner) ∨ (∀ c, e = .claim c → c.taskId ≠ t) ∧
        ∃ r', db.executions.get? t = some r' ∧ r'.owner = some owner := by
  by_cases htask : t = e.task
  · subst htask
    have hrows := Effect.apply_executions db e
    cases e with
    | admitModule =>
      rw [hrows, Effect.task, get?_insert_self] at hr
      obtain rfl := some.inj hr
      cases howner
    | claim c =>
      rw [Effect.task, claim_row] at hr
      obtain rfl := some.inj hr
      exact .inl ⟨c, rfl, rfl, some.inj howner⟩
    | release | complete =>
      rw [hrows, Effect.task, get?_modify_self] at hr
      obtain ⟨_, -, rfl⟩ := map_eq_some_iff.mp hr
      cases howner
    | prune =>
      rw [hrows, Effect.task, get?_erase_self] at hr
      cases hr
    | _ => exact .inr ⟨by simp, r, hr, howner⟩
  · refine .inr ⟨?_, r, executions_frame db htask ▸ hr, howner⟩
    rintro _ rfl
    exact Ne.symm htask

variable {issued : List ExecutionClaim}

theorem OwnedByLast.apply (h : OwnedByLast t issued db) (e : Effect) :
    OwnedByLast t (issued ++ e.issued) (e.apply db) := by
  intro r owner hr howner
  rcases owner_apply hr howner with ⟨c, rfl, rfl, rfl⟩ | ⟨hother, r', hr', howner'⟩
  · exact ⟨c, by simp [Effect.issued, issuedFor], rfl⟩
  have hsame : issuedFor t (issued ++ e.issued) = issuedFor t issued := by
    cases e with
    | claim c => rw [Effect.issued, issuedFor_append_claim, if_neg (hother c rfl)]
    | _ => simp [Effect.issued]
  rw [hsame]
  exact h r' owner hr' howner'

/-- A row is owned by the last claim issued since the task was unowned. -/
theorem ownedByLast_after (hopen : db.Opened)
    (hstart : ∀ r, db.executions.get? t = some r → r.owner = none) (ops : List (Op J)) :
    OwnedByLast t (issuedIn (calls S db ops)) (after S db ops) := by
  refine run_tracks Call.issued Effect.issued (fun _ => True) (fun _ => True)
    (fun c es h => h.issued) (fun _ _ _ _ _ _ => trivial) (fun g db e _ h _ => h.apply e)
    hopen ?_ ops fun _ _ => trivial
  intro r owner hr howner
  rw [hstart r hr] at howner
  cases howner

theorem getLast?_ne_of_sublist {l : List ExecutionClaim} {old new : ExecutionClaim}
    (hnodup : l.Nodup) (hsub : [old, new].Sublist l) : l.getLast? ≠ some old := by
  intro hlast
  obtain ⟨init, rfl⟩ := getLast?_eq_some_iff.mp hlast
  have hold : old ∉ init := by
    intro hmem
    exact (nodup_append.mp hnodup).2.2 old hmem old (by simp) rfl
  rcases sublist_append_iff.mp hsub with ⟨l₁, l₂, hsplit, h₁, h₂⟩
  cases l₁ with
  | nil =>
    obtain rfl : [old, new] = l₂ := by simpa using hsplit
    simpa using h₂.length_le
  | cons a l₁ =>
    obtain ⟨rfl, -⟩ : old = a ∧ [new] = l₁ ++ l₂ := by simpa using hsplit
    exact hold (h₁.subset (by simp))

theorem superseded_not_owner {old new : ExecutionClaim} (h : OwnedByLast old.taskId issued db)
    (hdistinct : (issued.map owner).Nodup) (hsub : [old, new].Sublist issued)
    (htask : old.taskId = new.taskId) (hr : db.executions.get? old.taskId = some r) :
    r.owner ≠ some old.owner := by
  intro howner
  obtain ⟨c, hlast, hc⟩ := h r old.owner hr howner
  have hsub' : [old, new].Sublist (issuedFor old.taskId issued) := by
    have := hsub.filter fun c => decide (c.taskId = old.taskId)
    simpa [issuedFor, htask] using this
  have hcmem : c ∈ issued := mem_of_mem_filter (mem_of_getLast? hlast)
  have holdmem : old ∈ issued := hsub.subset (by simp)
  obtain rfl : c = old := inj_on_of_nodup_map hdistinct hcmem holdmem hc
  exact getLast?_ne_of_sublist (hdistinct.of_map.filter _) hsub' hlast

theorem not_passes_of_not_owner {claim : ExecutionClaim}
    (h : ∀ r, db.executions.get? claim.taskId = some r → r.owner ≠ some claim.owner) (t : TaskId)
    (clock : ℤ) : ¬ claim.Passes db t clock := by
  intro hpass
  obtain ⟨-, -, -, rfl, r, hr, hholds⟩ := passes_iff.mp hpass
  exact h r hr (holds_iff.mp hholds).2.1

/-- A successful scoped call has passed the guard for its task, unless it acknowledged a
completion. -/
theorem scoped_call_passes {db' : Db} {op : Op J} {r : Reply J} {claim : ExecutionClaim}
    (hstore : op.store? = some claim) (hfinish : ∀ store t expected v time lease clocks,
      op = .finishTask store t expected v time lease clocks → db.IsOpen t)
    (h : perform S db op = .ok (r, db')) :
    ∃ t clock, op.task? = some t ∧ claim.Passes db t clock := by
  cases op
  all_goals cases hstore
  all_goals obtain ⟨v, h, -⟩ := replying_ok.mp h
  case appendEventJsonAt => exact ⟨_, _, rfl, (appendEventJsonAt_commits h).1.guarded claim rfl⟩
  case appendEventJsonWithWakeupAt =>
    exact ⟨_, _, rfl, (appendEventJsonWithWakeupAt_commits h).1.guarded claim rfl⟩
  case appendEvent => exact ⟨_, _, rfl, (appendEventInner_commits h).guarded claim rfl⟩
  case appendEventWithWakeup =>
    exact ⟨_, _, rfl, (appendEventWithWakeupInner_commits h).guarded claim rfl⟩
  case completeWakeup => exact ⟨_, _, rfl, (completeWakeup_commits h).1 claim rfl⟩
  case pollSignal =>
    rcases pollSignal_commits h with ⟨-, hnone⟩ | ⟨_, _, -, hsome⟩
    · exact ⟨_, _, rfl, hnone.guarded claim rfl⟩
    · exact ⟨_, _, rfl, hsome.guarded claim rfl⟩
  case releaseRun => exact ⟨_, _, rfl, (releaseRun_commits (S := S) h).1⟩
  case finishTask =>
    rcases finishTask_commits h with ⟨_, hro, -⟩ | ⟨-, hguard, -⟩
    · have hopen := hfinish _ _ _ _ _ _ _ rfl
      rw [Db.IsOpen, hro] at hopen
      cases hopen
    · exact ⟨_, _, rfl, hguard claim rfl⟩

theorem fenced_call {op : Op J} {claim : ExecutionClaim}
    (hfenced : ∀ t clock, ¬ claim.Passes db t clock) (hstore : op.store? = some claim)
    (hfinish : ∀ store t expected v time lease clocks,
      op = .finishTask store t expected v time lease clocks → db.IsOpen t) :
    ∃ e, call S db op = (.error e, db) := by
  rcases call_cases S db op with ⟨e, -, hcall⟩ | ⟨_, _, hok, -⟩
  · exact ⟨e, hcall⟩
  · obtain ⟨t, clock, -, hpass⟩ := scoped_call_passes hstore hfinish hok
    exact absurd hpass (hfenced t clock)

/-- The generations issued so far increase, and the row has reached the last of them. -/
structure Generations (t : TaskId) (issued : List ExecutionClaim) (db : Db) : Prop where
  increasing : ((issuedFor t issued).map generation).Pairwise (· < ·)
  reached : ∀ c ∈ issuedFor t issued, ∃ r, db.executions.get? t = some r ∧
    c.generation ≤ r.generation

section

variable (h : Generations t issued db)

include h

theorem Generations.kept {e : Effect} (hen : e.Enabled S db) (hprune : e ≠ .prune t) :
    Generations t issued (e.apply db) := by
  refine ⟨h.increasing, fun c hc => ?_⟩
  obtain ⟨r, hr, hle⟩ := h.reached c hc
  obtain ⟨r', hr', -, -, hle'⟩ := execution_kept hen hprune hr
  exact ⟨r', hr', hle.trans hle'⟩

theorem Generations.claim {c : ExecutionClaim} (hen : Effect.Enabled S db (.claim c)) :
    Generations t (issued ++ [c]) (Effect.apply db (.claim c)) := by
  by_cases hc : c.taskId = t
  · subst hc
    obtain ⟨hnext, -⟩ := nextGeneration_ok.mp hen.2.2.1
    have hless : ∀ d ∈ issuedFor c.taskId issued, d.generation < c.generation := by
      intro d hd
      obtain ⟨_, hr, _⟩ := h.reached d hd
      simp only [hr, map_some, getD_some] at hnext
      omega
    refine ⟨?_, ?_⟩
    · rw [issuedFor_append_claim, if_pos rfl, map_append, pairwise_append]
      refine ⟨h.increasing, by simp, ?_⟩
      intro g hg g' hg'
      obtain ⟨d, hd, rfl⟩ := mem_map.mp hg
      obtain rfl : g' = c.generation := by simpa using hg'
      exact hless d hd
    · intro d hd
      refine ⟨_, claim_row db c, ?_⟩
      rw [issuedFor_append_claim, if_pos rfl] at hd
      rcases mem_append.mp hd with hd | hd
      · exact (hless d hd).le
      · obtain rfl : d = c := by simpa using hd
        exact le_rfl
  · have hsame : issuedFor t (issued ++ [c]) = issuedFor t issued := by
      rw [issuedFor_append_claim, if_neg hc]
    have hkept := h.kept hen (by simp)
    exact ⟨hsame ▸ hkept.increasing, hsame ▸ hkept.reached⟩

theorem Generations.apply {e : Effect} (hen : e.Enabled S db) (hprune : e ≠ .prune t) :
    Generations t (issued ++ e.issued) (e.apply db) := by
  cases e with
  | claim => exact h.claim hen
  | _ => exact (append_nil issued).symm ▸ h.kept hen hprune

end

/-- Along every run of a new store whose claims have distinct owners: a superseded claim is
fenced off for good, at most one issued claim of a task passes the guard, and generations
increase until the task is pruned. -/
theorem execution_fencing (S : Crates J) (ops : List (Op J))
    (hdistinct : ((issuedIn (calls S fresh ops)).map owner).Nodup) :
    (∀ old new, [old, new].Sublist (issuedIn (calls S fresh ops)) →
        old.taskId = new.taskId → ∀ op : Op J, op.store? = some old →
        (∀ store t expected v time lease clocks,
          op = .finishTask store t expected v time lease clocks → (after S fresh ops).IsOpen t) →
        ∃ e, call S (after S fresh ops) op = (.error e, after S fresh ops)) ∧
      (∀ c₁ ∈ issuedIn (calls S fresh ops), ∀ c₂ ∈ issuedIn (calls S fresh ops),
        ∀ t clock₁ clock₂, c₁.Passes (after S fresh ops) t clock₁ →
          c₂.Passes (after S fresh ops) t clock₂ → c₁ = c₂) ∧
      ∀ t past rest, ops = past ++ rest → (∀ c ∈ calls S (after S fresh past) rest, ¬ c.Prunes t) →
        ((issuedFor t (issuedIn (calls S (after S fresh past) rest))).map
          generation).Pairwise (· < ·) := by
  refine ⟨?_, ?_, ?_⟩
  · intro old new hsub htask op hstore hfinish
    have howned : OwnedByLast old.taskId (issuedIn (calls S fresh ops)) (after S fresh ops) :=
      ownedByLast_after fresh_opened (fun r hr => by cases hr) ops
    exact fenced_call (not_passes_of_not_owner fun r hr =>
      superseded_not_owner howned hdistinct hsub htask hr) hstore hfinish
  · intro c₁ h₁ c₂ h₂ t clock₁ clock₂ hp₁ hp₂
    obtain ⟨-, -, -, -, r₁, hr₁, hh₁⟩ := passes_iff.mp hp₁
    obtain ⟨-, -, -, -, r₂, hr₂, hh₂⟩ := passes_iff.mp hp₂
    obtain rfl : r₁ = r₂ := mem_unique hr₁ hr₂
    have howner : c₁.owner = c₂.owner := some.inj
      ((holds_iff.mp hh₁).2.1.symm.trans (holds_iff.mp hh₂).2.1)
    exact inj_on_of_nodup_map hdistinct h₁ h₂ howner
  · rintro t past rest - hkept
    have htracks := run_tracks (P := Generations t) Call.issued Effect.issued
      (fun e => e ≠ .prune t) (fun c => ¬ c.Prunes t) (fun c es h => h.issued)
      Committed.keeps_task (fun g db e hgood h hen => h.apply hen hgood)
      (after_opened S fresh_opened past) ⟨by simp [issuedFor], by simp [issuedFor]⟩ rest hkept
    exact htracks.increasing

/-- A run in which a second executor takes over after the first lease has expired. -/
def handover : List (Op Bool) :=
  [.putProgram 7 .module "42" 0, .claimRun 7 "first" 10 (some "token-1") 0 0,
    .claimRun 7 "second" 10 (some "token-2") 20 20]

theorem execution_fencing_handover : issuedIn (calls bools fresh handover) =
        [⟨7, "token-1", 1, 10, none⟩, ⟨7, "token-2", 2, 30, none⟩] ∧
      ∃ e, call bools (after bools fresh handover)
          (.appendEventJsonAt (some ⟨7, "token-1", 1, 10, none⟩) 7 0 .step "k" "true" 0 21 21) =
        (.error e, after bools fresh handover) := by
  have hissued : issuedIn (calls bools fresh handover) =
      [⟨7, "token-1", 1, 10, none⟩, ⟨7, "token-2", 2, 30, none⟩] := by decide
  have hfenced := (execution_fencing bools handover (by rw [hissued]; decide)).1
    ⟨7, "token-1", 1, 10, none⟩ ⟨7, "token-2", 2, 30, none⟩ (by rw [hissued]) rfl
  exact ⟨hissued, hfenced _ rfl (by simp)⟩

/-! ## Completion is final

No enabled effect other than a prune addresses a completed task, so its rows are frozen,
and every operation on it is refused or acknowledges what is already stored. -/

open Effect

/-- What a stored completion guarantees about the other rows of its task. -/
structure Db.Closed (db : Db) (t : TaskId) (row : CompletionRow) : Prop where
  program : (db.programs.get? t).isSome
  wakeup : db.wakeups.get? t = none
  wait : db.signalWaits.get? t = none
  sequence : row.nextSequence = (db.eventsOf t).length
  execution : ∀ r, db.executions.get? t = some r → r.state = .completed

def Db.ClosedOk (db : Db) : Prop := ∀ t row, db.completions.get? t = some row → db.Closed t row

def Db.ProgramsValid (S : Crates J) (db : Db) : Prop :=
  ∀ t row, db.programs.get? t = some row → row.Valid S

variable {db : Db} {row : CompletionRow} {e : Effect}

theorem Effect.prune_of_closed (hen : e.Enabled S db) (hro : db.completions.get? e.task = some row)
    (hclosed : db.Closed e.task row) : e = .prune e.task := by
  have hnot : ¬ db.IsOpen e.task := by
    rw [Db.IsOpen, hro]
    simp
  cases e with
  | append => exact absurd hen.isOpen hnot
  | schedule => exact absurd hen hnot
  | lease u | wake u =>
    have hw : db.wakeups.get? u = none := hclosed.wakeup
    simp [Effect.Enabled, hw] at hen
  | consume => exact absurd hen.1.isOpen hnot
  | admitModule =>
    obtain ⟨happ, rfl, -⟩ := hen
    exact absurd happ.isOpen hnot
  | release =>
    obtain ⟨_, r, hr, hholds⟩ := hen
    have hrunning := (holds_iff.mp hholds).1
    rw [hclosed.execution r hr] at hrunning
    cases hrunning
  | prune => rfl
  | _ => exact absurd hen.1 hnot

theorem Db.Closed.of_same {db' : Db} (h : db.Closed t row)
    (hsame : SameRows db db' t) : db'.Closed t row where
  program := hsame.program ▸ h.program
  wakeup := hsame.wakeup.trans h.wakeup
  wait := hsame.wait.trans h.wait
  sequence := hsame.events ▸ h.sequence
  execution r hr := h.execution r (hsame.execution ▸ hr)

theorem Db.ClosedOk.apply (hist : ∀ t, db.HistoryOk t) (h : db.ClosedOk)
    (hen : e.Enabled S db) : (e.apply db).ClosedOk := by
  intro t row hro
  by_cases htask : t = e.task
  · subst htask
    cases e with
    | complete u r program =>
      obtain ⟨-, hprog, hseq, hpend, -⟩ := hen
      have hc := apply_completions db (.complete u r program)
      obtain rfl : r = row := by
        rw [hc] at hro
        simpa [task] using hro
      simp only [pending, Bool.or_eq_false_iff, isSome_eq_false_iff, isNone_iff_eq_none] at hpend
      refine ⟨?_, hpend.1, hpend.2, hseq.trans (hist u).nextSequence, ?_⟩
      · rw [apply_programs]
        simp [task, hprog]
      · intro x hx
        rw [apply_executions, task, get?_modify_self] at hx
        obtain ⟨-, -, rfl⟩ := map_eq_some_iff.mp hx
        rfl
    | prune =>
      rw [apply_completions, task, get?_erase_self] at hro
      cases hro
    | _ =>
      have hcl := h _ row hro
      have := prune_of_closed hen hro hcl
      cases this
  · have hsame := sameRows_apply hen htask
    exact (h t row (hsame.completion ▸ hro)).of_same hsame

theorem Db.ProgramsValid.apply (h : db.ProgramsValid S) (hen : e.Enabled S db) :
    (e.apply db).ProgramsValid S := by
  intro t row hro
  have hp := apply_programs db e
  have herase : ∀ u, (e.apply db).programs = db.programs.erase u → row.Valid S := by
    intro u ht
    rw [ht, get?_erase] at hro
    split at hro
    · cases hro
    · exact h t row hro
  have hinsert : ∀ u r, (e.apply db).programs = db.programs.insert u r → r.Valid S →
      row.Valid S := by
    intro u r ht hr
    rw [ht, get?_insert] at hro
    split at hro
    · obtain rfl := some.inj hro
      exact hr
    · exact h t row hro
  cases e with
  | register u r => exact hinsert u r hp hen.2.2.2
  | admitModule u program => exact hinsert u program hp hen.2.2.2.2.2.2.2
  | unregister u | prune u => exact herase u hp
  | _ => exact h t row hro

/-- The invariants of a store that the terminal marker relies on. -/
structure Db.Sound (S : Crates J) (db : Db) : Prop where
  history : ∀ t, db.HistoryOk t
  closed : db.ClosedOk
  programs : db.ProgramsValid S

theorem Db.Sound.apply (h : db.Sound S) (hen : e.Enabled S db) : (e.apply db).Sound S :=
  ⟨fun t => (h.history t).apply hen, h.closed.apply h.history hen, h.programs.apply hen⟩

theorem Db.fresh_sound : fresh.Sound S := by
  refine ⟨fresh_historyOk, ?_, ?_⟩
  · intro t row hro
    cases hro
  · intro t row hro
    cases hro

theorem sound_after (ops : List (Op J)) : (after S fresh ops).Sound S :=
  run_keeps_all (fun _ _ h hen => h.apply hen) fresh_opened fresh_sound ops

theorem frozen_after (hopen : db.Opened) (hsound : db.Sound S)
    (hro : db.completions.get? t = some row) (ops : List (Op J))
    (hkept : ∀ c ∈ calls S db ops, ¬ c.Prunes t) : SameRows db (after S db ops) t := by
  refine (run_keeps (P := fun s => s.Sound S ∧ SameRows db s t)
    (fun e => e ≠ .prune t) (fun c => ¬ c.Prunes t) Committed.keeps_task ?_ hopen
    ⟨hsound, .refl db t⟩ ops hkept).2
  rintro s e hgood ⟨hs, hsame⟩ hen
  refine ⟨hs.apply hen, hsame.trans (sameRows_apply hen ?_)⟩
  rintro rfl
  have hcomp := hsame.completion.trans hro
  exact hgood (prune_of_closed hen hcomp (hs.closed _ row hcomp))

end Tysel.Durable
