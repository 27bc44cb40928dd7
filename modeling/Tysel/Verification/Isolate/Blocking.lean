import Tysel.Algorithm.Isolate.Blocking

/-! # Effects of interrupted calls -/

namespace Tysel.Isolate

namespace BlockingCall

variable {α : Type} {call : BlockingCall α} {ev : BlockingEvent α}

/-- The waiter is about to notice an interruption that the task has not seen. -/
def Late (call : BlockingCall α) : Prop :=
  call.interruption.isSome ∧ call.stage = .pending .started false

/-- The work ran at most once. What it returned is the result of the task, and of the call unless
an interruption was noticed: then the task has seen it too, or the call is of SQLite. -/
def Sound (call : BlockingCall α) : Prop :=
  match call.stage with
  | .start => call.ran = none
  | .pending task noticed =>
    (noticed → call.interruption.isSome ∧ (call.waiter = .runBlocking → call.ran = none)) ∧
    match task with
    | .queued => call.ran = none
    | .started => call.ran = none ∧ (noticed → call.waiter ≠ .runBlocking)
    | .finished res => ∀ r, call.ran = some r → r = res
  | .resolved (.ok _) => True
  | .resolved (.error error) => ∀ r, call.ran = some r →
      ∃ e, r = .error e ∧ (call.waiter = .runBlocking → e = error)

theorem Sound.settled {res : Except String α} {noticed : Bool} (h : call.Sound)
    (hstage : call.stage = .pending (.finished res) noticed) :
    Sound { call with stage := .resolved (call.settle noticed res) } := by
  simp only [Sound, hstage] at h ⊢
  cases noticed with
  | false =>
    -- the result of the task is that of the call
    cases res with
    | ok => trivial
    | error => exact fun r hr => ⟨_, h.2 r hr, fun _ => rfl⟩
  | true =>
    cases hw : call.waiter with
    | runBlocking => cases res <;> simp [settle, hw, (h.1 rfl).2 hw]
    | waitOrInterrupt =>
      cases res with
      | ok => simp only [settle, hw]
      | error => simpa [settle, hw] using fun r hr => ⟨_, h.2 r hr⟩

theorem Sound.interrupt (h : call.Sound) (reason : InterruptReason) :
    Sound { call with interruption := some reason } := by
  unfold Sound at h ⊢
  cases hstage : call.stage with
  | pending =>
    simp only [hstage] at h ⊢
    exact ⟨fun hnoticed => ⟨rfl, (h.1 hnoticed).2⟩, h.2⟩
  | start => simpa only [hstage] using h
  | resolved res =>
    simp only [hstage] at h ⊢
    cases res <;> exact h

theorem Sound.next (h : call.Sound)
    (hevent : call.waiter = .runBlocking → ev = .poll → ¬ call.Late) :
    (call.next ev).waiter = call.waiter ∧ (call.next ev).Sound := by
  refine ⟨by fun_cases BlockingCall.next call ev <;> rfl, ?_⟩
  obtain ⟨waiter, interruption, stage, ran⟩ := call
  cases ev with
  | cancel => exact h.interrupt _
  | expire =>
    cases interruption with
    | none => exact h.interrupt _
    | some => exact h
  | poll =>
    cases stage with
    | start => cases interruption <;> simp_all [Sound, next]
    | pending task noticed =>
      cases task with
      | finished => exact h.settled rfl
      | queued => cases interruption <;> simp_all [Sound, next]
      | started =>
        cases interruption with
        | none => exact h
        | some =>
          have hother : waiter ≠ .runBlocking := fun hw => by simp_all [Sound, Late]
          simp_all [Sound, next]
    | resolved => exact h
  | take =>
    cases stage with
    | pending task _ =>
      cases task with
      | queued => cases interruption <;> simp_all [Sound, next]
      | _ => exact h
    | _ => exact h
  | finish =>
    cases stage with
    | pending task _ =>
      cases task with
      | started => simp_all [Sound, next]
      | _ => exact h
    | _ => exact h

/-- A call that was not interrupted returns what its work did. -/
def Prompt (call : BlockingCall α) : Prop :=
  call.interruption = none → match call.stage with
    | .start => True
    | .pending (.finished res) noticed => call.ran = some res ∧ noticed = false
    | .pending _ noticed => noticed = false
    | .resolved res => call.ran = some res

theorem Prompt.next (h : call.Prompt) (ev : BlockingEvent α) : (call.next ev).Prompt := by
  fun_cases BlockingCall.next call ev <;> grind [Prompt, settle]

theorem interruption_of_next (h : (call.next ev).interruption = none) :
    call.interruption = none := by
  revert h
  fun_cases next call ev <;> simp

theorem ran_next (call : BlockingCall α) (hevent : ∀ r, ev ≠ .finish r) :
    (call.next ev).ran = call.ran := by
  fun_cases next call ev <;> simp_all

end BlockingCall

namespace Sqlite

open List Option BlockingCall

variable {δ α : Type} {s : Sqlite δ α} {i j : ℕ} {c c' : SqliteCall δ α} {ev : SqliteEvent α}
  {statement : δ → Except String α × δ}

/-- A waiter interrupts no statement but its own. -/
def Undisturbed (s : Sqlite δ α) (ev : ℕ × SqliteEvent α) : Prop :=
  ev.2 = .call .poll → ∀ c, s.calls[ev.1]? = some c → c.call.notices →
    ∀ j, s.conn.map Prod.fst = some j → j = ev.1

/-- Only the statement of an interrupted call was interrupted. -/
structure Clear (s : Sqlite δ α) : Prop where
  prompt : ∀ c ∈ s.calls, c.call.Prompt
  conn : ∀ j, s.conn = some (j, true) → ∀ c, s.calls[j]? = some c → c.call.interruption ≠ none

theorem Clear.put (h : s.Clear) (hget : s.calls[i]? = some c) (ev : BlockingEvent α) {db : δ}
    {conn : Option (ℕ × Bool)} (hconn : ∀ j, conn = some (j, true) → s.conn = some (j, true) ∨
      j = i ∧ c.call.interruption ≠ none) :
    Clear ⟨db, s.calls.set i { c with call := c.call.next ev }, conn⟩ := by
  refine ⟨fun c' hc' => ?_, fun j hj c' hc' => ?_⟩
  · rcases mem_or_eq_of_mem_set hc' with hc' | rfl
    · exact h.prompt c' hc'
    · exact (h.prompt c (mem_of_getElem? hget)).next ev
  · have hkeep := mt (@interruption_of_next _ c.call ev)
    grind [h.conn j]

theorem Clear.act (h : s.Clear) (hget : s.calls[i]? = some c) (hund : s.Undisturbed (i, ev)) :
    (s.act i c ev).Clear := by
  fun_cases Sqlite.act s i c ev
  case case1 =>
    refine h.put hget .poll fun j hj => ?_
    have hown := hund rfl c hget
    split at hj
    next hnotices =>
      obtain ⟨owner, howner, hj⟩ := map_eq_some_iff.mp hj
      refine .inr ⟨?_, ?_⟩
      · obtain rfl := hown hnotices owner.1 (by simp [howner])
        exact (Prod.mk.inj hj).1.symm
      · revert hnotices
        fun_cases notices c.call <;> simp_all
    next => exact .inl hj
  case case3 => exact h.put hget _ fun _ => .inl
  case case4 => exact ⟨h.prompt, by simp⟩
  case case6 | case7 => exact h.put hget _ (by simp)
  all_goals exact h

/-- What the calls that were not interrupted return, their statements did in one of the steps, on
the database of that time. -/
def Answers (steps : List (Entry (Sqlite δ α) (ℕ × SqliteEvent α) Unit)) (s : Sqlite δ α) : Prop :=
  ∀ i c, s.calls[i]? = some c → c.call.interruption = none → ∀ r, c.call.ran = some r →
    ∀ statement, c.statement = some statement → ∃ e ∈ steps, e.input.1 = i ∧
      r = (statement e.before.db).1 ∧ e.after.db = (statement e.before.db).2

section

variable {steps : List (Entry (Sqlite δ α) (ℕ × SqliteEvent α) Unit)} (h : Answers steps s)

include h

theorem Answers.append (e : Entry (Sqlite δ α) (ℕ × SqliteEvent α) Unit) :
    Answers (steps ++ [e]) s := by
  intro i c hget hnone r hran statement hstatement
  obtain ⟨e, he, hdone⟩ := h i c hget hnone r hran statement hstatement
  exact ⟨e, mem_append_left _ he, hdone⟩

theorem Answers.act (hclear : s.Clear) (hget : s.calls[i]? = some c) :
    Answers (steps ++ [entry step s (i, ev)]) (s.act i c ev) := by
  intro j c' hget' hnone r hran statement hstatement
  have hbefore c (hget : s.calls[j]? = some c) := h.append (entry step s (i, ev)) j c hget
  have hset {ev} (hc' : (s.calls.set i { c with call := c.call.next ev })[j]? = some c') :
      j = i ∧ c' = { c with call := c.call.next ev } ∨ s.calls[j]? = some c' := by
    grind
  revert hget'
  fun_cases Sqlite.act s i c ev <;> intro hget'
  case case2 | case4 | case5 | case8 | case9 => exact hbefore c' hget' hnone r hran _ hstatement
  all_goals
    rcases hset hget' with ⟨rfl, rfl⟩ | hget'
    case inr => exact hbefore c' hget' hnone r hran _ hstatement
    have hnone' := interruption_of_next hnone
  case case1 =>
    rw [c.call.ran_next (by simp)] at hran
    exact hbefore c hget hnone' r hran _ hstatement
  case case3 hfinish _ =>
    rw [c.call.ran_next fun r hr => hfinish r statement hstatement hr] at hran
    exact hbefore c hget hnone' r hran _ hstatement
  case case6 hseen => exact absurd hnone' (hclear.conn j hseen.1 c hget)
  case case7 hstage hstatement' _ hseen hheld =>
    obtain rfl := some.inj (hstatement'.symm.trans hstatement)
    refine ⟨_, mem_append_right _ (mem_singleton_self _), rfl, ?_, ?_⟩
    · simpa [BlockingCall.next, hstage, entry, eq_comm] using hran
    · simp [entry, step, Sqlite.act, hget, hstage, hstatement', hseen, hheld]

end

/-- An insertion, which returns the rows that were there. -/
def insert : SqliteCall ℕ ℕ where
  statement := some fun rows => (.ok rows, rows + 1)
  aborted := id

end Sqlite

end Tysel.Isolate
