import Mathlib.Data.List.Basic

/-! A machine is a step function from a state and an input to an output and a state.
`trace` records every step of a run; the invariant rules are stated once here. -/

namespace Tysel

open List

/-- One recorded step of a run. -/
structure Entry (σ ι ο : Type*) where
  before : σ
  input : ι
  output : ο
  after : σ

section Machine

variable {σ ι ο : Type*} (step : σ → ι → ο × σ)

def entry (s : σ) (i : ι) : Entry σ ι ο := ⟨s, i, (step s i).1, (step s i).2⟩

def run : σ → List ι → σ
  | s, [] => s
  | s, i :: is => run (step s i).2 is

def trace : σ → List ι → List (Entry σ ι ο)
  | _, [] => []
  | s, i :: is => entry step s i :: trace (step s i).2 is

variable (s : σ)

@[simp] theorem run_nil : run step s [] = s := rfl

@[simp] theorem trace_nil : trace step s [] = [] := rfl

@[simp] theorem run_cons (i : ι) (is : List ι) :
    run step s (i :: is) = run step (step s i).2 is := rfl

@[simp] theorem trace_cons (i : ι) (is : List ι) :
    trace step s (i :: is) = entry step s i :: trace step (step s i).2 is := rfl

theorem run_append (is js : List ι) : run step s (is ++ js) = run step (run step s is) js := by
  induction is generalizing s with
  | nil => rfl
  | cons i _ ih => exact ih (step s i).2

theorem trace_append (is js : List ι) :
    trace step s (is ++ js) = trace step s is ++ trace step (run step s is) js := by
  induction is generalizing s with
  | nil => rfl
  | cons _ _ ih =>
    simp only [cons_append, trace_cons, run_cons]
    rw [ih]

theorem mem_trace {is : List ι} {e : Entry σ ι ο} (h : e ∈ trace step s is) :
    ∃ s', ∃ i ∈ is, e = entry step s' i := by
  induction is generalizing s with
  | nil => simp at h
  | cons i _ ih =>
    rcases mem_cons.mp h with rfl | h
    · exact ⟨s, i, mem_cons_self .., rfl⟩
    · obtain ⟨s', j, hj, he⟩ := ih _ h
      exact ⟨s', j, mem_cons_of_mem _ hj, he⟩

/-- A property of the trace so far and the state it reached holds after every run if it
holds at the start and every step keeps it. -/
theorem trace_invariant {P : List (Entry σ ι ο) → σ → Prop} (init : P [] s)
    (keep : ∀ tr s i, P tr s → P (tr ++ [entry step s i]) (step s i).2) (is : List ι) :
    P (trace step s is) (run step s is) := by
  suffices h : ∀ tr s, P tr s → P (tr ++ trace step s is) (run step s is) by
    simpa using h [] s init
  induction is with
  | nil =>
    intro tr s hp
    simpa using hp
  | cons i _ ih =>
    intro tr s hp
    have := ih _ _ (keep tr s i hp)
    simpa [append_assoc] using this

theorem run_invariant {P : σ → Prop} (init : P s) (keep : ∀ s i, P s → P (step s i).2)
    (is : List ι) : P (run step s is) :=
  trace_invariant step s init (fun _ s i => keep s i) is

section Conditional

variable {P : σ → Prop} {C : σ → ι → Prop} (keep : ∀ s i, C s i → P s → P (step s i).2)

include keep

/-- A state invariant that the steps under a condition keep holds after every run of such
steps. -/
theorem run_invariant_of {is : List ι} (init : P s)
    (hsteps : ∀ e ∈ trace step s is, C e.before e.input) : P (run step s is) := by
  induction is generalizing s with
  | nil => exact init
  | cons i _ ih =>
    have hhead := keep s i (hsteps _ (mem_cons_self ..)) init
    exact ih _ hhead fun e he => hsteps e (mem_cons_of_mem _ he)

theorem trace_invariant_of {is : List ι} (init : P s)
    (hsteps : ∀ e ∈ trace step s is, C e.before e.input) :
    ∀ e ∈ trace step s is, P e.before ∧ e = entry step e.before e.input := by
  induction is generalizing s with
  | nil => simp
  | cons i _ ih =>
    intro e he
    rcases mem_cons.mp he with rfl | he
    · exact ⟨init, rfl⟩
    · have hhead := keep s i (hsteps _ (mem_cons_self ..)) init
      exact ih _ hhead (fun e he => hsteps e (mem_cons_of_mem _ he)) e he

end Conditional

/-- A measure that no step lowers is at most its value at the end of the run. -/
theorem trace_measure_le {m : σ → ℕ} (keep : ∀ s i, m s ≤ m (step s i).2) (is : List ι) :
    m s ≤ m (run step s is) ∧ ∀ e ∈ trace step s is, m e.after ≤ m (run step s is) := by
  induction is generalizing s with
  | nil => simp
  | cons i _ ih =>
    obtain ⟨hrest, htrace⟩ := ih (step s i).2
    refine ⟨Nat.le_trans (keep s i) hrest, fun e he => ?_⟩
    rcases mem_cons.mp he with rfl | he
    · exact hrest
    · exact htrace e he

end Machine

end Tysel
