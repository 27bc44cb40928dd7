import Mathlib.Data.List.Sort

/-! A table with an automatic key lists its rows by increasing number. Reading it in key order
is reading it as stored, and deleting the first match of a query by its number removes
exactly that match. -/

namespace Tysel

open List

variable {ρ : Type*} {number : ρ → ℕ} {rows : List ρ} {row : ρ} {p : ρ → Bool}

def Numbered (number : ρ → ℕ) (rows : List ρ) : Prop := rows.Pairwise fun a b => number a < number b

namespace Numbered

section

variable (h : Numbered number rows)

include h

theorem filter (p : ρ → Bool) : Numbered number (rows.filter p) := List.Pairwise.filter p h

theorem concat (hnew : ∀ a ∈ rows, number a < number row) : Numbered number (rows ++ [row]) := by
  refine pairwise_append.mpr ⟨h, pairwise_singleton _ _, ?_⟩
  intro a ha b hb
  obtain rfl := mem_singleton.mp hb
  exact hnew a ha

theorem insertionSort_eq : rows.insertionSort (fun a b => number a ≤ number b) = rows :=
  List.Pairwise.insertionSort_eq (h.imp fun hlt => hlt.le)

theorem eq_of_number_eq {a b : ρ} (ha : a ∈ rows) (hb : b ∈ rows)
    (hnum : number a = number b) : a = b := by
  have hnodup : (rows.map number).Nodup := pairwise_map.mpr (h.imp fun hlt => hlt.ne)
  exact inj_on_of_nodup_map hnodup ha hb hnum

theorem filter_delete_of_not (hmem : row ∈ rows) (hp : p row = false) :
    (rows.filter fun a => number a ≠ number row).filter p = rows.filter p := by
  rw [filter_filter]
  refine filter_congr fun a ha => ?_
  by_cases hnum : number a = number row
  · obtain rfl := h.eq_of_number_eq ha hmem hnum
    simp [hp]
  · simp [hnum]

theorem filter_delete_head (hhead : (rows.filter p).head? = some row) :
    (rows.filter fun a => number a ≠ number row).filter p = (rows.filter p).tail := by
  obtain ⟨rest, hrest⟩ : ∃ rest, rows.filter p = row :: rest := by
    cases hf : rows.filter p with
    | nil => simp [hf] at hhead
    | cons a rest =>
      simp only [hf, head?_cons, Option.some.injEq] at hhead
      exact ⟨rest, by rw [hhead]⟩
  have hnum : Numbered number (row :: rest) := hrest ▸ h.filter p
  rw [filter_comm, hrest, tail_cons, filter_cons_of_neg (by simp)]
  refine filter_eq_self.mpr fun a ha => ?_
  simpa using ((pairwise_cons.mp hnum).1 a ha).ne'

end

end Numbered

end Tysel
