import Mathlib.Data.Finset.Insert
import Mathlib.Data.Finset.Erase

/-! A set of names in use, each held by exactly one of its holders. -/

namespace Tysel

open Option Function

variable {α ι : Type*}

/-- The names in `active` are those that are held, and every name has one holder. -/
structure Exclusive (active : Finset α) (holder : ι → Option α) : Prop where
  held : ∀ a, a ∈ active ↔ ∃ i, holder i = some a
  unique : ∀ a i j, holder i = some a → holder j = some a → i = j

namespace Exclusive

variable {active : Finset α} {holder : ι → Option α} {i : ι} {a : α}

theorem empty : Exclusive (∅ : Finset α) (fun _ : ι => none) := ⟨by simp, by simp⟩

variable [DecidableEq ι]

/-- One holder changes its name; no other holder has the new one. -/
theorem update {active' : Finset α} {v : Option α} (h : Exclusive active holder)
    (hheld : ∀ x, x ∈ active' ↔ v = some x ∨ ∃ j, j ≠ i ∧ holder j = some x)
    (hother : ∀ x j, j ≠ i → holder j = some x → v ≠ some x) :
    Exclusive active' (update holder i v) := by
  refine ⟨fun x => ?_, fun x j k hj hk => ?_⟩
  · rw [hheld]
    constructor
    · rintro (hx | ⟨j, hji, hj⟩)
      · exact ⟨i, (update_self ..).trans hx⟩
      · exact ⟨j, (update_of_ne hji ..).trans hj⟩
    · rintro ⟨j, hj⟩
      rw [update_apply] at hj
      split at hj
      · exact .inl hj
      · exact .inr ⟨j, ‹_›, hj⟩
  · rw [update_apply] at hj hk
    split at hj <;> split at hk
    · exact ‹j = i›.trans ‹k = i›.symm
    · exact absurd hj (hother x k ‹_› hk)
    · exact absurd hk (hother x j ‹_› hj)
    · exact h.unique x j k hj hk

variable [DecidableEq α]

theorem acquire (h : Exclusive active holder) (hfree : holder i = none) (hnew : a ∉ active) :
    Exclusive (insert a active) (Function.update holder i (some a)) := by
  refine h.update (fun x => ?_) fun x j _ hj hx => hnew ((h.held a).mpr ⟨j, hx ▸ hj⟩)
  rw [Finset.mem_insert, h.held, some.injEq, eq_comm]
  refine or_congr_right (exists_congr fun j => (and_iff_right_of_imp ?_).symm)
  rintro hj rfl
  exact some_ne_none _ (hj.symm.trans hfree)

theorem release (h : Exclusive active holder) (hheld : holder i = some a) :
    Exclusive (active.erase a) (Function.update holder i none) := by
  refine h.update (fun x => ?_) (by simp)
  rw [Finset.mem_erase, h.held]
  constructor
  · rintro ⟨hx, j, hj⟩
    refine .inr ⟨j, ?_, hj⟩
    rintro rfl
    exact hx (mem_unique hj hheld)
  · rintro (hx | ⟨j, hji, hj⟩)
    · cases hx
    · refine ⟨?_, j, hj⟩
      rintro rfl
      exact hji (h.unique x j i hj hheld)

end Exclusive

end Tysel
