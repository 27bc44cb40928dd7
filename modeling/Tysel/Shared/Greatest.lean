import Mathlib.Data.List.Perm.Lattice
import Mathlib.Order.Lattice

/-! Elements of a list are compared by a key. The last hit in a list sorted by the key is greatest,
and which element is greatest does not depend on the order of the list. -/

namespace Tysel

open List

variable {α κ : Type*} [LinearOrder κ] {key : α → κ} {p : α → Prop} {l m : List α} {a b : α}

/-- `a` has the property, and no element of the list that has it has a greater key. -/
structure Greatest (key : α → κ) (p : α → Prop) (l : List α) (a : α) : Prop where
  mem : a ∈ l
  holds : p a
  top : ∀ b ∈ l, p b → key b ≤ key a

theorem Greatest.perm (h : Greatest key p l a) (hperm : l.Perm m) : Greatest key p m a where
  mem := hperm.mem_iff.mp h.mem
  holds := h.holds
  top := fun b hb => h.top b (hperm.mem_iff.mpr hb)

theorem Greatest.key_eq (ha : Greatest key p l a) (hb : Greatest key p l b) : key a = key b :=
  le_antisymm (hb.top a ha.mem ha.holds) (ha.top b hb.mem hb.holds)

theorem greatest_of_find?_reverse {p : α → Bool} (hsorted : l.Pairwise (key · ≤ key ·))
    (h : l.reverse.find? p = some a) : Greatest key (p · = true) l a := by
  obtain ⟨hp, front, back, hsplit, hback⟩ := find?_eq_some_iff_append.mp h
  have hl : l = back.reverse ++ a :: front.reverse := by
    rw [← reverse_reverse l, hsplit]
    simp
  refine ⟨?_, hp, ?_⟩
  · rw [hl]
    exact mem_append_right _ (mem_cons_self ..)
  · intro b hb hpb
    rw [hl] at hb hsorted
    rcases mem_append.mp hb with hb | hb
    · exact (pairwise_append.mp hsorted).2.2 b hb a (mem_cons_self ..)
    · rcases mem_cons.mp hb with rfl | hb
      · exact le_rfl
      · have hfalse := hback b (mem_reverse.mp hb)
        simp [hpb] at hfalse

theorem find?_eq_some_of_unique {p : α → Bool} (ha : a ∈ l) (hp : p a = true)
    (hunique : ∀ b ∈ l, p b = true → b = a) : l.find? p = some a := by
  cases hfind : l.find? p with
  | none => exact absurd hp (by simpa using find?_eq_none.mp hfind a ha)
  | some b =>
    have hb := hunique b (mem_of_find?_eq_some hfind) (find?_some hfind)
    rw [hb]

end Tysel
