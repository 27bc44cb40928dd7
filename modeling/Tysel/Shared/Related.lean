import Tysel.Shared.Except

/-! `Related R Q x y` says that two fallible computations end the same way: both succeed with
values related by `Q`, or both fail with errors related by `R`. The rules follow the two
programs check by check; `Related.swap` lets them run two checks in opposite orders. -/

namespace Tysel

variable {ε ε' α α' β β' : Type} {x : Except ε α}

inductive Related (R : ε → ε' → Prop) (Q : α → β → Prop) : Except ε α → Except ε' β → Prop
  | ok {a : α} {b : β} : Q a b → Related R Q (.ok a) (.ok b)
  | error {e : ε} {e' : ε'} : R e e' → Related R Q (.error e) (.error e')

namespace Related

variable {R : ε → ε' → Prop} {Q : α → β → Prop} {P : α' → β' → Prop}

theorem bind {y : Except ε' β} {f : α → Except ε α'} {g : β → Except ε' β'} (h : Related R Q x y)
    (hf : ∀ a b, x = .ok a → y = .ok b → Q a b → Related R P (f a) (g b)) :
    Related R P (x >>= f) (y >>= g) := by
  cases h with
  | ok h => exact hf _ _ rfl rfl h
  | error h => exact .error h

theorem reject {c d : Prop} [Decidable c] [Decidable d] {e : ε} {e' : ε'} (hcd : c ↔ d)
    (h : c → R e e') : Related R (fun _ _ => ¬c) (Tysel.reject c e) (Tysel.reject d e') := by
  by_cases hc : c
  · rw [reject_of e hc, reject_of e' (hcd.mp hc)]
    exact .error (h hc)
  · rw [reject_of_not e hc, reject_of_not e' (mt hcd.mpr hc)]
    exact .ok hc

theorem ite {c : Prop} [Decidable c] {x' : Except ε α} {y y' : Except ε' β}
    (hpos : c → Related R Q x y) (hneg : ¬c → Related R Q x' y') :
    Related R Q (if c then x else x') (if c then y else y') := by
  by_cases hc : c
  · rw [if_pos hc, if_pos hc]
    exact hpos hc
  · rw [if_neg hc, if_neg hc]
    exact hneg hc

end Related

section Swap

variable {R : ε → ε → Prop} {P : α' → β' → Prop} {Q : α → α → Prop}

theorem Related.refl (hR : ∀ e, R e e) (hQ : ∀ a, Q a a) (x : Except ε α) : Related R Q x x := by
  cases x with
  | error e => exact .error (hR e)
  | ok a => exact .ok (hQ a)

theorem Related.same {f : α → Except ε α'} {g : α → Except ε β'} (hR : ∀ e, R e e)
    (h : ∀ a, x = .ok a → Related R P (f a) (g a)) : Related R P (x >>= f) (x >>= g) :=
  (Related.refl hR (fun _ => rfl) x).bind fun a _ ha _ hab => hab ▸ h a ha

/-- Two checks in opposite orders. Only when both fail can the two errors differ. -/
theorem Related.swap {y : Except ε β} {f : α → β → Except ε α'} {g : β → α → Except ε β'}
    (hR : ∀ e, R e e) (hboth : ∀ e e', x = .error e → y = .error e' → R e e')
    (h : ∀ a b, x = .ok a → y = .ok b → Related R P (f a b) (g b a)) :
    Related R P (x >>= fun a => y >>= f a) (y >>= fun b => x >>= g b) := by
  cases x with
  | error e =>
    cases y with
    | error e' => exact .error (hboth e e' rfl rfl)
    | ok => exact .error (hR e)
  | ok a =>
    cases y with
    | error e' => exact .error (hR e')
    | ok b => exact h a b rfl rfl

end Swap

end Tysel
