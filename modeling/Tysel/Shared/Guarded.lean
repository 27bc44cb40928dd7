import Tysel.Shared.Run

/-! An abstract view of a store: atomic effects with a guard. A machine step that commits a
chain of enabled effects inherits every property the single effects keep. -/

namespace Tysel

structure Guarded (σ ε : Type*) where
  enabled : σ → ε → Prop
  apply : σ → ε → σ

namespace Guarded

variable {σ ε γ : Type*} (G : Guarded σ ε)

/-- A sequence of effects, each enabled in the state it is applied to. -/
inductive Chain : σ → List ε → σ → Prop
  | nil (s : σ) : Chain s [] s
  | cons {s s' : σ} {e : ε} {es : List ε} :
      G.enabled s e → Chain (G.apply s e) es s' → Chain s (e :: es) s'

variable {G}

theorem Chain.single {s : σ} {e : ε} (h : G.enabled s e) : G.Chain s [e] (G.apply s e) :=
  .cons h (.nil _)

/-- A property of the observations so far and the state, kept by every enabled effect of
the kind `good`, is kept by a chain of such effects. -/
theorem Chain.tracks {P : List γ → σ → Prop} (ghost : ε → List γ) (good : ε → Prop)
    (keep : ∀ g s e, good e → P g s → G.enabled s e → P (g ++ ghost e) (G.apply s e))
    {s s' : σ} {es : List ε} (h : G.Chain s es s') (hgood : ∀ e ∈ es, good e)
    {g : List γ} (hp : P g s) : P (g ++ es.flatMap ghost) s' := by
  induction h generalizing g with
  | nil => simpa using hp
  | cons hen _ ih =>
    have hhead := keep g _ _ (hgood _ (List.mem_cons_self ..)) hp hen
    have htail := ih (fun e he => hgood e (List.mem_cons_of_mem _ he)) hhead
    simpa [List.append_assoc] using htail

theorem Chain.invariant {P : σ → Prop} (good : ε → Prop)
    (keep : ∀ s e, good e → P s → G.enabled s e → P (G.apply s e)) {s s' : σ} {es : List ε}
    (h : G.Chain s es s') (hgood : ∀ e ∈ es, good e) (hp : P s) : P s' :=
  Chain.tracks (P := fun (_ : List Unit) s => P s) (fun _ => []) good (g := [])
    (fun _ s e he hp hen => keep s e he hp hen) h hgood hp

end Guarded

end Tysel
