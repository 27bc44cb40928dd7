import Mathlib.Data.List.Forall2

/-! `reject c e` is an early return with the error `e`. The rules below turn the
success of a sequence of such checks into the facts that were checked. -/

namespace Tysel

open List Except

variable {ε α β : Type}

/-- Stop with `e` when `c` holds. -/
def reject (c : Prop) [Decidable c] (e : ε) : Except ε Unit :=
  if c then .error e else .ok ()

variable {c : Prop}

@[simp] theorem reject_ok [Decidable c] {e : ε} {u : Unit} : reject c e = .ok u ↔ ¬c := by
  unfold reject
  split <;> simp_all

theorem reject_of [Decidable c] (e : ε) (h : c) : reject c e = .error e := if_pos h

theorem reject_of_not [Decidable c] (e : ε) (h : ¬c) : reject c e = .ok () := if_neg h

@[simp] theorem ok_bind (a : α) (f : α → Except ε β) : ((.ok a : Except ε α) >>= f) = f a := rfl

@[simp] theorem error_bind (e : ε) (f : α → Except ε β) :
    ((.error e : Except ε α) >>= f) = .error e := rfl

variable {x : Except ε α} {f : α → Except ε β} {xs : List α}

theorem bind_ok {b : β} : (x >>= f) = .ok b ↔ ∃ a, x = .ok a ∧ f a = .ok b := by
  rcases x with e | a
  · simp only [error_bind, reduceCtorEq, false_and, exists_false]
  · simp only [ok_bind, ok.injEq, exists_eq_left']

theorem reject_bind_ok_iff [Decidable c] {e : ε} {f : Unit → Except ε β} {b : β} :
    (reject c e >>= f) = .ok b ↔ ¬c ∧ f () = .ok b := by
  rw [bind_ok]
  constructor
  · rintro ⟨⟨⟩, hcheck, hrest⟩
    exact ⟨reject_ok.mp hcheck, hrest⟩
  · rintro ⟨hcheck, hrest⟩
    exact ⟨(), reject_ok.mpr hcheck, hrest⟩

/-- Stop with `e` unless `c` holds. -/
def ensure (c : Prop) [Decidable c] (e : ε) : Except ε Unit :=
  if c then .ok () else .error e

@[simp] theorem ensure_ok [Decidable c] {e : ε} {u : Unit} : ensure c e = .ok u ↔ c := by
  unfold ensure
  split <;> simp_all

/-- Stop with `e` without a value. -/
def require (x : Option α) (e : ε) : Except ε α :=
  match x with
  | some a => .ok a
  | none => .error e

@[simp] theorem require_ok {x : Option α} {e : ε} {a : α} : require x e = .ok a ↔ x = some a := by
  cases x <;> simp [require]

theorem forM_ok_iff {f : α → Except ε Unit} : xs.forM f = .ok () ↔ ∀ x ∈ xs, f x = .ok () := by
  induction xs with
  | nil => exact iff_of_true rfl (by simp)
  | cons x xs ih =>
    change (f x >>= fun _ => xs.forM f) = .ok () ↔ _
    rw [bind_ok, forall_mem_cons]
    constructor
    · rintro ⟨⟨⟩, hx, hxs⟩
      exact ⟨hx, ih.mp hxs⟩
    · rintro ⟨hx, hxs⟩
      exact ⟨(), hx, ih.mpr hxs⟩

theorem mapM_ok_iff {ys : List β} :
    xs.mapM f = .ok ys ↔ List.Forall₂ (fun x y => f x = .ok y) xs ys := by
  induction xs generalizing ys with
  | nil =>
    rw [mapM_nil, forall₂_nil_left_iff]
    exact ⟨fun h => (ok.inj h).symm, fun h => congrArg ok h.symm⟩
  | cons _ _ ih =>
    rw [mapM_cons, bind_ok, forall₂_cons_left_iff]
    constructor
    · rintro ⟨y, hy, hrest⟩
      obtain ⟨rest, hxs, hys⟩ := bind_ok.mp hrest
      exact ⟨y, rest, hy, ih.mp hxs, (ok.inj hys).symm⟩
    · rintro ⟨y, rest, hy, hxs, rfl⟩
      exact ⟨y, hy, bind_ok.mpr ⟨rest, ih.mpr hxs, rfl⟩⟩

theorem mapM_zip_ok_iff {γ : Type} {g : α × β → Except ε γ} {zs : List γ} :
    (∃ ys, xs.mapM f = .ok ys ∧ (xs.zip ys).mapM g = .ok zs) ↔
      List.Forall₂ (fun x z => ∃ y, f x = .ok y ∧ g (x, y) = .ok z) xs zs := by
  simp only [mapM_ok_iff]
  induction xs generalizing zs with
  | nil => simp
  | cons _ _ ih =>
    rw [forall₂_cons_left_iff]
    constructor
    · rintro ⟨_, hys, hzs⟩
      obtain ⟨y, ys, hy, hrest, rfl⟩ := forall₂_cons_left_iff.mp hys
      obtain ⟨z, zs, hz, htail, rfl⟩ := forall₂_cons_left_iff.mp hzs
      exact ⟨z, zs, ⟨y, hy, hz⟩, ih.mp ⟨ys, hrest, htail⟩, rfl⟩
    · rintro ⟨z, zs, ⟨y, hy, hz⟩, hrest, rfl⟩
      obtain ⟨ys, hys, hzs⟩ := ih.mpr hrest
      exact ⟨y :: ys, .cons hy hys, .cons hz hzs⟩

theorem foldlM_invariant {f : β → α → Except ε β} {P : β → Prop}
    (keep : ∀ b a b', P b → f b a = .ok b' → P b') {b b' : β}
    (h : xs.foldlM f b = .ok b') (hb : P b) : P b' := by
  induction xs generalizing b with
  | nil =>
    obtain rfl := ok.inj h
    exact hb
  | cons x _ ih =>
    rw [foldlM_cons, bind_ok] at h
    obtain ⟨next, hstep, hrest⟩ := h
    exact ih hrest (keep b x next hb hstep)

@[simp] theorem pure_ok {a b : α} : (pure a : Except ε α) = .ok b ↔ a = b := by
  simp only [pure, Except.pure, Except.ok.injEq]

theorem pair_ok {a a' : α} {b b' : β}
    (h : (pure (a, b) : Except ε (α × β)) = .ok (a', b')) : a' = a ∧ b' = b := by
  obtain ⟨ha, hb⟩ := Prod.mk.inj (pure_ok.mp h)
  exact ⟨ha.symm, hb.symm⟩

theorem mapError_ok {ε' : Type*} {f : ε → ε'} {a : α} : x.mapError f = .ok a ↔ x = .ok a := by
  cases x <;> simp [Except.mapError]

/-- Every error the computation can raise satisfies `R`. -/
def Errs (R : ε → Prop) (x : Except ε α) : Prop := ∀ e, x = .error e → R e

variable {R : ε → Prop}

theorem Errs.ok (a : α) : Errs R (.ok a : Except ε α) := by
  intro e h
  cases h

theorem Errs.error {e : ε} (h : R e) : Errs R (.error e : Except ε α) := by
  rintro _ ⟨⟩
  exact h

theorem Errs.reject [Decidable c] {e : ε} (h : c → R e) : Errs R (reject c e) := by
  by_cases hc : c
  · rw [reject_of e hc]
    exact .error (h hc)
  · rw [reject_of_not e hc]
    exact .ok ()

theorem Errs.bind (hx : Errs R x) (hf : ∀ a, x = .ok a → Errs R (f a)) : Errs R (x >>= f) := by
  intro e h
  cases x with
  | error e' =>
    obtain rfl : e' = e := by simpa using h
    exact hx e' rfl
  | ok a => exact hf a rfl e h

/-- A loop over an interval keeps `P` as long as its body succeeds. -/
theorem Errs.forM_range' {f : ℕ → Except ε Unit} {P : ℕ → Prop} (body : ∀ i, P i → Errs R (f i))
    (next : ∀ i, f i = .ok () → P (i + 1)) {start : ℕ} (h : P start) (count : ℕ) :
    Errs R ((List.range' start count).forM f) := by
  induction count generalizing start with
  | zero => exact .ok ()
  | succ _ ih => exact .bind (body start h) fun _ hok => ih (next start hok)

theorem Errs.mono {Q : ε → Prop} (h : Errs Q x) (hQ : ∀ e, Q e → R e) : Errs R x :=
  fun e he => hQ e (h e he)

def Fails (R : ε → Prop) (x : Except ε α) : Prop := ∃ e, x = .error e ∧ R e

theorem Fails.errs (h : Fails R x) : Errs R x := by
  obtain ⟨e, rfl, he⟩ := h
  exact .error he

theorem Fails.stop (h : Fails R x) : Fails R (x >>= f) := by
  obtain ⟨e, rfl, he⟩ := h
  exact ⟨e, rfl, he⟩

theorem Fails.bind (hx : Errs R x) (hf : ∀ a, x = .ok a → Fails R (f a)) : Fails R (x >>= f) := by
  cases x with
  | error e => exact ⟨e, rfl, hx e rfl⟩
  | ok a => exact hf a rfl

/-- Every error satisfies `R` and every result satisfies `Q`. -/
structure Ends (R : ε → Prop) (Q : α → Prop) (x : Except ε α) : Prop where
  errs : Errs R x
  result : ∀ a, x = .ok a → Q a

variable {Q : β → Prop}

theorem Ends.ok {b : β} (h : Q b) : Ends R Q (.ok b) := by
  refine ⟨.ok b, ?_⟩
  rintro _ ⟨⟩
  exact h

theorem Ends.bind (hx : Errs R x) (hf : ∀ a, x = .ok a → Ends R Q (f a)) : Ends R Q (x >>= f) := by
  cases x with
  | error e => exact ⟨.error (hx e rfl), nofun⟩
  | ok a => exact hf a rfl

theorem Fails.ends {x : Except ε β} (h : Fails R x) : Ends R Q x := by
  obtain ⟨e, rfl, he⟩ := h
  exact ⟨.error he, nofun⟩

/-! ## With a state

An error keeps the state reached so far, so what an operation has done before it fails stays
done. -/

variable {ε α β σ : Type*}

/-- Run the next computation on the value and the state of the first one. -/
def andThen (x : Except ε α × σ) (f : α → σ → Except ε β × σ) : Except ε β × σ :=
  match x with
  | (.ok a, s) => f a s
  | (.error e, s) => (.error e, s)

@[simp] theorem andThen_ok (a : α) (s : σ) (f : α → σ → Except ε β × σ) :
    andThen (.ok a, s) f = f a s := rfl

theorem andThen_assoc {γ : Type*} (x : Except ε α × σ) (f : α → σ → Except ε β × σ)
    (g : β → σ → Except ε γ × σ) :
    andThen (andThen x f) g = andThen x fun a s => andThen (f a s) g := by
  obtain ⟨r, s⟩ := x
  cases r <;> rfl

end Tysel
