import Mathlib.Data.List.AList
import Mathlib.Algebra.BigOperators.Group.List.Basic
import Mathlib.Algebra.GroupWithZero.Nat

/-! A table is an association list with distinct keys. The rules below say how a
keyed lookup and a sum over all rows react to one insertion or one deletion. -/

namespace Tysel

open List AList

/-- Rows of type `ρ` under distinct keys of type `κ`. -/
abbrev Table (κ ρ : Type*) := AList (fun _ : κ => ρ)

namespace Table

variable {κ ρ : Type*} [DecidableEq κ]

def get? (t : Table κ ρ) (k : κ) : Option ρ := AList.lookup k t

@[simp] theorem get?_empty (k : κ) : (∅ : Table κ ρ).get? k = none := rfl

theorem get?_insert (t : Table κ ρ) (k k' : κ) (r : ρ) :
    Table.get? (insert k r t) k' = if k' = k then some r else t.get? k' := by
  by_cases h : k' = k
  · subst h
    simp [get?]
  · simp [get?, h, lookup_insert_ne h]

theorem get?_erase (t : Table κ ρ) (k k' : κ) :
    Table.get? (erase k t) k' = if k' = k then none else t.get? k' := by
  by_cases h : k' = k
  · subst h
    simp [get?]
  · simp [get?, h, lookup_erase_ne h]

@[simp] theorem get?_insert_self (t : Table κ ρ) (k : κ) (r : ρ) :
    Table.get? (insert k r t) k = some r := by
  simp [get?_insert]

variable {k : κ}

@[simp] theorem get?_insert_ne {t : Table κ ρ} {k' : κ} {r : ρ} (h : k' ≠ k) :
    Table.get? (insert k r t) k' = t.get? k' := by
  simp [get?_insert, h]

@[simp] theorem get?_erase_self (t : Table κ ρ) (k : κ) : Table.get? (erase k t) k = none := by
  simp [get?_erase]

@[simp] theorem get?_erase_ne {t : Table κ ρ} {k' : κ} (h : k' ≠ k) :
    Table.get? (erase k t) k' = t.get? k' := by
  simp [get?_erase, h]

def modify (t : Table κ ρ) (k : κ) (f : ρ → ρ) : Table κ ρ :=
  match t.get? k with
  | some r => AList.insert k (f r) t
  | none => t

theorem get?_modify (t : Table κ ρ) (k k' : κ) (f : ρ → ρ) :
    (t.modify k f).get? k' = if k' = k then (t.get? k).map f else t.get? k' := by
  unfold modify
  cases h : t.get? k with
  | none =>
    by_cases hk : k' = k
    · simp [hk, h]
    · simp [hk]
  | some => simp [get?_insert]

@[simp] theorem get?_modify_self (t : Table κ ρ) (k : κ) (f : ρ → ρ) :
    (t.modify k f).get? k = (t.get? k).map f := by
  simp [get?_modify]

@[simp] theorem get?_modify_ne (t : Table κ ρ) {k' : κ} (f : ρ → ρ) (h : k' ≠ k) :
    (t.modify k f).get? k' = t.get? k' := by
  simp [get?_modify, h]

theorem get?_foldl_modify {f : ρ → ρ} (hf : ∀ r, f (f r) = f r) (ks : List κ) (t : Table κ ρ) :
    (ks.foldl (fun t k => t.modify k f) t).get? k =
      if k ∈ ks then (t.get? k).map f else t.get? k := by
  induction ks generalizing t with
  | nil => rfl
  | cons k' _ ih =>
    rw [foldl_cons, ih]
    by_cases hk : k = k'
    · simp [hk, Function.comp_def, hf]
    · simp [hk]

variable {t : Table κ ρ} {k' : κ} {r r' : ρ}

theorem get?_insert_eq_some : Table.get? (insert k r t) k' = some r' ↔
    k' = k ∧ r = r' ∨ k' ≠ k ∧ t.get? k' = some r' := by
  by_cases h : k' = k <;> simp [h]

theorem get?_erase_eq_some : Table.get? (erase k t) k' = some r ↔ k' ≠ k ∧ t.get? k' = some r := by
  by_cases h : k' = k <;> simp [h]

theorem get?_modify_eq_some {f : ρ → ρ} : (t.modify k f).get? k' = some r ↔
    k' = k ∧ (∃ r', t.get? k = some r' ∧ f r' = r) ∨ k' ≠ k ∧ t.get? k' = some r := by
  by_cases h : k' = k <;> simp [h]

def insertNew (t : Table κ ρ) (k : κ) (r : ρ) : Table κ ρ :=
  if (t.get? k).isSome then t else AList.insert k r t

theorem get?_insertNew (t : Table κ ρ) (k k' : κ) (r : ρ) :
    (t.insertNew k r).get? k' = if k' = k then some ((t.get? k).getD r) else t.get? k' := by
  unfold insertNew
  cases h : t.get? k with
  | none => simp [get?_insert]
  | some =>
    by_cases hk : k' = k
    · simp [hk, h]
    · simp [hk]

theorem mem_entries : (⟨k, r⟩ : Sigma fun _ => ρ) ∈ t.entries ↔ t.get? k = some r :=
  mem_lookup_iff.symm

theorem entries_perm_erase (h : t.get? k = some r) :
    t.entries.Perm (⟨k, r⟩ :: (erase k t).entries) := by
  have hentries : (insert k r t).entries = ⟨k, r⟩ :: (erase k t).entries := entries_insert ..
  refine hentries ▸ lookup_ext t.nodupKeys (insert k r t).nodupKeys fun k' r' => ?_
  change t.get? k' = some r' ↔ Table.get? (insert k r t) k' = some r'
  by_cases hk : k' = k <;> simp [hk, h]

/-- The table with every row changed, under the same keys. -/
def mapRows {σ : Type*} (f : κ → ρ → σ) (t : Table κ ρ) : Table κ σ where
  entries := t.entries.map fun e => ⟨e.1, f e.1 e.2⟩
  nodupKeys := by
    have hkeys : (t.entries.map Sigma.fst).Nodup := t.nodupKeys
    rw [List.NodupKeys, List.keys, List.map_map]
    exact hkeys

theorem get?_mapRows {σ : Type*} (f : κ → ρ → σ) (t : Table κ ρ) (k : κ) :
    (t.mapRows f).get? k = (t.get? k).map (f k) := by
  ext r
  rw [← mem_entries, Option.map_eq_some_iff]
  simp only [mapRows, mem_map, Sigma.mk.injEq]
  constructor
  · rintro ⟨⟨_, r'⟩, hmem, rfl, hr⟩
    exact ⟨r', mem_entries.mp hmem, eq_of_heq hr⟩
  · rintro ⟨r', hget, rfl⟩
    exact ⟨⟨k, r'⟩, mem_entries.mpr hget, rfl, HEq.rfl⟩

omit [DecidableEq κ] in
theorem mapRows_mapRows {σ τ : Type*} (f : κ → ρ → σ) (g : κ → σ → τ) (t : Table κ ρ) :
    (t.mapRows f).mapRows g = t.mapRows fun k r => g k (f k r) := by
  apply ext
  simp only [mapRows, map_map]
  rfl

theorem mapRows_eq_self {f : κ → ρ → ρ} (h : ∀ k r, t.get? k = some r → f k r = r) :
    t.mapRows f = t := by
  apply ext
  refine (map_congr_left fun e he => ?_).trans (map_id _)
  obtain ⟨k, r⟩ := e
  simp [h k r (mem_entries.mp he)]

/-- The rows that satisfy `p`, in the order of the table. -/
def select (t : Table κ ρ) (p : κ → ρ → Prop) [∀ k r, Decidable (p k r)] : List (κ × ρ) :=
  (t.entries.filter fun e => p e.1 e.2).map fun e => (e.1, e.2)

section Select

variable {p : κ → ρ → Prop} [∀ k r, Decidable (p k r)]

theorem mem_select {e : κ × ρ} : e ∈ t.select p ↔ t.get? e.1 = some e.2 ∧ p e.1 e.2 := by
  obtain ⟨k, r⟩ := e
  simp only [select, mem_map, mem_filter, decide_eq_true_eq]
  constructor
  · rintro ⟨⟨_, _⟩, ⟨hmem, hp⟩, heq⟩
    obtain ⟨rfl, rfl⟩ := Prod.mk.inj heq
    exact ⟨mem_entries.mp hmem, hp⟩
  · rintro ⟨hget, hp⟩
    exact ⟨⟨k, r⟩, ⟨mem_entries.mpr hget, hp⟩, rfl⟩

omit [DecidableEq κ] in
theorem nodup_select : ((t.select p).map Prod.fst).Nodup := by
  have hkeys : (t.entries.map Sigma.fst).Nodup := t.nodupKeys
  have hmap : (t.select p).map Prod.fst =
      (t.entries.filter fun e => decide (p e.1 e.2)).map Sigma.fst := by
    simp only [select, map_map]
    rfl
  rw [hmap]
  exact hkeys.sublist (filter_sublist.map _)

theorem select_perm {c : List (κ × ρ)} (hnodup : (c.map Prod.fst).Nodup)
    (hc : ∀ e ∈ c, t.get? e.1 = some e.2) : (t.select fun k _ => k ∈ c.map Prod.fst).Perm c := by
  refine (perm_ext_iff_of_nodup (nodup_select.of_map _) (hnodup.of_map _)).mpr fun e => ?_
  rw [mem_select]
  constructor
  · rintro ⟨hget, hkey⟩
    obtain ⟨e', he', hfst⟩ := mem_map.mp hkey
    have hsnd : some e'.2 = some e.2 := by rw [← hc e' he', hfst, hget]
    have heq : e' = e := Prod.ext hfst (Option.some.inj hsnd)
    exact heq ▸ he'
  · intro he
    exact ⟨hc e he, mem_map_of_mem he⟩

end Select

def sum (f : κ → ρ → ℕ) (t : Table κ ρ) : ℕ := (t.entries.map fun e => f e.1 e.2).sum

theorem sum_erase (f : κ → ρ → ℕ) (k : κ) (t : Table κ ρ) :
    sum f t = (t.get? k).elim 0 (f k) + sum f (erase k t) := by
  cases h : t.get? k with
  | none =>
    have herase : erase k t = t := ext (kerase_of_notMem_keys (lookup_eq_none.mp h))
    simp [herase]
  | some => simpa [sum] using ((entries_perm_erase h).map fun e => f e.1 e.2).sum_eq

theorem sum_congr {f g : κ → ρ → ℕ} (h : ∀ k r, t.get? k = some r → f k r = g k r) :
    sum f t = sum g t := by
  unfold sum
  congr 1
  apply map_congr_left
  rintro ⟨k, r⟩ hmem
  exact h k r (mem_entries.mp hmem)

/-- Sums over tables that agree outside `k` differ by what `k` contributes. -/
theorem sum_add {t' : Table κ ρ} {f g : κ → ρ → ℕ} (ht : ∀ k' ≠ k, t'.get? k' = t.get? k')
    (hf : ∀ k' ≠ k, ∀ r, g k' r = f k' r) :
    sum g t' + (t.get? k).elim 0 (f k) = sum f t + (t'.get? k).elim 0 (g k) := by
  have hperm : (erase k t').entries.Perm (erase k t).entries := by
    refine lookup_ext (erase k t').nodupKeys (erase k t).nodupKeys fun k' r' => ?_
    change Table.get? (erase k t') k' = some r' ↔ Table.get? (erase k t) k' = some r'
    by_cases hk : k' = k <;> simp [hk, ht]
  have hsum : sum g (erase k t') = sum g (erase k t) := (hperm.map _).sum_eq
  have hrest : sum g (erase k t) = sum f (erase k t) :=
    sum_congr fun k' r hr => hf k' (get?_erase_eq_some.mp hr).1 r
  rw [sum_erase f k t, sum_erase g k t', hsum, hrest]
  omega

theorem le_sum (f : κ → ρ → ℕ) (h : t.get? k = some r) : f k r ≤ sum f t := by
  rw [sum_erase f k, h]
  exact Nat.le_add_right _ _

end Table

end Tysel
