import Tysel.Algorithm.Component.Engine
import Tysel.Shared.Greatest

/-! The registry selects the greatest compatible version that is registered for the interface and
allowed for the trust mode. What is linked for an import is its provider, in whatever order the
providers were given. -/

namespace Tysel.Component

open List Except CapabilityRegistry

open CapabilityRegistry (register resolve)
open CapabilityDescriptor (version)

variable {C H : Type}

theorem byVersion_total : Std.Total byVersion := ⟨fun d e => le_total d.version e.version⟩

/-- The registry holds the descriptors, each interface sorted by version. -/
structure Registered (reg : CapabilityRegistry) (ds : List CapabilityDescriptor) : Prop where
  perm : ∀ key, (reg.versions key).Perm (ds.filter (·.import_.key = key))
  sorted : ∀ key, (reg.versions key).Pairwise byVersion
  distinct : (ds.map (·.import_)).Nodup

theorem registered_empty : Registered ⟨∅⟩ [] := by
  refine ⟨?_, ?_, nodup_nil⟩
  · intro key
    exact List.Perm.refl []
  · intro key
    exact List.Pairwise.nil

variable {reg : CapabilityRegistry} {ds : List CapabilityDescriptor} {d : CapabilityDescriptor}

theorem Registered.mem_iff (h : Registered reg ds) {key : CapabilityId × String} :
    d ∈ reg.versions key ↔ d ∈ ds ∧ d.import_.key = key := by
  rw [(h.perm key).mem_iff, mem_filter]
  simp

theorem CapabilityImport.eq_of_key_version {i j : CapabilityImport} (hkey : i.key = j.key)
    (hversion : i.version = j.version) : i = j := by
  obtain ⟨_, _, _⟩ := i
  simp only [key, Prod.mk.injEq] at hkey hversion
  rw [hkey.1, hkey.2, hversion]

section

variable (h : Registered reg ds) {reg' : CapabilityRegistry}
  {rest : List CapabilityDescriptor}

include h

/-- An import that is not registered can be registered, and only such an import can. -/
theorem register_duplicate_iff (d : CapabilityDescriptor) :
    (reg.versions d.import_.key).any (fun existing => existing.version = d.version) = true ↔
      d.import_ ∈ ds.map (·.import_) := by
  simp only [any_eq_true, mem_map, decide_eq_true_eq]
  constructor
  · rintro ⟨e, he, hversion⟩
    obtain ⟨hmem, hkey⟩ := h.mem_iff.mp he
    exact ⟨e, hmem, CapabilityImport.eq_of_key_version hkey hversion⟩
  · rintro ⟨e, hmem, heq⟩
    exact ⟨e, h.mem_iff.mpr ⟨hmem, by rw [heq]⟩, by rw [version, heq]⟩

theorem register_ok (hok : reg.register d = .ok reg') : Registered reg' (ds ++ [d]) := by
  simp only [register, bind_ok, reject_ok, pure_ok] at hok
  obtain ⟨-, hnew, rfl⟩ := hok
  rw [register_duplicate_iff h] at hnew
  have hversions : ∀ key, versions ⟨AList.insert d.import_.key
      ((reg.versions d.import_.key ++ [d]).insertionSort byVersion) reg.entries⟩ key =
      if key = d.import_.key then
        (reg.versions d.import_.key ++ [d]).insertionSort byVersion
      else reg.versions key := by
    intro key
    simp only [versions, Table.get?_insert]
    split <;> rfl
  refine ⟨?_, ?_, ?_⟩
  · intro key
    rw [hversions, filter_append]
    by_cases hkey : key = d.import_.key
    · subst hkey
      have hkept : [d].filter (·.import_.key = d.import_.key) = [d] := by simp
      rw [if_pos rfl, hkept]
      exact (perm_insertionSort _ _).trans ((h.perm _).append_right _)
    · have hdropped : [d].filter (·.import_.key = key) = [] := by simp [Ne.symm hkey]
      rw [if_neg hkey, hdropped, append_nil]
      exact h.perm key
  · intro key
    rw [hversions]
    split
    · have := byVersion_total
      have : IsTrans _ byVersion := ⟨fun _ _ _ => le_trans⟩
      exact pairwise_insertionSort byVersion _
    · exact h.sorted key
  · rw [map_append, nodup_append]
    refine ⟨h.distinct, nodup_singleton _, ?_⟩
    rintro _ hi _ hj rfl
    rw [map_singleton, mem_singleton] at hj
    exact hnew (hj ▸ hi)

theorem register_succeeds (hnew : d.import_ ∉ ds.map (·.import_)) :
    ∃ reg', reg.register d = .ok reg' := by
  have hcheck := mt (register_duplicate_iff h d).mp hnew
  refine ⟨_, bind_ok.mpr ⟨(), reject_ok.mpr hcheck, rfl⟩⟩

theorem foldlM_register_ok (hok : rest.foldlM register reg = .ok reg') :
    Registered reg' (ds ++ rest) := by
  induction rest generalizing reg ds with
  | nil =>
    obtain rfl := ok.inj hok
    rwa [append_nil]
  | cons _ _ ih =>
    rw [foldlM_cons, bind_ok] at hok
    obtain ⟨_, hstep, hrest⟩ := hok
    have hall := ih (register_ok h hstep) hrest
    rwa [append_assoc] at hall

theorem foldlM_register_succeeds (hdis : ((ds ++ rest).map (·.import_)).Nodup) :
    ∃ reg', rest.foldlM register reg = .ok reg' := by
  induction rest generalizing reg ds with
  | nil => exact ⟨reg, rfl⟩
  | cons d _ ih =>
    have hnew : d.import_ ∉ ds.map (·.import_) := by
      rw [map_append, map_cons] at hdis
      intro hmem
      exact (nodup_append.mp hdis).2.2 _ hmem _ (mem_cons_self ..) rfl
    obtain ⟨_, hstep⟩ := register_succeeds h hnew
    have hnext := register_ok h hstep
    rw [append_cons] at hdis
    obtain ⟨reg', hrest⟩ := ih hnext hdis
    exact ⟨reg', by rw [foldlM_cons, hstep, ok_bind, hrest]⟩

end

theorem new_ok (h : new ds = .ok reg) : Registered reg ds := foldlM_register_ok registered_empty h

theorem new_succeeds (h : (ds.map (·.import_)).Nodup) : ∃ reg, new ds = .ok reg :=
  foldlM_register_succeeds registered_empty h

/-- The descriptor is for the interface of the request, compatible with its version, and allowed
in the trust mode. -/
structure Serves (req : CapabilityImport) (mode : TrustMode) (d : CapabilityDescriptor) : Prop where
  key : d.import_.key = req.key
  compatible : d.version.isCompatibleProviderFor req.version = true
  trusted : mode ∈ d.trustModes

variable {req : CapabilityImport} {mode : TrustMode}

/-- The greatest among the versions of the interface is the greatest among all descriptors. -/
theorem Registered.greatest_iff (h : Registered reg ds) : Greatest version (fun e =>
        decide (e.version.isCompatibleProviderFor req.version = true ∧
          decide (mode ∈ e.trustModes) = true) = true) (reg.versions req.key) d ↔
      Greatest version (Serves req mode) ds d := by
  simp only [decide_eq_true_eq]
  constructor
  · intro hg
    obtain ⟨hmem, hkey⟩ := h.mem_iff.mp hg.mem
    refine ⟨hmem, ⟨hkey, hg.holds.1, hg.holds.2⟩, ?_⟩
    intro e he hserves
    exact hg.top e (h.mem_iff.mpr ⟨he, hserves.key⟩) ⟨hserves.compatible, hserves.trusted⟩
  · intro hg
    refine ⟨h.mem_iff.mpr ⟨hg.mem, hg.holds.key⟩, ⟨hg.holds.compatible, hg.holds.trusted⟩, ?_⟩
    intro e he hp
    obtain ⟨hmem, hkey⟩ := h.mem_iff.mp he
    exact hg.top e hmem ⟨hkey, hp.1, hp.2⟩

theorem Registered.greatest_unique (h : Registered reg ds) {e : CapabilityDescriptor}
    (hd : Greatest version (Serves req mode) ds d)
    (he : Greatest version (Serves req mode) ds e) : d = e := by
  have hkey : d.import_.key = e.import_.key := hd.holds.key.trans he.holds.key.symm
  exact inj_on_of_nodup_map h.distinct hd.mem he.mem
    (CapabilityImport.eq_of_key_version hkey (hd.key_eq he))

variable {grants : Finset CapabilityId}

/-- Selection finds the greatest version that serves the request. -/
theorem resolve_ok_iff (h : Registered reg ds) :
    reg.resolve req mode grants = .ok d ↔ req.id ∈ grants ∧
        Greatest version (Serves req mode) ds d := by
  rw [resolve, reject_bind_ok_iff, not_not, ← h.greatest_iff]
  refine and_congr_right fun _ => ?_
  cases hentry : reg.entries.get? req.key with
  | none =>
    have hempty : reg.versions req.key = [] := by
      rw [versions, hentry, Option.getD_none]
    rw [hempty]
    constructor
    · intro hfound
      cases hfound
    · intro hg
      cases hg.mem
  | some versions =>
    have hversions : reg.versions req.key = versions := by
      rw [CapabilityRegistry.versions, hentry, Option.getD_some]
    have hsorted : versions.Pairwise byVersion := hversions ▸ h.sorted req.key
    simp only [reject_bind_ok_iff, find?_filter]
    constructor
    · rintro ⟨-, hfound⟩
      split at hfound
      · cases hfound
      · rename_i hfind
        obtain rfl := ok.inj hfound
        rw [hversions]
        exact greatest_of_find?_reverse hsorted hfind
    intro hg
    rw [hversions] at hg
    have hp := hg.holds
    have hcompatible := (of_decide_eq_true hp).1
    refine ⟨?_, ?_⟩
    · rw [Bool.not_eq_false, any_eq_true]
      exact ⟨d, hg.mem, hcompatible⟩
    split
    · rename_i hfind
      have hnone := find?_eq_none.mp hfind d (mem_reverse.mpr hg.mem)
      exact absurd hp hnone
    · rename_i hfind
      have he := greatest_of_find?_reverse hsorted hfind
      rw [← hversions] at hg he
      rw [h.greatest_unique (h.greatest_iff.mp he) (h.greatest_iff.mp hg)]

/-- The function is that of the greatest provider for the import, under the name of the
request. -/
def Linked (ps : List (StringCapabilityProvider H)) (mode : TrustMode)
    (grants : Finset CapabilityId) (req : CapabilityImport) (f : HostFunction H) : Prop :=
  req.id ∈ grants ∧ ∃ prov, Greatest (fun p : StringCapabilityProvider H => p.descriptor.version)
      (fun p => Serves req mode p.descriptor) ps prov ∧
    f = ⟨req.text, prov.function, prov.handler⟩

variable {ps : List (StringCapabilityProvider H)}

theorem greatest_descriptor_iff : Greatest version (Serves req mode)
        (ps.map (·.descriptor)) d ↔ ∃ prov, prov.descriptor = d ∧
        Greatest (fun p : StringCapabilityProvider H => p.descriptor.version)
          (fun p => Serves req mode p.descriptor) ps prov := by
  constructor
  · intro hg
    obtain ⟨prov, hmem, rfl⟩ := mem_map.mp hg.mem
    refine ⟨prov, rfl, hmem, hg.holds, ?_⟩
    intro p hp hserves
    exact hg.top p.descriptor (mem_map_of_mem hp) hserves
  · rintro ⟨prov, rfl, hg⟩
    refine ⟨mem_map_of_mem hg.mem, hg.holds, ?_⟩
    intro d hd hserves
    obtain ⟨p, hp, rfl⟩ := mem_map.mp hd
    exact hg.top p hp hserves

theorem hostFunction_eq (hdis : (ps.map (·.import_)).Nodup) {prov : StringCapabilityProvider H}
    (hmem : prov ∈ ps) (req : CapabilityImport) : hostFunction ps (req, prov.import_) =
      .ok ⟨req.text, prov.function, prov.handler⟩ := by
  have hfind : ps.find? (·.import_ = prov.import_) = some prov := by
    refine find?_eq_some_of_unique hmem (decide_eq_true rfl) ?_
    intro p hp heq
    exact inj_on_of_nodup_map hdis hp hmem (of_decide_eq_true heq)
  rw [hostFunction, hfind]

theorem linked_iff (h : Registered reg (ps.map (·.descriptor)))
    (hdis : (ps.map (·.import_)).Nodup) {f : HostFunction H} :
    (∃ selected, ((reg.resolve req mode grants).mapError
        ComponentError.capability).map (·.import_) = .ok selected ∧
          hostFunction ps (req, selected) = .ok f) ↔
      Linked ps mode grants req f := by
  constructor
  · rintro ⟨selected, hresolve, hfunction⟩
    cases hd : reg.resolve req mode grants with
    | error =>
      rw [hd] at hresolve
      cases hresolve
    | ok d =>
      rw [hd] at hresolve
      obtain rfl : d.import_ = selected := ok.inj hresolve
      obtain ⟨hgranted, hgreatest⟩ := (resolve_ok_iff h).mp hd
      obtain ⟨prov, rfl, hg⟩ := greatest_descriptor_iff.mp hgreatest
      have heq := hostFunction_eq hdis hg.mem req
      exact ⟨hgranted, prov, hg, ok.inj (hfunction.symm.trans heq)⟩
  · rintro ⟨hgranted, prov, hg, rfl⟩
    have hd := (resolve_ok_iff h).mpr ⟨hgranted, greatest_descriptor_iff.mpr ⟨prov, rfl, hg⟩⟩
    refine ⟨prov.import_, ?_, hostFunction_eq hdis hg.mem req⟩
    rw [hd]
    rfl

variable {component : CompiledComponent C} {linker : Linker H}

theorem linkCapabilities_ok_iff : linkCapabilities component ps mode grants = .ok linker ↔
      (ps.map (·.import_)).Nodup ∧ linker.wasi = decide (component.wasiRuntimeImports ≠ []) ∧
      List.Forall₂ (Linked ps mode grants) component.requiredImports
        linker.functions := by
  have himports : (ps.map (·.descriptor)).map (·.import_) = ps.map (·.import_) := by
    rw [map_map]
    rfl
  simp only [linkCapabilities, CompiledComponent.authorizeImports, bind_ok, mapError_ok, pure_ok]
  constructor
  · rintro ⟨_, hnew, resolved, hresolved, _, hfunctions, rfl⟩
    have h := new_ok hnew
    have hdis := himports ▸ h.distinct
    refine ⟨hdis, rfl, ?_⟩
    refine (mapM_zip_ok_iff.mp ⟨resolved, hresolved, hfunctions⟩).imp ?_
    intro req f hf
    exact (linked_iff h hdis).mp hf
  · rintro ⟨hdis, hwasi, hlinked⟩
    obtain ⟨reg, hnew⟩ := new_succeeds (himports.symm ▸ hdis)
    obtain ⟨resolved, hresolved, hfunctions⟩ := mapM_zip_ok_iff.mpr
      (hlinked.imp fun req f hf => (linked_iff (new_ok hnew) hdis).mpr hf)
    refine ⟨reg, hnew, resolved, hresolved, linker.functions, hfunctions, ?_⟩
    rw [← hwasi]

end Tysel.Component
