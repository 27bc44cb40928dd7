import Tysel.Algorithm.Component.Filesystem

/-! A request is permitted when it lies beneath one of the roots, unless it names a root itself. -/

namespace Tysel.Filesystem

open List

open Tysel.Text (trim)

variable {path base : List Char} {parts relative : List Name} {roots : List AllowedRoot}

theorem notMem_of_mem_splitOn (c : Char) (cs : List Char) : ∀ name ∈ cs.splitOn c, c ∉ name := by
  induction cs with
  | nil => simp [splitOn_nil]
  | cons d cs ih =>
    obtain ⟨_, _, hsplit⟩ := exists_cons_of_ne_nil (splitOn_ne_nil c cs)
    rw [hsplit, forall_mem_cons] at ih
    rw [splitOn_cons_eq_if_modifyHead, hsplit]
    split
    · simpa [ih.1] using ih.2
    · rename_i hne
      have hd : c ≠ d := fun h => hne (by simp [h])
      simpa [hd, ih.1] using ih.2

theorem lexicalComponents_ok : lexicalComponents path = .ok parts ↔
    ['.', '.'] ∉ components path ∧ parts = components path := by
  rw [lexicalComponents, mapM_ok_iff]
  induction components path generalizing parts with
  | nil => simp
  | cons name names ih =>
    rw [forall₂_cons_left_iff]
    constructor
    · rintro ⟨_, _, hname, hnames, rfl⟩
      split at hname
      · cases hname
      · rename_i hne
        obtain rfl := Except.ok.inj hname
        obtain ⟨hrest, rfl⟩ := ih.mp hnames
        exact ⟨by simp [hrest, Ne.symm hne], rfl⟩
    · rintro ⟨hnot, rfl⟩
      rw [mem_cons, not_or] at hnot
      exact ⟨name, names, if_neg (Ne.symm hnot.1), ih.mpr ⟨hnot.2, rfl⟩, rfl⟩

theorem stripPrefix_eq {root : List Name} :
    stripPrefix parts root = some relative ↔ parts = root ++ relative := by
  induction root generalizing parts with
  | nil => simp [stripPrefix]
  | cons name root ih =>
    cases parts with
    | nil => simp [stripPrefix]
    | cons part parts =>
      by_cases hname : part = name
      · subst hname
        have hstep : stripPrefix (part :: parts) (part :: root) = stripPrefix parts root := by
          simp only [stripPrefix, length_cons, Nat.add_lt_add_iff_right, zip_cons_cons,
            any_cons, bne_self_eq_false, Bool.false_or, drop_succ_cons]
        rw [hstep, ih]
        simp
      · simp [stripPrefix, hname]

theorem openLoop_ok {root : AllowedRoot} (h : openLoop parts roots = .ok (root, relative)) :
    root ∈ roots ∧ parts = root.parts ++ relative ∧ relative ≠ [] := by
  induction roots with
  | nil => cases h
  | cons _ _ ih =>
    rw [openLoop] at h
    split at h
    · obtain ⟨hmem, hrest⟩ := ih h
      exact ⟨mem_cons_of_mem _ hmem, hrest⟩
    · cases h
    · rename_i hne hstrip
      obtain ⟨rfl, rfl⟩ := Prod.mk.inj (Except.ok.inj h)
      exact ⟨mem_cons_self, stripPrefix_eq.mp hstrip, hne⟩

theorem openLoop_of_prefix (hroot : ∀ root ∈ roots, root.parts ≠ parts)
    (h : ∃ root ∈ roots, root.parts <+: parts) : ∃ r, openLoop parts roots = .ok r := by
  induction roots with
  | nil => simp at h
  | cons _ _ ih =>
    rw [forall_mem_cons] at hroot
    rw [openLoop]
    split
    · rename_i hnone
      refine ih hroot.2 ?_
      obtain ⟨root, hmem, relative, hprefix⟩ := h
      rcases mem_cons.mp hmem with rfl | hmem
      · rw [stripPrefix_eq.mpr hprefix.symm] at hnone
        cases hnone
      · exact ⟨root, hmem, relative, hprefix⟩
    · rename_i hstrip
      have hparts := stripPrefix_eq.mp hstrip
      rw [append_nil] at hparts
      exact absurd hparts.symm hroot.1
    · exact ⟨_, rfl⟩

/-- The request lies beneath a root. -/
def Permitted (path base : List Char) (roots : List AllowedRoot) : Prop :=
  trim path ≠ [] ∧ ['.', '.'] ∉ components (absolute path base) ∧
    ∃ root ∈ roots, root.parts <+: components (absolute path base) ∧
      root.parts ≠ components (absolute path base)

theorem openConfined_ok {r : AllowedRoot × List Name} : openConfined path base roots = .ok r ↔
    trim path ≠ [] ∧ roots ≠ [] ∧ ['.', '.'] ∉ components (absolute path base) ∧
      openLoop (components (absolute path base)) roots = .ok r := by
  simp only [openConfined, bind_ok, reject_ok, lexicalComponents_ok]
  constructor
  · rintro ⟨⟨⟩, hpath, ⟨⟩, hroots, -, ⟨hnot, rfl⟩, hloop⟩
    exact ⟨hpath, hroots, hnot, hloop⟩
  · rintro ⟨hpath, hroots, hnot, hloop⟩
    exact ⟨(), hpath, (), hroots, _, ⟨hnot, rfl⟩, hloop⟩

theorem permitted_of_open (h : ∃ r, openConfined path base roots = .ok r) :
    Permitted path base roots := by
  obtain ⟨⟨root, relative⟩, hr⟩ := h
  obtain ⟨hpath, -, hnot, hloop⟩ := openConfined_ok.mp hr
  obtain ⟨hmem, hparts, hne⟩ := openLoop_ok hloop
  refine ⟨hpath, hnot, root, hmem, ⟨relative, hparts.symm⟩, fun heq => hne ?_⟩
  rw [heq] at hparts
  simpa using hparts

theorem openConfined_iff (hroot : Permitted path base roots →
      ∀ root ∈ roots, root.parts ≠ components (absolute path base)) :
    (∃ r, openConfined path base roots = .ok r) ↔ Permitted path base roots := by
  refine ⟨permitted_of_open, fun hpermitted => ?_⟩
  have ⟨hpath, hnot, root, hmem, hprefix, _⟩ := hpermitted
  obtain ⟨r, hr⟩ := openLoop_of_prefix (hroot hpermitted) ⟨root, hmem, hprefix⟩
  exact ⟨r, openConfined_ok.mpr ⟨hpath, ne_nil_of_mem hmem, hnot, hr⟩⟩

/-- A root that is the request itself closes the roots after it. -/
theorem openConfined_named {root : AllowedRoot}
    (hroot : root.parts = components (absolute path base)) :
    ¬ ∃ r, openConfined path base (root :: roots) = .ok r := by
  rintro ⟨r, hr⟩
  obtain ⟨-, -, -, hloop⟩ := openConfined_ok.mp hr
  rw [openLoop, hroot, stripPrefix_eq.mpr (append_nil _).symm] at hloop
  cases hloop

/-- A request is opened exactly when it lies beneath one of the roots, whatever their order, as
long as none of the roots is the request itself, and not otherwise. The names with which it is
opened spell it together with its root. -/
theorem permission_is_union_of_roots (path base : List Char) (paths : List (List Char)) :
    (((∃ r, openConfined path base (resolveRoots paths base) = .ok r) ↔
        Permitted path base (resolveRoots paths base)) ∧
      (∀ paths', paths'.Perm paths →
        ((∃ r, openConfined path base (resolveRoots paths' base) = .ok r) ↔
          ∃ r, openConfined path base (resolveRoots paths base) = .ok r)) ↔
      (Permitted path base (resolveRoots paths base) →
        ∀ root ∈ resolveRoots paths base, root.parts ≠ components (absolute path base))) ∧
    ∀ root relative, openConfined path base (resolveRoots paths base) = .ok (root, relative) →
      root ∈ resolveRoots paths base ∧
      root.parts ++ relative = components (absolute path base) ∧ relative ≠ [] ∧
      ∀ name ∈ relative, name ≠ ['.', '.'] ∧ name ≠ ['.'] ∧ name ≠ [] ∧ '/' ∉ name := by
  refine ⟨⟨?_, fun hroot => ⟨openConfined_iff hroot, fun paths' hperm => ?_⟩⟩,
    fun root relative h => ?_⟩
  · rintro ⟨hopen, horder⟩ hpermitted root hmem hroot
    obtain ⟨raw, hraw, hresolved⟩ := mem_filterMap.mp hmem
    -- With the root in front the request is refused.
    have hfirst := (horder _ (perm_cons_erase hraw).symm).mpr (hopen.mpr hpermitted)
    rw [resolveRoots, filterMap_cons_some hresolved] at hfirst
    exact openConfined_named hroot hfirst
  · have hsame : ∀ root, root ∈ resolveRoots paths' base ↔ root ∈ resolveRoots paths base :=
      fun root => (hperm.filterMap _).mem_iff
    have hpermitted : Permitted path base (resolveRoots paths' base) ↔
        Permitted path base (resolveRoots paths base) := by
      simp only [Permitted, hsame]
    rw [openConfined_iff hroot, openConfined_iff fun h root hmem =>
      hroot (hpermitted.mp h) root ((hsame root).mp hmem), hpermitted]
  · obtain ⟨-, -, hnot, hloop⟩ := openConfined_ok.mp h
    obtain ⟨hmem, hparts, hne⟩ := openLoop_ok hloop
    refine ⟨hmem, hparts.symm, hne, fun name hname => ?_⟩
    have hname : name ∈ components (absolute path base) := hparts ▸ mem_append_right _ hname
    obtain ⟨hsplit, hplain⟩ := mem_filter.mp hname
    obtain ⟨hempty, hdot⟩ := of_decide_eq_true hplain
    exact ⟨fun h => hnot (h ▸ hname), hdot, hempty, notMem_of_mem_splitOn '/' _ name hsplit⟩

theorem permission_beneath_nested_root : ∃ r, openConfined "/data/logs/app.txt".toList "/srv".toList
      (resolveRoots ["/data/logs".toList, "/data".toList] "/srv".toList) = .ok r :=
  ((permission_is_union_of_roots _ _ _).1.mpr fun _ => by decide +kernel).1.mpr
    (by unfold Permitted; decide +kernel)

/-- A root that is the request itself hides a root around it, unless that one comes first. -/
theorem named_root_hides_outer_root : openConfined "/data/logs".toList "/srv".toList
      (resolveRoots ["/data/logs".toList, "/data".toList] "/srv".toList) =
        .error "path is not permitted" ∧ openConfined "/data/logs".toList "/srv".toList
      (resolveRoots ["/data".toList, "/data/logs".toList] "/srv".toList) =
        .ok (⟨["data".toList], "/data".toList⟩, ["logs".toList]) := by
  decide +kernel

end Tysel.Filesystem
