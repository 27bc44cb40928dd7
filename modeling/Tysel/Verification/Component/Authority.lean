import Tysel.Algorithm.Component.Service
import Tysel.Verification.Component.Registry

/-! Code of a packaged Component runs only when each of its imports is granted by every layer, and
the functions it then reaches are those it imports. Fewer grants never make more functions
reachable, as long as the filesystem can be set up. -/

namespace Tysel.Component

open Tysel.Text List Except CapabilityImport ComponentRuntimePolicy
open Tysel.Package

variable {C H : Type} {W : Wasmtime C} {name : String} {config : ComponentEngineConfig}
  {ps : List (StringCapabilityProvider FsHandler)}

/-! ## Versions -/

/-- A provider is compatible when it is not older, of the same major version, and before version
1 of the same minor version. -/
theorem isCompatibleProviderFor_iff (v req : AbiVersion) :
    v.isCompatibleProviderFor req = true ↔ req ≤ v ∧ v.major = req.major ∧
        (req.major = 0 → v.minor = req.minor) := by
  rw [AbiVersion.isCompatibleProviderFor]
  split
  · rename_i h
    refine iff_of_false (by simp) ?_
    rintro ⟨hle, hmajor, -⟩
    rcases h with h | h
    · exact absurd h (not_lt.mpr hle)
    · exact h hmajor
  rename_i h
  push Not at h
  simp only [Bool.or_eq_true, decide_eq_true_eq]
  constructor
  · rintro hminor
    refine ⟨h.1, h.2, fun hzero => ?_⟩
    exact hminor.resolve_left (fun hne => hne hzero)
  · rintro ⟨-, -, hminor⟩
    exact or_iff_not_imp_left.mpr fun hzero => hminor (not_not.mp hzero)

theorem compatible_first_iff (req : AbiVersion) :
    (⟨0, 4, 0⟩ : AbiVersion).isCompatibleProviderFor req = true ↔ req = ⟨0, 4, 0⟩ := by
  have hlt (v w : AbiVersion) : v < w ↔ v.rank < w.rank := .rfl
  rw [isCompatibleProviderFor_iff, ← not_lt, hlt]
  obtain ⟨-, -, -⟩ := req
  simp only [AbiVersion.rank, Prod.Lex.toLex_lt_toLex, AbiVersion.mk.injEq]
  omega

/-! ## Compilation -/

theorem mem_dedup {α : Type*} [DecidableEq α] {x : α} {xs : List α} : x ∈ dedup xs ↔ x ∈ xs := by
  induction xs with
  | nil => rfl
  | cons _ ys ih =>
    cases ys with
    | nil => rfl
    | cons =>
      rw [dedup]
      split
      · rename_i heq
        rw [ih, heq]
        simp
      · rw [mem_cons, ih]
        exact mem_cons.symm

theorem foldlM_addImport_ok {names : List String}
    {found found' : List CapabilityImport × List String}
    (h : names.foldlM (addImport W) found = .ok found') :
    (∀ name ∈ names, isWasi name = true → validateWasiRuntimeImport W name = .ok ()) ∧
      (∀ name ∈ names, isWasi name = false → ∃ req, parse W.semver name = .ok req) ∧
      ∀ req, req ∈ found'.1 ↔ req ∈ found.1 ∨
        ∃ name ∈ names, isWasi name = false ∧ parse W.semver name = .ok req := by
  induction names generalizing found with
  | nil =>
    obtain rfl := ok.inj h
    simp
  | cons _ _ ih =>
    rw [foldlM_cons, bind_ok] at h
    obtain ⟨next, hstep, hrest⟩ := h
    obtain ⟨hwasi, hparsed, hfrom⟩ := ih hrest
    rw [addImport] at hstep
    split at hstep
    · rename_i hname
      simp only [bind_ok, pure_ok] at hstep
      obtain ⟨⟨⟩, hvalid, rfl⟩ := hstep
      simp only [forall_mem_cons]
      exact ⟨⟨fun _ => hvalid, hwasi⟩, ⟨by simp [hname], hparsed⟩, by simp [hname, hfrom]⟩
    · rename_i hname
      simp only [bind_ok, pure_ok, capabilityImport, mapError_ok] at hstep
      obtain ⟨required, hrequired, rfl⟩ := hstep
      simp only [forall_mem_cons]
      refine ⟨⟨by simp [hname], hwasi⟩, ⟨fun _ => ⟨required, hrequired⟩, hparsed⟩, ?_⟩
      intro req
      simp [hname, hfrom, hrequired, or_assoc, eq_comm (a := req)]

def Imports (W : Wasmtime C) (component : C) (req : CapabilityImport) : Prop :=
  ∃ name ∈ W.imports component, isWasi name = false ∧ parse W.semver name = .ok req

/-- The WASI import is an interface of the allowed list, of version 0.2. -/
def WasiAllowed (W : Wasmtime C) (name : String) : Prop :=
  ∃ iface version v, rsplitOnce '@' name.toList = some (iface, version) ∧
    AbiVersion.parse W.semver (String.ofList version) = .ok v ∧ v.major = 0 ∧ v.minor = 2 ∧
    String.ofList iface ∈ allowedWasiRuntimeInterfaces

theorem validateWasiRuntimeImport_ok
    (h : validateWasiRuntimeImport W name = .ok ()) : WasiAllowed W name := by
  rw [validateWasiRuntimeImport] at h
  split at h
  · cases h
  rename_i iface version hsplit
  simp only [bind_ok, mapError_ok, reject_ok] at h
  obtain ⟨v, hversion, hallowed⟩ := h
  push Not at hallowed
  exact ⟨iface, version, v, hsplit, hversion, hallowed⟩

variable {cc : CompiledComponent C}

theorem compile_ok {bytes : Bytes} (h : compile W config bytes = .ok cc) :
    (∀ name ∈ W.imports cc.component, isWasi name = true → WasiAllowed W name) ∧
      (∀ name ∈ W.imports cc.component, isWasi name = false →
        ∃ req ∈ cc.requiredImports, parse W.semver name = .ok req) ∧
      ∀ req, req ∈ cc.requiredImports ↔ Imports W cc.component req := by
  simp only [compile, bind_ok, mapError_ok, pure_ok] at h
  obtain ⟨-, -, component, -, -, -, ⟨required, wasi⟩, hloop, rfl⟩ := h
  obtain ⟨hwasi, hparsed, hfrom⟩ := foldlM_addImport_ok hloop
  have hmem : ∀ req, req ∈ dedup (required.insertionSort byRank) ↔ Imports W component req := by
    intro req
    rw [mem_dedup, mem_insertionSort, hfrom req]
    simp [Imports]
  refine ⟨fun name hname hisWasi => validateWasiRuntimeImport_ok (hwasi name hname hisWasi), ?_,
    hmem⟩
  intro name hname hother
  obtain ⟨req, hparse⟩ := hparsed name hname hother
  exact ⟨req, (hmem req).mpr ⟨name, hname, hother, hparse⟩, hparse⟩

/-! ## The functions on files -/

def fsProvider (iface : String) (handler : FsHandler) : StringCapabilityProvider FsHandler :=
  ⟨fsDescriptor iface, "call", handler⟩

/-- The layers of the package and of the deployment admit the import. -/
def Served (man : PackageManifest) (pol : ComponentRuntimePolicy) (req : CapabilityImport) : Prop :=
  (req = fsImport "read" ∧ allowRead man pol = true) ∨
    (req = fsImport "write" ∧ allowWrite man pol = true)

theorem provider_new (iface : String) (handler : FsHandler) :
    StringCapabilityProvider.new (fsDescriptor iface) "call" handler =
      .ok (fsProvider iface handler) := rfl

variable {hostIo : Except String Unit} {man : PackageManifest}
   {pol : ComponentRuntimePolicy}

theorem mem_componentCapabilityProviders
    (h : componentCapabilityProviders hostIo man pol = .ok ps) :
    (ps.map (·.import_)).Nodup ∧ ∃ filesystem, ∀ p, p ∈ ps ↔
      (p = fsProvider "read" (.read filesystem) ∧ allowRead man pol = true) ∨
        (p = fsProvider "write" (.write filesystem) ∧ allowWrite man pol = true) := by
  rw [componentCapabilityProviders] at h
  cases hread : allowRead man pol <;> cases hwrite : allowWrite man pol
  · simp only [hread, hwrite] at h
    obtain rfl := ok.inj h
    exact ⟨nodup_nil, ⟨[], [], none⟩, by simp⟩
  all_goals
    simp only [hread, hwrite, provider_new] at h
    obtain ⟨filesystem, -, hps⟩ := bind_ok.mp h
    obtain rfl := ok.inj hps
    refine ⟨?_, filesystem, ?_⟩
  · exact nodup_singleton (fsImport "write")
  · simp
  · exact nodup_singleton (fsImport "read")
  · simp
  · have hboth : [fsImport "read", fsImport "write"].Nodup := by decide
    exact hboth
  · simp

variable {req : CapabilityImport} {iface : String}

theorem serves_fsDescriptor_iff :
    Serves req .isolatedTask (fsDescriptor iface) ↔ req = fsImport iface := by
  constructor
  · rintro ⟨hkey, hcompatible, -⟩
    exact eq_of_key_version hkey.symm ((compatible_first_iff _).mp hcompatible)
  · rintro rfl
    exact ⟨rfl, (compatible_first_iff _).mpr rfl, Finset.mem_singleton_self _⟩

theorem allowsInterface_granted (h : pol.allowsInterface "tysel:fs" iface = true) :
    "tysel:fs" ∈ pol.effectiveCapabilityGrants := by
  rw [allowsInterface, Bool.or_eq_true, decide_eq_true_eq, decide_eq_true_eq] at h
  rw [effectiveCapabilityGrants]
  split
  · exact Finset.mem_insert_self ..
  rename_i hnone
  refine h.resolve_right fun hinterface => hnone ⟨_, hinterface, ?_⟩
  have htext : ("tysel:fs" ++ "/" ++ iface).toList = "tysel:fs/".toList ++ iface.toList := by
    rw [String.toList_append]
    rfl
  rw [startsWith, htext]
  simp

/-- An import that is served has its capability granted by every layer. -/
theorem Served.granted (h : Served man pol req) :
    req.id ∈ componentApplicationGrants man ∧ req.id ∈ pol.effectiveCapabilityGrants := by
  have hlists : ∀ {roots : List String} {allowed : Bool},
      (!roots.isEmpty && allowed) = true → roots ≠ [] ∧ allowed = true := by
    intro roots allowed hboth
    rw [Bool.and_eq_true] at hboth
    exact ⟨by simpa using hboth.1, hboth.2⟩
  rcases h with ⟨rfl, hallow⟩ | ⟨rfl, hallow⟩
  · obtain ⟨hroots, hpolicy⟩ := hlists hallow
    rw [componentApplicationGrants, if_pos (.inl hroots)]
    exact ⟨Finset.mem_singleton_self _, allowsInterface_granted hpolicy⟩
  · obtain ⟨hroots, hpolicy⟩ := hlists hallow
    rw [componentApplicationGrants, if_pos (.inr hroots)]
    exact ⟨Finset.mem_singleton_self _, allowsInterface_granted hpolicy⟩

/-- One import of a packaged Component is linked exactly when it is served, and then as the
function `call` of its instance. -/
theorem linked_packaged_iff (h : componentCapabilityProviders hostIo man pol = .ok ps)
    (hreq : req ∈ cc.requiredImports) :
    (∀ f, Linked ps .isolatedTask (componentGrants man pol cc) req f →
        Served man pol req ∧ f.name = req.text ∧ f.function = "call") ∧
      (Served man pol req → ∃ f, Linked ps .isolatedTask (componentGrants man pol cc) req f) := by
  obtain ⟨-, filesystem, hmem⟩ := mem_componentCapabilityProviders h
  have hserves : ∀ p ∈ ps, Serves req .isolatedTask p.descriptor →
      Served man pol req ∧ p.function = "call" := by
    intro p hp hp'
    rcases (hmem p).mp hp with ⟨rfl, hallow⟩ | ⟨rfl, hallow⟩
    · exact ⟨.inl ⟨serves_fsDescriptor_iff.mp hp', hallow⟩, rfl⟩
    · exact ⟨.inr ⟨serves_fsDescriptor_iff.mp hp', hallow⟩, rfl⟩
  constructor
  · rintro - ⟨-, prov, hg, rfl⟩
    obtain ⟨hserved, hcall⟩ := hserves prov hg.mem hg.holds
    exact ⟨hserved, rfl, hcall⟩
  intro hserved
  have hgranted : req.id ∈ componentGrants man pol cc := by
    rw [componentGrants, effectiveGrants, Finset.mem_filter, Finset.mem_inter]
    exact ⟨⟨mem_toFinset.mpr (mem_map_of_mem hreq), hserved.granted.1⟩, hserved.granted.2⟩
  have hsame : ∀ p ∈ ps, Serves req .isolatedTask p.descriptor →
      p.descriptor.version ≤ ⟨0, 4, 0⟩ := by
    intro p hp _
    rcases (hmem p).mp hp with ⟨rfl, -⟩ | ⟨rfl, -⟩ <;> exact le_rfl
  rcases hserved with ⟨rfl, hallow⟩ | ⟨rfl, hallow⟩
  · exact ⟨_, hgranted, fsProvider "read" (.read filesystem),
      ⟨(hmem _).mpr (.inl ⟨rfl, hallow⟩), serves_fsDescriptor_iff.mpr rfl, hsame⟩, rfl⟩
  · exact ⟨_, hgranted, fsProvider "write" (.write filesystem),
      ⟨(hmem _).mpr (.inr ⟨rfl, hallow⟩), serves_fsDescriptor_iff.mpr rfl, hsame⟩, rfl⟩

/-! ## Invocation -/

theorem exists_forall₂_iff {α β : Type*} {R : α → β → Prop} {xs : List α} :
    (∃ ys, List.Forall₂ R xs ys) ↔ ∀ x ∈ xs, ∃ y, R x y := by
  induction xs with
  | nil => simp
  | cons _ _ ih =>
    rw [forall_mem_cons, ← ih]
    constructor
    · rintro ⟨_, hall⟩
      obtain ⟨y, ys, hy, hys, -⟩ := forall₂_cons_left_iff.mp hall
      exact ⟨⟨y, hy⟩, ys, hys⟩
    · rintro ⟨⟨y, hy⟩, ys, hys⟩
      exact ⟨y :: ys, .cons hy hys⟩

def linkedNames (cc : CompiledComponent C) : List (String × String) :=
  cc.requiredImports.map fun req => (req.text, "call")

theorem forall₂_names {R : CapabilityImport → HostFunction H → Prop}
    {required : List CapabilityImport} {functions : List (HostFunction H)}
    (h : List.Forall₂ R required functions)
    (hname : ∀ r ∈ required, ∀ f, R r f → f.name = r.text ∧ f.function = "call") :
    (functions.map fun f => (f.name, f.function)) = required.map fun r => (r.text, "call") := by
  induction h with
  | nil => rfl
  | cons hr _ ih =>
    rw [forall_mem_cons] at hname
    obtain ⟨hfirst, hrest⟩ := hname
    rw [map_cons, map_cons, ih hrest, (hfirst _ hr).1, (hfirst _ hr).2]

/-- What it takes for code of a packaged Component to run. -/
structure Runs (W : Wasmtime C) (hostIo : Except String Unit) (tap : Tap) (input : String)
    (pol : ComponentRuntimePolicy) (cc : CompiledComponent C) : Prop where
  compiles : compilePackaged W tap = .ok cc
  setUp : ∃ ps, componentCapabilityProviders hostIo tap.manifest pol = .ok ps
  served : ∀ req ∈ cc.requiredImports, Served tap.manifest pol req
  input_le : input.utf8ByteSize ≤ maxComponentInputBytes
  json : W.parseJson input = .ok ()
  instantiates : W.instantiates (cc.wasiRuntimeImports ≠ []) (linkedNames cc)
    cc.component = true

variable {input : String}

theorem invokeWithLinker_ok_iff {linker linker' : Linker H} :
    invokeWithLinker W config cc input linker = .ok linker' ↔
      linker = linker' ∧ input.utf8ByteSize ≤ config.maxInputBytes ∧ W.parseJson input = .ok () ∧
        W.instantiates linker.wasi (linker.functions.map fun f => (f.name, f.function))
          cc.component = true := by
  simp only [invokeWithLinker, bind_ok, reject_ok, mapError_ok, pure_ok, Bool.not_eq_false, not_lt]
  constructor
  · rintro ⟨_, hinput, _, hjson, _, hinstantiates, rfl⟩
    exact ⟨rfl, hinput, hjson, hinstantiates⟩
  · rintro ⟨rfl, hinput, hjson, hinstantiates⟩
    exact ⟨(), hinput, (), hjson, (), hinstantiates, rfl⟩

variable {tap : Tap}

/-- The linker that code of a packaged Component runs with has exactly its imports. -/
theorem invoke_runs {linker : Linker FsHandler}
    (h : invokeComponentTapWithPolicy W hostIo tap input pol = .ok linker) :
    ∃ cc, Runs W hostIo tap input pol cc ∧
      (linker.functions.map fun f => (f.name, f.function)) = linkedNames cc := by
  simp only [invokeComponentTapWithPolicy, bind_ok, mapError_ok, invokeJsonWithCapabilities] at h
  obtain ⟨cc, hcompiled, ps, hps, _, hlink, hinvoke⟩ := h
  obtain ⟨rfl, hinput, hjson, hinstantiates⟩ := invokeWithLinker_ok_iff.mp hinvoke
  obtain ⟨-, hwasi, hlinked⟩ := linkCapabilities_ok_iff.mp hlink
  have hserved : ∀ req ∈ cc.requiredImports, ∀ f,
      Linked ps .isolatedTask (componentGrants tap.manifest pol cc) req f →
        Served tap.manifest pol req ∧ f.name = req.text ∧ f.function = "call" :=
    fun req hreq => (linked_packaged_iff hps hreq).1
  have hnames := forall₂_names hlinked fun r hr f hf => (hserved r hr f hf).2
  refine ⟨cc, ⟨hcompiled, ⟨ps, hps⟩, ?_, hinput, hjson, ?_⟩, hnames⟩
  · intro req hreq
    obtain ⟨f, hf⟩ := exists_forall₂_iff.mp ⟨_, hlinked⟩ req hreq
    exact (hserved req hreq f hf).1
  · rw [hwasi, hnames] at hinstantiates
    exact hinstantiates

theorem Runs.invoke (h : Runs W hostIo tap input pol cc) :
    ∃ linker, invokeComponentTapWithPolicy W hostIo tap input pol = .ok linker := by
  obtain ⟨ps, hps⟩ := h.setUp
  obtain ⟨functions, hlinked⟩ := exists_forall₂_iff.mpr fun req hreq =>
    (linked_packaged_iff hps hreq).2 (h.served req hreq)
  have hnames := forall₂_names hlinked fun r hr f hf =>
    ((linked_packaged_iff hps hr).1 f hf).2
  have hlink : linkCapabilities cc ps .isolatedTask
      (componentGrants tap.manifest pol cc) =
      .ok ⟨cc.wasiRuntimeImports ≠ [], functions⟩ :=
    linkCapabilities_ok_iff.mpr ⟨(mem_componentCapabilityProviders hps).1, rfl, hlinked⟩
  refine ⟨⟨cc.wasiRuntimeImports ≠ [], functions⟩, ?_⟩
  simp only [invokeComponentTapWithPolicy, bind_ok, mapError_ok, invokeJsonWithCapabilities]
  refine ⟨cc, h.compiles, ps, hps, _, hlink,
    invokeWithLinker_ok_iff.mpr ⟨rfl, h.input_le, h.json, ?_⟩⟩
  rw [hnames]
  exact h.instantiates

theorem reaches_iff {function : String} :
    Reaches (invokeComponentTapWithPolicy W hostIo tap input pol) name function ↔
      ∃ cc, Runs W hostIo tap input pol cc ∧ (name, function) ∈ linkedNames cc := by
  have hnamed : ∀ linker : Linker FsHandler,
      (∃ f ∈ linker.functions, f.name = name ∧ f.function = function) ↔
        (name, function) ∈ linker.functions.map fun f => (f.name, f.function) := by
    intro linker
    simp only [mem_map, Prod.mk.injEq]
  constructor
  · rintro ⟨linker, hinvoke, hf⟩
    obtain ⟨cc, hruns, hnames⟩ := invoke_runs hinvoke
    exact ⟨cc, hruns, hnames ▸ (hnamed linker).mp hf⟩
  rintro ⟨cc, hruns, hmem⟩
  obtain ⟨linker, hinvoke⟩ := hruns.invoke
  obtain ⟨cc', hruns', hnames⟩ := invoke_runs hinvoke
  obtain rfl : cc = cc' := ok.inj (hruns.compiles.symm.trans hruns'.compiles)
  exact ⟨linker, hinvoke, (hnamed linker).mpr (hnames ▸ hmem)⟩

/-! ## Fewer grants -/

variable {pol' : ComponentRuntimePolicy}

theorem allow_mono {roots roots' : List String} (hroots : roots'.Sublist roots)
    (hgrants : pol'.deploymentGrants ⊆ pol.deploymentGrants)
    (hinterfaces : pol'.deploymentInterfaces ⊆ pol.deploymentInterfaces)
    (h : (!roots'.isEmpty && pol'.allowsInterface "tysel:fs" iface) = true) :
    (!roots.isEmpty && pol.allowsInterface "tysel:fs" iface) = true := by
  simp only [Bool.and_eq_true, Bool.not_eq_true', isEmpty_eq_false_iff,
    allowsInterface, Bool.or_eq_true, decide_eq_true_eq] at h ⊢
  obtain ⟨hlisted, hallowed⟩ := h
  refine ⟨?_, hallowed.imp (fun hg => hgrants hg) (fun hi => hinterfaces hi)⟩
  rintro rfl
  exact hlisted (sublist_nil.mp hroots)

theorem Served.mono {read write : List String} (hread : read.Sublist man.fsRead)
    (hwrite : write.Sublist man.fsWrite) (hgrants : pol'.deploymentGrants ⊆ pol.deploymentGrants)
    (hinterfaces : pol'.deploymentInterfaces ⊆ pol.deploymentInterfaces)
    (h : Served { man with fsRead := read, fsWrite := write } pol' req) :
    Served man pol req := by
  rcases h with ⟨rfl, hallow⟩ | ⟨rfl, hallow⟩
  · exact .inl ⟨rfl, allow_mono hread hgrants hinterfaces hallow⟩
  · exact .inr ⟨rfl, allow_mono hwrite hgrants hinterfaces hallow⟩

/-! ## Reading and writing files -/

theorem compilePackaged_ok (h : compilePackaged W tap = .ok cc) : ∃ component : PackagedComponent,
      compile W (engineConfig tap.manifest) component.source = .ok cc := by
  rw [compilePackaged] at h
  split at h
  · rename_i component _
    simp only [bind_ok, mapError_ok] at h
    obtain ⟨-, -, -, -, hcompile⟩ := h
    exact ⟨component, hcompile⟩
  · cases h

theorem fsImport_text_ne : (fsImport "read").text ≠ (fsImport "write").text := by decide

/-! ## All layers -/

/-- The provider is of the highest version that is registered for the interface, allowed in the
trust mode and compatible with the request. -/
def Highest (ps : List (StringCapabilityProvider H)) (req : CapabilityImport)
    (mode : TrustMode) (prov : StringCapabilityProvider H) : Prop :=
  Greatest (fun p : StringCapabilityProvider H => p.descriptor.version)
    (fun p => p.import_.id = req.id ∧ p.import_.interface = req.interface ∧
      req.version ≤ p.descriptor.version ∧
      p.descriptor.version.major = req.version.major ∧
      (req.version.major = 0 → p.descriptor.version.minor = req.version.minor) ∧
      mode ∈ p.descriptor.trustModes) ps prov

theorem serves_iff {mode : TrustMode} {d : CapabilityDescriptor} :
    Serves req mode d ↔ d.import_.id = req.id ∧ d.import_.interface = req.interface ∧
        req.version ≤ d.version ∧ d.version.major = req.version.major ∧
        (req.version.major = 0 → d.version.minor = req.version.minor) ∧
        mode ∈ d.trustModes := by
  constructor
  · rintro ⟨hkey, hcompatible, htrusted⟩
    obtain ⟨hid, hinterface⟩ := Prod.mk.inj hkey
    obtain ⟨hle, hmajor, hminor⟩ := (isCompatibleProviderFor_iff _ _).mp hcompatible
    exact ⟨hid, hinterface, hle, hmajor, hminor, htrusted⟩
  · rintro ⟨hid, hinterface, hle, hmajor, hminor, htrusted⟩
    exact ⟨Prod.ext hid hinterface, (isCompatibleProviderFor_iff _ _).mpr ⟨hle, hmajor, hminor⟩,
      htrusted⟩

/-- The authority of a Component. Code runs only when every import is resolved within the grants
of all layers or is an allowed one of WASI. A provider list of any kind is searched for the
highest compatible version, whatever its order, and with more grants links the same functions.
A function on files is reached when code runs and the Component imports it, with roots in the
manifest and permission of the policy. With less in the manifest or the policy nothing more is
reached, provided the filesystem for the larger authority can be set up. -/
theorem component_authority (W : Wasmtime C) : (∀ hostIo tap input pol linker,
      invokeComponentTapWithPolicy W hostIo tap input pol = .ok linker →
      ∃ cc ps registry, compilePackaged W tap = .ok cc ∧
        componentCapabilityProviders hostIo tap.manifest pol = .ok ps ∧
        CapabilityRegistry.new (ps.map (·.descriptor)) = .ok registry ∧
        (∀ name ∈ W.imports cc.component, isWasi name = true → WasiAllowed W name) ∧
        ∀ name ∈ W.imports cc.component, isWasi name = false →
          ∃ req d, parse W.semver name = .ok req ∧ registry.resolve req .isolatedTask
              (componentGrants tap.manifest pol cc) = .ok d ∧
            req.id ∈ (cc.requiredImports.map (·.id)).toFinset ∧
            req.id ∈ componentApplicationGrants tap.manifest ∧
            req.id ∈ pol.effectiveCapabilityGrants ∧
            TrustMode.isolatedTask ∈ d.trustModes) ∧
    (∀ (H : Type) config cc input (ps : List (StringCapabilityProvider H)) mode
      build application deployment linker,
      invokeJsonWithCapabilities W config cc input ps mode
        (effectiveGrants build application deployment) = .ok linker →
      List.Forall₂ (fun req f =>
          (req.id ∈ build ∧ req.id ∈ application ∧ req.id ∈ deployment) ∧
          ∃ prov, Highest ps req mode prov ∧ f = ⟨req.text, prov.function, prov.handler⟩)
        cc.requiredImports linker.functions ∧
      (∀ ps', ps.Perm ps' → invokeJsonWithCapabilities W config cc input ps' mode
          (effectiveGrants build application deployment) = .ok linker) ∧
      ∀ build' application' deployment', build ⊆ build' → application ⊆ application' →
        deployment ⊆ deployment' →
        invokeJsonWithCapabilities W config cc input ps mode
          (effectiveGrants build' application' deployment') = .ok linker) ∧
    (∀ hostIo (tap : Tap) input pol iface roots,
      (iface, roots) ∈ [("read", tap.manifest.fsRead), ("write", tap.manifest.fsWrite)] →
      (Reaches (invokeComponentTapWithPolicy W hostIo tap input pol) (fsImport iface).text "call" ↔
        (∃ linker, invokeComponentTapWithPolicy W hostIo tap input pol = .ok linker) ∧
          ∃ cc, compilePackaged W tap = .ok cc ∧ Imports W cc.component (fsImport iface) ∧
            roots ≠ [] ∧ pol.allowsInterface "tysel:fs" iface = true)) ∧
    (∀ hostIo (tap : Tap) input (pol pol' : ComponentRuntimePolicy) read write name function,
      read.Sublist tap.manifest.fsRead → write.Sublist tap.manifest.fsWrite →
      pol'.deploymentGrants ⊆ pol.deploymentGrants →
      pol'.deploymentInterfaces ⊆ pol.deploymentInterfaces →
      (∃ ps, componentCapabilityProviders hostIo tap.manifest pol = .ok ps) →
      Reaches (invokeComponentTapWithPolicy W hostIo
        { tap with manifest := { tap.manifest with fsRead := read, fsWrite := write } } input
        pol') name function →
      Reaches (invokeComponentTapWithPolicy W hostIo tap input pol) name function) := by
  refine ⟨?_, ?_, ?_, ?_⟩
  · intro hostIo tap input pol linker h
    obtain ⟨cc, hruns, -⟩ := invoke_runs h
    obtain ⟨ps, hps⟩ := hruns.setUp
    have hdistinct : ((ps.map (·.descriptor)).map (·.import_)).Nodup := by
      rw [map_map]
      exact (mem_componentCapabilityProviders hps).1
    obtain ⟨registry, hnew⟩ := new_succeeds hdistinct
    obtain ⟨_, hcompile⟩ := compilePackaged_ok hruns.compiles
    obtain ⟨hwasi, hparsed, -⟩ := compile_ok hcompile
    refine ⟨cc, ps, registry, hruns.compiles, hps, hnew, hwasi, ?_⟩
    intro name hname hother
    obtain ⟨req, hreq, hparse⟩ := hparsed name hname hother
    obtain ⟨f, hgranted, prov, hg, -⟩ := (linked_packaged_iff hps hreq).2 (hruns.served req hreq)
    have hgreatest := greatest_descriptor_iff.mpr ⟨prov, rfl, hg⟩
    have hd := (resolve_ok_iff (new_ok hnew)).mpr ⟨hgranted, hgreatest⟩
    obtain ⟨happlication, hdeployment⟩ := (hruns.served req hreq).granted
    have hbuild := mem_toFinset.mpr (mem_map_of_mem (f := (·.id)) hreq)
    exact ⟨req, _, hparse, hd, hbuild, happlication, hdeployment, hg.holds.trusted⟩
  · intro H config cc input ps mode build application deployment linker h
    simp only [invokeJsonWithCapabilities, bind_ok] at h ⊢
    obtain ⟨linker', hlink, hinvoke⟩ := h
    obtain ⟨rfl, -⟩ := invokeWithLinker_ok_iff.mp hinvoke
    obtain ⟨hdistinct, hwasi, hlinked⟩ := linkCapabilities_ok_iff.mp hlink
    refine ⟨hlinked.imp ?_, ?_, ?_⟩
    · rintro req f ⟨hgranted, hprovider⟩
      simp only [effectiveGrants, Finset.mem_filter, Finset.mem_inter] at hgranted
      simp only [serves_iff] at hprovider
      exact ⟨⟨hgranted.1.1, hgranted.1.2, hgranted.2⟩, hprovider⟩
    · intro ps' hperm
      refine ⟨linker', linkCapabilities_ok_iff.mpr
        ⟨(hperm.map _).nodup_iff.mp hdistinct, hwasi, hlinked.imp ?_⟩, hinvoke⟩
      rintro req f ⟨hgranted, prov, hg, hf⟩
      exact ⟨hgranted, prov, hg.perm hperm, hf⟩
    · intro build' application' deployment' hbuild happlication hdeployment
      refine ⟨linker', linkCapabilities_ok_iff.mpr ⟨hdistinct, hwasi, hlinked.imp ?_⟩, hinvoke⟩
      rintro req f ⟨hgranted, hprovider⟩
      refine ⟨?_, hprovider⟩
      simp only [effectiveGrants, Finset.mem_filter, Finset.mem_inter] at hgranted ⊢
      exact ⟨⟨hbuild hgranted.1.1, happlication hgranted.1.2⟩, hdeployment hgranted.2⟩
  · intro hostIo tap input pol iface roots hroots
    have hserved : ∀ req, Served tap.manifest pol req →
        req.text = (fsImport iface).text → req = fsImport iface ∧ roots ≠ [] ∧
            pol.allowsInterface "tysel:fs" iface = true := by
      intro req hserved htext
      simp only [mem_cons, Prod.mk.injEq, not_mem_nil, or_false] at hroots
      rcases hserved with ⟨rfl, hallow⟩ | ⟨rfl, hallow⟩ <;>
        rcases hroots with ⟨rfl, rfl⟩ | ⟨rfl, rfl⟩
      · simpa [allowRead] using hallow
      · exact absurd htext fsImport_text_ne
      · exact absurd htext.symm fsImport_text_ne
      · simpa [allowWrite] using hallow
    rw [reaches_iff]
    constructor
    · rintro ⟨cc, hruns, hname⟩
      obtain ⟨req, hreq, hpair⟩ := mem_map.mp hname
      obtain ⟨rfl, hlisted⟩ := hserved req (hruns.served req hreq) (Prod.mk.inj hpair).1
      obtain ⟨_, hcompile⟩ := compilePackaged_ok hruns.compiles
      have himports := ((compile_ok hcompile).2.2 _).mp hreq
      exact ⟨hruns.invoke, cc, hruns.compiles, himports, hlisted⟩
    · rintro ⟨⟨_, hinvoke⟩, cc, hcompiled, himports, -⟩
      obtain ⟨cc', hruns, -⟩ := invoke_runs hinvoke
      obtain rfl : cc = cc' := ok.inj (hcompiled.symm.trans hruns.compiles)
      obtain ⟨_, hcompile⟩ := compilePackaged_ok hcompiled
      have hreq := ((compile_ok hcompile).2.2 _).mpr himports
      exact ⟨cc, hruns, mem_map.mpr ⟨_, hreq, rfl⟩⟩
  · intro hostIo tap input pol pol' read write name function hread hwrite hgrants
      hinterfaces hsetUp h
    obtain ⟨cc, hruns, hname⟩ := reaches_iff.mp h
    refine reaches_iff.mpr ⟨cc, ⟨?_, hsetUp, ?_, hruns.input_le, hruns.json, ?_⟩, hname⟩
    · exact hruns.compiles
    · intro req hreq
      exact (hruns.served req hreq).mono hread hwrite hgrants hinterfaces
    · exact hruns.instantiates

/-- Components that are given by their imports; instantiation needs all of them linked. -/
def sampleWasmtime : Wasmtime (List String) where
  new bytes := .ok (if bytes = [] then ["tysel:fs/write@0.4.0"]
    else ["tysel:fs/read@0.4.0", "tysel:fs/write@0.4.0"])
  imports names := names
  taskExport _ := .ok ()
  instantiates _ linked names := names.all fun name => (linked.map (·.1)).contains name
  parseJson _ := .ok ()
  semver source := if source = "0.4.0" then some ⟨⟨0, 4, 0⟩, "", ""⟩ else none

def sampleTap (source : Bytes) (read write : List String) : Tap where
  manifest :=
    { formatVersion := 5, runtimeVersion := "0.4.0", applicationId := "app", entrypoint := "main",
      executionProfile := "component", listen := "", memoryLimitBytes := 1048576,
      cpuMsPerTurn := 50, requestTimeoutMs := 1000, bundleHash := "", maxRequestBytes := 1024,
      maxResponseBytes := 1024, websocket := false, workers := 1, maxInFlight := 1, http1 := true,
      http2 := false, sqlitePath := "", secretNames := [], fetchHosts := [], postgres := [],
      redis := [], fsRead := read, fsWrite := write, jsonLogs := true }
  bundle := []
  sourceMap := []
  components := [⟨"main", "0.4.0", source, []⟩]

def samplePolicy (interfaces : Finset String) : ComponentRuntimePolicy := ⟨∅, interfaces, none⟩

/-- A Component that imports both functions reaches neither of them when only reading is allowed.
And taking the permission to read away makes the function for writing reachable when the
manifest lists a root for reading twice. -/
theorem other_grants_matter :
    ((∃ cc, compilePackaged sampleWasmtime (sampleTap [0] ["data"] ["data"]) = .ok cc ∧
        Imports sampleWasmtime cc.component (fsImport "read")) ∧
      (samplePolicy {"tysel:fs/read"}).allowsInterface "tysel:fs" "read" = true ∧
      ¬ Reaches (invokeComponentTapWithPolicy sampleWasmtime (.ok ())
        (sampleTap [0] ["data"] ["data"]) "null" (samplePolicy {"tysel:fs/read"}))
        (fsImport "read").text "call") ∧
    (¬ Reaches (invokeComponentTapWithPolicy sampleWasmtime (.ok ())
        (sampleTap [] ["a", "a"] ["data"]) "null"
        (samplePolicy {"tysel:fs/read", "tysel:fs/write"})) (fsImport "write").text "call" ∧
      Reaches (invokeComponentTapWithPolicy sampleWasmtime (.ok ())
        (sampleTap [] ["a", "a"] ["data"]) "null" (samplePolicy {"tysel:fs/write"}))
        (fsImport "write").text "call") := by
  have hread : parse sampleWasmtime.semver "tysel:fs/read@0.4.0" = .ok (fsImport "read") := by
    decide
  have hwrite : parse sampleWasmtime.semver "tysel:fs/write@0.4.0" = .ok (fsImport "write") := by
    decide
  refine ⟨⟨⟨_, rfl, ?_⟩, ?_, ?_⟩, ?_, ?_⟩
  · exact ⟨"tysel:fs/read@0.4.0", mem_cons_self .., by decide, hread⟩
  · decide
  · intro h
    obtain ⟨cc, hruns, -⟩ := reaches_iff.mp h
    obtain ⟨component, hcompile⟩ := compilePackaged_ok hruns.compiles
    obtain rfl := ok.inj hruns.compiles
    have himports : Imports sampleWasmtime ["tysel:fs/read@0.4.0", "tysel:fs/write@0.4.0"]
        (fsImport "write") :=
      ⟨"tysel:fs/write@0.4.0", mem_cons_of_mem _ (mem_cons_self ..), by decide, hwrite⟩
    have hreq := ((compile_ok hcompile).2.2 _).mpr himports
    rcases hruns.served _ hreq with ⟨hother, -⟩ | ⟨-, hallow⟩
    · exact absurd hother (by decide)
    · exact absurd hallow (by decide)
  · intro h
    obtain ⟨_, hruns, -⟩ := reaches_iff.mp h
    obtain ⟨ps, hps⟩ := hruns.setUp
    cases hps
  · refine reaches_iff.mpr ⟨⟨["tysel:fs/write@0.4.0"], [fsImport "write"], []⟩,
      ⟨rfl, ⟨_, rfl⟩, ?_, by decide, rfl, by decide⟩, mem_cons_self ..⟩
    intro req hreq
    obtain rfl := mem_singleton.mp hreq
    exact .inr ⟨rfl, by decide⟩

end Tysel.Component
