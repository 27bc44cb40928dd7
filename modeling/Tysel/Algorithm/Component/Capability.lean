import Mathlib.Data.Prod.Lex
import Mathlib.Data.Finset.Basic
import Mathlib.Data.List.Sort
import Mathlib.Data.String.Basic
import Tysel.Shared.Chars
import Tysel.Shared.Except
import Tysel.Shared.Table

/-! An import names an interface with a version. A registry finds the provider for it among the
registered versions, within the granted capabilities and the trust mode. -/

namespace Tysel.Component

open Tysel.Text String

abbrev CapabilityId := String

inductive TrustMode where
  | trustedService
  | isolatedTask
  deriving DecidableEq

inductive CapabilityRegistryError where
  | invalidImport (source : String)
  | invalidCapabilityId (id : String)
  | invalidIdentifier (label value : String)
  | invalidVersion (source : String)
  | noTrustModes (capability : String)
  | duplicate (capability : String)
  | unknown (capability : String)
  | incompatible (capability : String)
  | denied (capability : String)
  deriving DecidableEq

structure AbiVersion where
  major : ℕ
  minor : ℕ
  patch : ℕ
  deriving DecidableEq

/-- Versions are ordered by their fields, the major version first. -/
def AbiVersion.rank (v : AbiVersion) : ℕ ×ₗ ℕ ×ₗ ℕ := toLex (v.major, toLex (v.minor, v.patch))

theorem AbiVersion.rank_injective : Function.Injective AbiVersion.rank := by
  rintro ⟨_, _, _⟩ ⟨_, _, _⟩ h
  simp only [AbiVersion.rank, EmbeddingLike.apply_eq_iff_eq, Prod.mk.injEq] at h
  obtain ⟨rfl, rfl, rfl⟩ := h
  rfl

instance : LinearOrder AbiVersion := LinearOrder.lift' AbiVersion.rank AbiVersion.rank_injective

/-- The version can serve requests for `requested`. Before version 1 the minor version is the
boundary of compatibility. -/
def AbiVersion.isCompatibleProviderFor (v requested : AbiVersion) : Bool :=
  if v < requested ∨ v.major ≠ requested.major then false
  else requested.major ≠ 0 || v.minor = requested.minor

def AbiVersion.text (v : AbiVersion) : String := s!"{v.major}.{v.minor}.{v.patch}"

/-- A version that `semver` has parsed: its numbers, its prerelease and its build part. -/
structure Version extends AbiVersion where
  pre : String
  build : String

def AbiVersion.parse (semver : String → Option Version) (source : String) :
    Except CapabilityRegistryError AbiVersion := do
  reject (64 < source.utf8ByteSize) (.invalidVersion source)
  match semver source with
  | none => .error (.invalidVersion source)
  | some version =>
    reject (version.pre ≠ "" ∨ version.build ≠ "") (.invalidVersion source)
    return version.toAbiVersion

structure CapabilityImport where
  id : CapabilityId
  interface : String
  version : AbiVersion
  deriving DecidableEq

def CapabilityImport.text (i : CapabilityImport) : String :=
  s!"{i.id}/{i.interface}@{i.version.text}"

def CapabilityImport.rank (i : CapabilityImport) : String ×ₗ String ×ₗ AbiVersion :=
  toLex (i.id, toLex (i.interface, i.version))

def validIdentifier (cs : List Char) : Bool :=
  cs ≠ [] && cs.all fun c => c.isLower || c.isDigit || c = '-'

def validateCapabilityId (id : List Char) : Except CapabilityRegistryError Unit :=
  match splitOnce ':' id with
  | none => .error (.invalidCapabilityId (ofList id))
  | some (space, name) =>
    reject (128 < (ofList id).utf8ByteSize ∨ validIdentifier space = false ∨
      validIdentifier name = false) (.invalidCapabilityId (ofList id))

def validateIdentifier (label : String) (value : List Char) (maximum : ℕ) :
    Except CapabilityRegistryError Unit :=
  reject (maximum < (ofList value).utf8ByteSize ∨ validIdentifier value = false)
    (.invalidIdentifier label (ofList value))

def CapabilityImport.parse (semver : String → Option Version) (source : String) :
    Except CapabilityRegistryError CapabilityImport := do
  reject (384 < source.utf8ByteSize) (.invalidImport source)
  match rsplitOnce '@' source.toList with
  | none => .error (.invalidImport source)
  | some (name, version) =>
    match splitOnce '/' name with
    | none => .error (.invalidImport source)
    | some (id, interface) =>
      validateCapabilityId id
      validateIdentifier "interface" interface 128
      let version ← AbiVersion.parse semver (ofList version)
      return ⟨ofList id, ofList interface, version⟩

/-- An interface that a provider implements, with at least one trust mode. -/
structure CapabilityDescriptor where
  import_ : CapabilityImport
  trustModes : Finset TrustMode
  nonempty : trustModes.Nonempty
  deriving DecidableEq

abbrev CapabilityDescriptor.version (d : CapabilityDescriptor) : AbiVersion := d.import_.version

/-- The key under which a registry keeps the versions of an interface. -/
def CapabilityImport.key (i : CapabilityImport) : CapabilityId × String := (i.id, i.interface)

structure CapabilityRegistry where
  entries : Table (CapabilityId × String) (List CapabilityDescriptor)

variable (registry : CapabilityRegistry)

def CapabilityRegistry.versions (key : CapabilityId × String) : List CapabilityDescriptor :=
  (registry.entries.get? key).getD []

def byVersion (d e : CapabilityDescriptor) : Prop := d.version ≤ e.version

instance : DecidableRel byVersion := fun d e => inferInstanceAs (Decidable (d.version ≤ e.version))

namespace CapabilityRegistry

def register (descriptor : CapabilityDescriptor) :
    Except CapabilityRegistryError CapabilityRegistry := do
  let versions := registry.versions descriptor.import_.key
  reject (versions.any (fun existing => existing.version = descriptor.version) = true)
    (.duplicate descriptor.import_.text)
  return ⟨AList.insert descriptor.import_.key
    ((versions ++ [descriptor]).insertionSort byVersion) registry.entries⟩

def new (descriptors : List CapabilityDescriptor) :
    Except CapabilityRegistryError CapabilityRegistry :=
  descriptors.foldlM register ⟨∅⟩

def resolve (requested : CapabilityImport) (trustMode : TrustMode)
    (effectiveGrants : Finset CapabilityId) :
    Except CapabilityRegistryError CapabilityDescriptor := do
  reject (requested.id ∉ effectiveGrants) (.denied requested.text)
  match registry.entries.get? requested.key with
  | none => .error (.unknown requested.text)
  | some versions =>
    let compatible := fun d : CapabilityDescriptor =>
      d.version.isCompatibleProviderFor requested.version
    reject (versions.any compatible = false) (.incompatible requested.text)
    match (versions.reverse.filter compatible).find? (trustMode ∈ ·.trustModes) with
    | none => .error (.denied requested.text)
    | some d => .ok d

end CapabilityRegistry

def effectiveGrants (build application deployment : Finset CapabilityId) : Finset CapabilityId :=
  (build ∩ application).filter (· ∈ deployment)

end Tysel.Component
