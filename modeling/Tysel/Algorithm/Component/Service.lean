import Tysel.Algorithm.Component.Engine

/-! The runtime invokes the Component of a package. The functions it offers depend on the roots in
the manifest and on the policy of the deployment. `hostIo` is the outcome of handing the set-up
of the filesystem to the executor of host IO. -/

namespace Tysel.Component

open Tysel.Text
open Tysel.Package

def maxRootsPerOperation : ℕ := 64

structure Filesystem where
  read : List String
  write : List String
  root : Option String
  deriving DecidableEq

def uniqueRoots (roots : List String) : List (List Char) :=
  ((roots.map fun r => trim r.toList).filter (· ≠ [])).dedup

def validateRoots (operation : String) (roots : List String) : Except String Unit := do
  reject ((uniqueRoots roots).length ≠ roots.length)
    s!"filesystem {operation} roots must be non-empty and unique"
  reject (maxRootsPerOperation < (uniqueRoots roots).length)
    s!"filesystem {operation} roots exceed {maxRootsPerOperation} entries"

def Filesystem.new (read write : List String) (root : Option String) :
    Except String Filesystem := do
  validateRoots "read" read
  validateRoots "write" write
  return ⟨read, write, root⟩

/-- The two functions on files, each with the filesystem it is confined to. -/
inductive FsHandler where
  | read (filesystem : Filesystem)
  | write (filesystem : Filesystem)

structure ComponentRuntimePolicy where
  deploymentGrants : Finset CapabilityId
  deploymentInterfaces : Finset String
  filesystemRoot : Option String

variable {C : Type} (hostIo : Except String Unit) (manifest : PackageManifest)
  (policy : ComponentRuntimePolicy)

def ComponentRuntimePolicy.allowsInterface (capability interface : String) : Bool :=
  capability ∈ policy.deploymentGrants ||
    (capability ++ "/" ++ interface) ∈ policy.deploymentInterfaces

def ComponentRuntimePolicy.effectiveCapabilityGrants : Finset CapabilityId :=
  if ∃ grant ∈ policy.deploymentInterfaces, startsWith grant.toList "tysel:fs/" = true then
    insert "tysel:fs" policy.deploymentGrants
  else policy.deploymentGrants

def componentApplicationGrants : Finset CapabilityId :=
  if manifest.fsRead ≠ [] ∨ manifest.fsWrite ≠ [] then {"tysel:fs"} else ∅

inductive StubError where
  | componentPackage (error : String)
  | componentFilesystemPolicy (error : String)
  | component (error : ComponentError)

def fsImport (interface : String) : CapabilityImport := ⟨"tysel:fs", interface, ⟨0, 4, 0⟩⟩

def fsDescriptor (interface : String) : CapabilityDescriptor :=
  ⟨fsImport interface, {.isolatedTask}, Finset.singleton_nonempty _⟩

def allowRead : Bool := !manifest.fsRead.isEmpty && policy.allowsInterface "tysel:fs" "read"

def allowWrite : Bool := !manifest.fsWrite.isEmpty && policy.allowsInterface "tysel:fs" "write"

/-- The filesystem that the functions of an invocation share. -/
def componentFilesystem : Except StubError Filesystem := do
  hostIo.mapError .componentFilesystemPolicy
  (Filesystem.new (if allowRead manifest policy then manifest.fsRead else [])
    (if allowWrite manifest policy then manifest.fsWrite else [])
    policy.filesystemRoot).mapError .componentFilesystemPolicy

def componentCapabilityProviders :
    Except StubError (List (StringCapabilityProvider FsHandler)) := do
  if !allowRead manifest policy && !allowWrite manifest policy then
    return []
  let filesystem ← componentFilesystem hostIo manifest policy
  let read ← (StringCapabilityProvider.new (fsDescriptor "read") "call"
    (FsHandler.read filesystem)).mapError .component
  let write ← (StringCapabilityProvider.new (fsDescriptor "write") "call"
    (FsHandler.write filesystem)).mapError .component
  return (if allowRead manifest policy then [read] else []) ++
    (if allowWrite manifest policy then [write] else [])

def validateConfig (config : ComponentEngineConfig) : Except ComponentError Unit := do
  reject (config.maxComponentBytes = 0 ∨ maxComponentBytes < config.maxComponentBytes)
    (.invalidConfig "invalid component byte limit")
  reject (config.maxMemoryBytes = 0 ∨ maxComponentMemoryBytes < config.maxMemoryBytes)
    (.invalidConfig "invalid component memory limit")
  reject (config.fuel = 0 ∨ maxComponentFuel < config.fuel)
    (.invalidConfig "invalid component fuel limit")
  reject (config.maxExecutionMs = 0 ∨ maxComponentExecutionMs < config.maxExecutionMs)
    (.invalidConfig "invalid component execution timeout")
  reject (config.maxInputBytes = 0 ∨ maxComponentInputBytes < config.maxInputBytes)
    (.invalidConfig "invalid component input limit")
  reject (config.maxOutputBytes = 0 ∨ maxComponentOutputBytes < config.maxOutputBytes)
    (.invalidConfig "invalid component output limit")

def clamp (n low high : ℕ) : ℕ := min (max n low) high

def engineConfig : ComponentEngineConfig where
  maxMemoryBytes := clamp manifest.memoryLimitBytes 1 maxComponentMemoryBytes
  maxExecutionMs := clamp manifest.requestTimeoutMs 1 maxComponentExecutionMs

/-- The grants with which the imports of a packaged Component are resolved. -/
def componentGrants (compiled : CompiledComponent C) : Finset CapabilityId :=
  effectiveGrants (compiled.requiredImports.map (·.id)).toFinset
    (componentApplicationGrants manifest) policy.effectiveCapabilityGrants

def compilePackaged (W : Wasmtime C) (tap : Tap) : Except StubError (CompiledComponent C) :=
  match tap.components with
  | [component] => do
      reject (component.abiVersion ≠ componentAbiVersion)
        (.componentPackage "unsupported Component ABI version")
      (validateConfig (engineConfig tap.manifest)).mapError .component
      (compile W (engineConfig tap.manifest) component.source).mapError .component
  | _ => .error (.componentPackage "exactly one Component entrypoint is required")

/-- Up to the point where code of the Component runs. The comparison of native images with the
engine only goes to a log. -/
def invokeComponentTapWithPolicy (W : Wasmtime C) (hostIo : Except String Unit) (tap : Tap)
    (input : String) (policy : ComponentRuntimePolicy) :
    Except StubError (Linker FsHandler) := do
  let compiled ← compilePackaged W tap
  let providers ← componentCapabilityProviders hostIo tap.manifest policy
  (invokeJsonWithCapabilities W (engineConfig tap.manifest) compiled input providers
    .isolatedTask (componentGrants tap.manifest policy compiled)).mapError .component

end Tysel.Component
