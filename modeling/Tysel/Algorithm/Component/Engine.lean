import Tysel.Algorithm.Component.Capability
import Tysel.Model.Package.Types

/-! Compilation of a Component, the resolution of its imports, and the linker its code runs with.
Wasmtime is a parameter: what it reads from a Component, and whether an instantiation finds
everything that the Component imports. All host functions have one type, so this depends only on
their names. -/

namespace Tysel.Component

open Tysel.Text
open Tysel.Package (Bytes)

def maxComponentBytes : ℕ := 16 * 1024 * 1024
def maxComponentMemoryBytes : ℕ := 64 * 1024 * 1024
def maxComponentFuel : ℕ := 100000000
def maxComponentExecutionMs : ℕ := 60000
def maxComponentInputBytes : ℕ := 1024 * 1024
def maxComponentOutputBytes : ℕ := 1024 * 1024

structure ComponentEngineConfig where
  maxComponentBytes : ℕ := maxComponentBytes
  maxMemoryBytes : ℕ := maxComponentMemoryBytes
  fuel : ℕ := 10000000
  maxExecutionMs : ℕ := 30000
  maxInputBytes : ℕ := maxComponentInputBytes
  maxOutputBytes : ℕ := maxComponentOutputBytes

inductive ComponentError where
  | invalidConfig (limit : String)
  | componentTooLarge (actual maximum : ℕ)
  | inputTooLarge (actual maximum : ℕ)
  | invalidCapabilityImport (name : String)
  | invalidWasiRuntimeImport (name : String)
  | capability (error : CapabilityRegistryError)
  | invalidCapabilityFunction (function : String)
  | missingCapabilityProvider (capability : String)
  | invalidInputJson (error : String)
  | compile (error : String)
  | instantiate (error : String)
  | abi (error : String)

/-- What is used of Wasmtime, of `serde_json` and of `semver`. -/
structure Wasmtime (C : Type) where
  /-- Parses a Component. -/
  new : Bytes → Except String C
  imports : C → List String
  /-- Looks for the export `run` with its type. -/
  taskExport : C → Except String Unit
  /-- Instantiation with WASI, or without, and with the named functions of the named instances
  finds every import. After this point code of the Component runs. -/
  instantiates : Bool → List (String × String) → C → Bool
  parseJson : String → Except String Unit
  semver : String → Option Version

variable {C H : Type}

structure StringCapabilityProvider (H : Type) where
  descriptor : CapabilityDescriptor
  function : String
  handler : H

abbrev StringCapabilityProvider.import_ (p : StringCapabilityProvider H) : CapabilityImport :=
  p.descriptor.import_

def StringCapabilityProvider.new (descriptor : CapabilityDescriptor) (function : String)
    (handler : H) : Except ComponentError (StringCapabilityProvider H) := do
  reject (function = "" ∨ 128 < function.utf8ByteSize ∨
      function.toList.all (fun c => c.isLower || c.isDigit || c = '-') = false)
    (.invalidCapabilityFunction function)
  return ⟨descriptor, function, handler⟩

structure CompiledComponent (C : Type) where
  component : C
  requiredImports : List CapabilityImport
  wasiRuntimeImports : List String

def allowedWasiRuntimeInterfaces : List String :=
  ["wasi:cli/environment", "wasi:cli/exit", "wasi:cli/stdin", "wasi:cli/stdout",
    "wasi:cli/stderr", "wasi:cli/terminal-input", "wasi:cli/terminal-output",
    "wasi:cli/terminal-stdin", "wasi:cli/terminal-stdout", "wasi:cli/terminal-stderr",
    "wasi:clocks/monotonic-clock", "wasi:clocks/wall-clock", "wasi:filesystem/types",
    "wasi:filesystem/preopens", "wasi:io/error", "wasi:io/poll", "wasi:io/streams",
    "wasi:random/random"]

def validateWasiRuntimeImport (W : Wasmtime C) (name : String) : Except ComponentError Unit :=
  match rsplitOnce '@' name.toList with
  | none => .error (.invalidWasiRuntimeImport name)
  | some (interface, version) => do
      let version ← (AbiVersion.parse W.semver (String.ofList version)).mapError
        fun _ => ComponentError.invalidWasiRuntimeImport name
      reject (version.major ≠ 0 ∨ version.minor ≠ 2 ∨
          String.ofList interface ∉ allowedWasiRuntimeInterfaces)
        (.invalidWasiRuntimeImport name)

def isWasi (name : String) : Bool := startsWith name.toList "wasi:"

/-- `Vec::dedup`. -/
def dedup {α : Type*} [DecidableEq α] : List α → List α
  | [] => []
  | [x] => [x]
  | x :: y :: xs => if x = y then dedup (y :: xs) else x :: dedup (y :: xs)

def byRank (i j : CapabilityImport) : Prop := i.rank ≤ j.rank

instance : DecidableRel byRank := fun i j => inferInstanceAs (Decidable (i.rank ≤ j.rank))

def capabilityImport (W : Wasmtime C) (name : String) : Except ComponentError CapabilityImport :=
  (CapabilityImport.parse W.semver name).mapError fun _ => .invalidCapabilityImport name

/-- One turn of the loop over the names of the imports. -/
def addImport (W : Wasmtime C) (found : List CapabilityImport × List String) (name : String) :
    Except ComponentError (List CapabilityImport × List String) :=
  if isWasi name then do
    validateWasiRuntimeImport W name
    return (found.1, found.2 ++ [name])
  else do
    let required ← capabilityImport W name
    return (found.1 ++ [required], found.2)

def compile (W : Wasmtime C) (config : ComponentEngineConfig) (bytes : Bytes) :
    Except ComponentError (CompiledComponent C) := do
  reject (config.maxComponentBytes < bytes.length)
    (.componentTooLarge bytes.length config.maxComponentBytes)
  let component ← (W.new bytes).mapError .compile
  (W.taskExport component).mapError .abi
  let (required, wasi) ← (W.imports component).foldlM (addImport W) ([], [])
  return ⟨component, dedup (required.insertionSort byRank), dedup (wasi.insertionSort (· ≤ ·))⟩

/-- Resolves every import against the granted capabilities. -/
def CompiledComponent.authorizeImports (component : CompiledComponent C)
    (registry : CapabilityRegistry) (trustMode : TrustMode) (grants : Finset CapabilityId) :
    Except ComponentError (List CapabilityImport) :=
  component.requiredImports.mapM fun requested =>
    ((registry.resolve requested trustMode grants).mapError .capability).map (·.import_)

/-- A function that the linker offers under the name of an instance. -/
structure HostFunction (H : Type) where
  name : String
  function : String
  handler : H

structure Linker (H : Type) where
  wasi : Bool
  functions : List (HostFunction H)

/-- The function of the provider that was selected for an import. -/
def hostFunction (providers : List (StringCapabilityProvider H))
    (pair : CapabilityImport × CapabilityImport) : Except ComponentError (HostFunction H) :=
  match providers.find? (·.import_ = pair.2) with
  | none => .error (.missingCapabilityProvider pair.2.text)
  | some provider => .ok ⟨pair.1.text, provider.function, provider.handler⟩

/-- The part of `invoke_json_with_capabilities` before the invocation. -/
def linkCapabilities (component : CompiledComponent C)
    (providers : List (StringCapabilityProvider H)) (trustMode : TrustMode)
    (grants : Finset CapabilityId) : Except ComponentError (Linker H) := do
  let registry ← (CapabilityRegistry.new (providers.map (·.descriptor))).mapError .capability
  let resolved ← component.authorizeImports registry trustMode grants
  let functions ← (component.requiredImports.zip resolved).mapM (hostFunction providers)
  return ⟨component.wasiRuntimeImports ≠ [], functions⟩

/-- Up to the instantiation. The result is the linker that the code of the Component runs
with. -/
def invokeWithLinker (W : Wasmtime C) (config : ComponentEngineConfig)
    (component : CompiledComponent C) (input : String) (linker : Linker H) :
    Except ComponentError (Linker H) := do
  reject (config.maxInputBytes < input.utf8ByteSize)
    (.inputTooLarge input.utf8ByteSize config.maxInputBytes)
  (W.parseJson input).mapError .invalidInputJson
  reject (W.instantiates linker.wasi (linker.functions.map fun f => (f.name, f.function))
      component.component = false)
    (.instantiate "an import is not linked")
  return linker

def invokeJsonWithCapabilities (W : Wasmtime C) (config : ComponentEngineConfig)
    (component : CompiledComponent C) (input : String)
    (providers : List (StringCapabilityProvider H)) (trustMode : TrustMode)
    (grants : Finset CapabilityId) : Except ComponentError (Linker H) := do
  let linker ← linkCapabilities component providers trustMode grants
  invokeWithLinker W config component input linker

/-- Code of the Component runs, and the function of the named instance is linked for it. -/
def Reaches {ε : Type} (result : Except ε (Linker H)) (name function : String) : Prop :=
  ∃ linker, result = .ok linker ∧ ∃ f ∈ linker.functions, f.name = name ∧ f.function = function

end Tysel.Component
