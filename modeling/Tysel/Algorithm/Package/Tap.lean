import Mathlib.Data.List.Dedup
import Mathlib.Data.List.Sort
import Tysel.Model.Package.Types
import Tysel.Shared.Bytes
import Tysel.Shared.Except
import Tysel.Shared.Text

/-! A payload is a header with the lengths of five sections, and the sections: the manifest and the
index of the Components as JSON, and three strings of bytes. A payload stands alone, or at the end
of an executable before a footer with its length. `usize` has 64 bits. -/

namespace Tysel.Package

open Tysel.Bytes
open Tysel.Text (takeBytes size)

def tapVersion : ℕ := 5
def minSupportedTapVersion : ℕ := 1
def maxTapPayloadBytes : ℕ := 512 * 1024 * 1024
def maxPackagedComponents : ℕ := 64
def maxAotArtifactsPerComponent : ℕ := 16
def maxComponentIndexBytes : ℕ := 1024 * 1024
def maxCompatibilityIssueBytes : ℕ := 512

def tapMagic : Bytes := [0x54, 0x59, 0x53, 0x45, 0x4c, 0x54, 0x41, 0x50]

def endMagic : Bytes := [0x54, 0x59, 0x53, 0x45, 0x4c, 0x45, 0x4e, 0x44]

inductive PackageError where
  | invalid (error : String)
  | missingPayload
  | version (number : ℕ)
  | json (error : String)
  deriving DecidableEq

def PackageError.text : PackageError → String
  | .invalid error => s!"invalid tap: {error}"
  | .missingPayload => "executable has no tap payload"
  | .version number => s!"unsupported tap version {number}"
  | .json error => s!"json: {error}"

structure BlobIndex where
  offset : ℕ
  length : ℕ
  sha256 : String
  deriving DecidableEq

structure AotIndexEntry where
  target : String
  wasmtimeVersion : String
  engineCompatibilityHash : UInt64
  sourceSha256 : Vector UInt8 32
  blob : BlobIndex
  deriving DecidableEq

structure ComponentIndexEntry where
  name : String
  abiVersion : String
  source : BlobIndex
  aot : List AotIndexEntry
  deriving DecidableEq

structure ComponentIndex where
  components : List ComponentIndexEntry
  deriving DecidableEq

/-- `serde_json` for the two JSON sections, SHA-256, and the check of a semantic version. -/
structure Libraries where
  manifestToVec : PackageManifest → Except String Bytes
  manifestFromSlice : Bytes → Except String PackageManifest
  indexToVec : ComponentIndex → Except String Bytes
  indexFromSlice : Bytes → Except String ComponentIndex
  sha256 : Bytes → Vector UInt8 32
  isSemver : String → Bool

/-- Serialisation of the manifest and of the index reads back what it wrote. -/
structure Libraries.RoundTrips (L : Libraries) : Prop where
  manifest : ∀ manifest bytes, L.manifestToVec manifest = .ok bytes →
    L.manifestFromSlice bytes = .ok manifest
  index : ∀ index bytes, L.indexToVec index = .ok bytes → L.indexFromSlice bytes = .ok index

variable (L : Libraries)

def hexEncode (bytes : Bytes) : String :=
  String.ofList (bytes.flatMap fun b =>
    [Nat.digitChar (b.toNat / 16), Nat.digitChar (b.toNat % 16)])

def bundleHash (bundle : Bytes) : String := hexEncode (L.sha256 bundle).toList

def validateManifestContract (manifest : PackageManifest) (envelopeVersion : ℕ) :
    Except PackageError Unit := do
  reject (manifest.formatVersion ≠ envelopeVersion)
    (.invalid (s!"manifest format version {manifest.formatVersion} does not match " ++
      s!"tap envelope version {envelopeVersion}"))
  reject (L.isSemver manifest.runtimeVersion = false)
    (.invalid "runtime version is not valid semantic versioning")
  reject (manifest.executionProfile ∉ ["service", "isolated", "component"])
    (.invalid "unsupported execution profile")

def validateAot (aot : PackagedAot) : Except PackageError Unit :=
  reject (aot.target = "" ∨ 128 < size aot.target ∨ aot.wasmtimeVersion = "" ∨
    64 < size aot.wasmtimeVersion) (.invalid "invalid component AOT metadata")

def validateComponent (names : List String) (component : PackagedComponent) :
    Except PackageError (List String) := do
  reject (component.name = "" ∨ 128 < size component.name ∨
      component.name.toList.all (fun c => c.isAlphanum || c = '-' || c = '_') = false)
    (.invalid "invalid packaged component name")
  reject (component.name ∈ names) (.invalid "duplicate packaged component name")
  reject (component.abiVersion ≠ componentAbiVersion)
    (.invalid (s!"unsupported component ABI version {component.abiVersion}; " ++
      s!"expected {componentAbiVersion}"))
  reject (maxAotArtifactsPerComponent < component.aot.length)
    (.invalid "too many AOT artifacts for packaged component")
  component.aot.forM validateAot
  return component.name :: names

def validateComponents (components : List PackagedComponent) : Except PackageError Unit := do
  reject (maxPackagedComponents < components.length) (.invalid "too many packaged components")
  let _ ← components.foldlM validateComponent []
  return ()

def appendBlob (data bytes : Bytes) : BlobIndex × Bytes :=
  (⟨data.length, bytes.length, bundleHash L bytes⟩, data ++ bytes)

def encodeAot (data : Bytes) : List PackagedAot → List AotIndexEntry × Bytes
  | [] => ([], data)
  | artifact :: rest =>
    let (blob, data) := appendBlob L data artifact.bytes
    let (entries, data) := encodeAot data rest
    (⟨artifact.target, artifact.wasmtimeVersion, artifact.engineCompatibilityHash,
      artifact.sourceSha256, blob⟩ :: entries, data)

def encodeEntries (data : Bytes) : List PackagedComponent → List ComponentIndexEntry × Bytes
  | [] => ([], data)
  | component :: rest =>
    let (source, data) := appendBlob L data component.source
    let (aot, data) := encodeAot L data component.aot
    let (entries, data) := encodeEntries data rest
    (⟨component.name, component.abiVersion, source, aot⟩ :: entries, data)

def encodeComponents (components : List PackagedComponent) :
    Except PackageError (Bytes × Bytes) := do
  let (entries, data) := encodeEntries L [] components
  let index ← (L.indexToVec ⟨entries⟩).mapError .json
  reject (maxComponentIndexBytes < index.length) (.invalid "component index exceeds size limit")
  return (index, data)

def Tap.new (manifest : PackageManifest) (bundle sourceMap : Bytes) : Tap where
  manifest := { manifest with formatVersion := tapVersion, bundleHash := bundleHash L bundle }
  bundle := bundle
  sourceMap := sourceMap
  components := []

def Tap.withComponents (tap : Tap) (components : List PackagedComponent) : Tap :=
  { tap with components := components }

def Tap.encode (tap : Tap) : Except PackageError Bytes := do
  validateManifestContract L tap.manifest tapVersion
  validateComponents tap.components
  let manifest ← (L.manifestToVec tap.manifest).mapError .json
  let (componentIndex, componentData) ← encodeComponents L tap.components
  let expectedLen := 52 + manifest.length + tap.bundle.length + tap.sourceMap.length +
    componentIndex.length + componentData.length
  reject (2 ^ 64 ≤ expectedLen) (.invalid "tap payload length overflow")
  reject (maxTapPayloadBytes < expectedLen) (.invalid "tap payload exceeds size limit")
  return tapMagic ++ (leBytes 4 tapVersion ++ (leBytes 8 manifest.length ++
    (leBytes 8 tap.bundle.length ++ (leBytes 8 tap.sourceMap.length ++
    (leBytes 8 componentIndex.length ++ (leBytes 8 componentData.length ++
    (manifest ++ (tap.bundle ++ (tap.sourceMap ++ (componentIndex ++ componentData))))))))))

def take (n : ℕ) (rest : Bytes) : Except PackageError (Bytes × Bytes) :=
  if rest.length < n then .error (.invalid "truncated tap payload")
  else .ok (rest.take n, rest.drop n)

def readVersion (rest : Bytes) : Except PackageError (ℕ × Bytes) := do
  let (bytes, rest) ← take 4 rest
  return (ofLeBytes bytes, rest)

def readUsize (rest : Bytes) : Except PackageError (ℕ × Bytes) := do
  let (bytes, rest) ← take 8 rest
  return (ofLeBytes bytes, rest)

def readBlob (data : Bytes) (blob : BlobIndex) : Except PackageError Bytes := do
  reject (2 ^ 64 ≤ blob.offset + blob.length) (.invalid "component data range overflow")
  reject (data.length < blob.offset + blob.length)
    (.invalid "component data range is out of bounds")
  let bytes := window data blob.offset blob.length
  reject (bundleHash L bytes ≠ blob.sha256) (.invalid "component blob hash mismatch")
  return bytes

def decodeAot (data : Bytes) (entry : AotIndexEntry) : Except PackageError PackagedAot := do
  let bytes ← readBlob L data entry.blob
  return ⟨entry.target, entry.wasmtimeVersion, entry.engineCompatibilityHash, entry.sourceSha256,
    bytes⟩

def decodeEntry (data : Bytes) (entry : ComponentIndexEntry) :
    Except PackageError PackagedComponent := do
  reject (maxAotArtifactsPerComponent < entry.aot.length)
    (.invalid "too many AOT artifacts for packaged component")
  let source ← readBlob L data entry.source
  let aot ← entry.aot.mapM (decodeAot L data)
  return ⟨entry.name, entry.abiVersion, source, aot⟩

def decodeComponents (index data : Bytes) : Except PackageError (List PackagedComponent) := do
  let index ← (L.indexFromSlice index).mapError .json
  reject (maxPackagedComponents < index.components.length) (.invalid "too many packaged components")
  let components ← index.components.mapM (decodeEntry L data)
  validateComponents components
  return components

/-- The magic and the version of a payload, and what follows them. -/
def readEnvelope (bytes : Bytes) : Except PackageError (ℕ × Bytes) := do
  let (magic, rest) ← take 8 bytes
  reject (magic ≠ tapMagic) (.invalid "missing TYSELTAP magic")
  readVersion rest

/-- The lengths of the index and of the data of the Components, since version 2. -/
def readComponentLengths (version : ℕ) (rest : Bytes) : Except PackageError (ℕ × ℕ × Bytes) :=
  if 2 ≤ version then do
    let (indexLen, rest) ← readUsize rest
    let (dataLen, rest) ← readUsize rest
    return (indexLen, dataLen, rest)
  else .ok (0, 0, rest)

def decode (bytes : Bytes) : Except PackageError Tap := do
  reject (maxTapPayloadBytes < bytes.length) (.invalid "tap payload exceeds size limit")
  let (version, rest) ← readEnvelope bytes
  reject (version < minSupportedTapVersion ∨ tapVersion < version) (.version version)
  let (manifestLen, rest) ← readUsize rest
  let (bundleLen, rest) ← readUsize rest
  let (sourceMapLen, rest) ← readUsize rest
  let (componentIndexLen, componentDataLen, rest) ← readComponentLengths version rest
  reject (maxComponentIndexBytes < componentIndexLen)
    (.invalid "component index exceeds size limit")
  let (manifestBytes, rest) ← take manifestLen rest
  let (bundle, rest) ← take bundleLen rest
  let (sourceMap, rest) ← take sourceMapLen rest
  let (componentIndex, rest) ← take componentIndexLen rest
  let (componentData, rest) ← take componentDataLen rest
  reject (rest ≠ []) (.invalid "trailing bytes inside tap payload")
  let manifest ← (L.manifestFromSlice manifestBytes).mapError .json
  validateManifestContract L manifest version
  reject (manifest.bundleHash ≠ bundleHash L bundle) (.invalid "bundle hash mismatch")
  let components ←
    if 2 ≤ version then decodeComponents L componentIndex componentData else pure []
  return ⟨manifest, bundle, sourceMap, components⟩

def Tap.embedInto (tap : Tap) (stub : Bytes) : Except PackageError Bytes := do
  let payload ← tap.encode L
  return stub ++ payload ++ leBytes 8 payload.length ++ endMagic

def extract (bytes : Bytes) : Except PackageError Tap := do
  reject (bytes.length < 16) .missingPayload
  let footer := bytes.length - 16
  reject (bytes.drop (footer + 8) ≠ endMagic) .missingPayload
  let payloadLen := ofLeBytes (window bytes footer 8)
  reject (maxTapPayloadBytes < payloadLen) (.invalid "tap payload exceeds size limit")
  reject (footer < payloadLen) (.invalid "payload length exceeds file")
  decode L (window bytes (footer - payloadLen) payloadLen)

/-- The file is read at three places: its length, the footer, and the payload. -/
def fromPath (file : Bytes) : Except PackageError Tap := do
  let fileLen := file.length
  reject (fileLen < 16) .missingPayload
  let footer := window file (fileLen - 16) 16
  reject (footer.drop 8 ≠ endMagic) .missingPayload
  let payloadLen := ofLeBytes (footer.take 8)
  reject (maxTapPayloadBytes < payloadLen) (.invalid "tap payload exceeds size limit")
  let prefixLen := fileLen - 16
  reject (prefixLen < payloadLen) (.invalid "payload length exceeds file")
  decode L (window file (prefixLen - payloadLen) payloadLen)

inductive TapCompatibilityStatus where
  | current
  | legacy
  | unsupportedOlder
  | unsupportedNewer
  | invalid
  deriving DecidableEq

structure TapCompatibilityReport where
  reportVersion : ℕ
  compatible : Bool
  status : TapCompatibilityStatus
  tapVersion : Option ℕ
  minimumSupportedTapVersion : ℕ
  maximumSupportedTapVersion : ℕ
  runtimeVersion : Option String
  executionProfile : Option String
  componentAbiVersions : List String
  issues : List String

def boundedCompatibilityIssue (issue : String) : String :=
  if maxCompatibilityIssueBytes < size issue then
    String.ofList (takeBytes maxCompatibilityIssueBytes issue.toList)
  else issue

def report (version : Option ℕ) (status : TapCompatibilityStatus) (tap : Option Tap)
    (issues : List String) : TapCompatibilityReport where
  reportVersion := 1
  compatible := status = .current ∨ status = .legacy
  status := status
  tapVersion := version
  minimumSupportedTapVersion := minSupportedTapVersion
  maximumSupportedTapVersion := tapVersion
  runtimeVersion := tap.map (·.manifest.runtimeVersion)
  executionProfile := tap.map (·.manifest.executionProfile)
  componentAbiVersions :=
    ((tap.toList.flatMap fun tap => tap.components.map (·.abiVersion)).insertionSort (· ≤ ·)).dedup
  issues := issues.map boundedCompatibilityIssue

def compatibilityReport (bytes : Bytes) : TapCompatibilityReport :=
  match readEnvelope bytes with
  | .error error => report none .invalid none [error.text]
  | .ok (version, _) =>
    if version < minSupportedTapVersion then
      report (some version) .unsupportedOlder none
        [s!"tap version {version} predates minimum supported version {minSupportedTapVersion}"]
    else if tapVersion < version then
      report (some version) .unsupportedNewer none
        [s!"tap version {version} exceeds maximum supported version {tapVersion}"]
    else
      match decode L bytes with
      | .ok tap =>
        report (some version) (if version = tapVersion then .current else .legacy) (some tap) []
      | .error error => report (some version) .invalid none [error.text]

end Tysel.Package
