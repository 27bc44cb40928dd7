import Tysel.Algorithm.Release.Signing

/-! `upgrade` up to the switch of the link. A file operation that fails ends the run before the
switch. -/

namespace Tysel.Release

open Tysel.Text (utf8)

variable {V X : Type}

inductive Channel where
  | stable | canary
  deriving DecidableEq

structure ManifestSignature where
  url : String
  keyId : String

structure ExpectedFile where
  path : String
  sha256 : String

/-- A target is its canonical name. `rest` has the build identities and the platform
requirements. -/
structure ReleaseAsset (X : Type) where
  target : String
  archiveUrl : String
  byteSize : ℕ
  sha256 : String
  signature : ManifestSignature
  files : List ExpectedFile
  rest : X

structure ReleaseManifest (X : Type) where
  version : String
  channel : Channel
  minimumUpdaterVersion : String
  assets : List (ReleaseAsset X)

structure ChannelPointer where
  channel : Channel
  version : String
  manifestUrl : String
  manifestByteSize : ℕ
  manifestSha256 : String
  manifestSignature : ManifestSignature

def managedPaths : List String := ["bin/tysel", "bin/tysel-service", "bin/tysel-worker"]

/-- `validate_files`, with the paths found so far. -/
def validateFiles (found : List String) : List ExpectedFile → Except String Unit
  | [] => ensure (found.length = managedPaths.length) "all three managed binaries are required"
  | file :: rest => do
    ensure (file.path ∈ managedPaths) "only the three managed binary paths are allowed"
    reject (file.path ∈ found) "duplicate binary path"
    validateFiles (file.path :: found) rest

/-- The regular files of a directory, by their paths. -/
abbrev Directory := String → Option Bytes

/-- The libraries, the network and the machine. A parser makes the checks of its document, but
for those of the files of an asset. Every download and every reading of the clock has a number,
and may give anything. -/
structure World (V X : Type) where
  crypto : Crypto
  parsePolicy : Bytes → Except String TrustPolicy
  parseMetadataSignature : Bytes → Except String ReleaseMetadataSignature
  parseArtifactSignature : Bytes → Except String ReleaseArtifactSignature
  parsePointer : Bytes → Except String ChannelPointer
  parseManifest : Bytes → Except String (ReleaseManifest X)
  parseVersion : String → Except String V
  base : String
  get : ℕ → String → Except String Bytes
  nowUnix : ℕ → Except String ℕ
  updater : V
  ensureCompatible : X → Except String Unit
  extractArchive : Bytes → Except String Directory
  checkBuildInfo : Directory → X → Except String Unit
  versionDir : V → Except String (Option Directory)

/-- `channel` has been parsed and `confirm` is the answer of the user. -/
structure Options where
  check : Bool
  version : Option String
  channel : Option Channel
  force : Bool
  confirm : Except String Unit

structure InstallState (V : Type) where
  active : V
  channel : Channel
  target : String
  trust : Bytes

/-- What the switched link names, and the documents that led to it. -/
structure Activation (V : Type) where
  version : V
  directory : Directory
  trust : Bytes
  manifest : Bytes

def signatureMessage (kind : String) (parts : List String) : Bytes :=
  utf8 ("tysel-release-" ++ kind ++ "-signature-v1\x00" ++ "\x00".intercalate parts).toList

def validateReleaseTarget (target : String) : Except String Unit :=
  ensure (target ∈ ["linux-x64", "linux-arm64", "darwin-x64", "darwin-arm64"])
    "unsupported production release target"

def readBounded (bytes : Bytes) : Except String Bytes := do
  ensure (bytes.length ≤ 1024 * 1024) "signing document is oversized"
  return bytes

def readBoundedArtifact (bytes : Bytes) : Except String Bytes := do
  ensure (bytes ≠ []) "release artifact is empty"
  ensure (bytes.length ≤ 256 * 1024 * 1024) "release artifact is oversized"
  return bytes

def downgradeRequiresForce (installed selected : Channel) (explicit force : Bool) : Bool :=
  !force && !(explicit && selected ≠ installed)

namespace World

variable (W : World V X)

/-- What both verifications check after the fields of the signature: its time, the digest of what
it signs and the key. -/
def verifySigned (kind noun : String) (document : Except String Bytes) (trust : Bytes)
    (keyId : String) (issuedAtUnix nowUnix : ℕ) (target : List String)
    (sha256 signature : String) : Except String Unit := do
  ensure (issuedAtUnix ≤ withSkew nowUnix) ("release " ++ kind ++ " signature is from the future")
  let document ← document
  ensure (W.crypto.sha256 document = sha256)
    ("release " ++ kind ++ " signature does not bind this " ++ noun)
  let policy ← readBounded trust >>= W.parsePolicy
  let trusted ← trustedReleaseKey W.crypto policy keyId issuedAtUnix nowUnix
  let publicKey ← decodeHex 32 trusted.publicKey
  ensure (W.crypto.validKey publicKey) "trusted Ed25519 public key is invalid"
  let signature ← decodeHex 64 signature
  let message := signatureMessage kind (keyId :: toString issuedAtUnix :: (target ++ [sha256]))
  ensure (W.crypto.verifyStrict publicKey message signature)
    ("release " ++ kind ++ " signature verification failed")

def verifyReleaseMetadataSignature (document signature trust : Bytes) (nowUnix : ℕ) :
    Except String ReleaseMetadataSignature := do
  let signature ← readBounded signature >>= W.parseMetadataSignature
  ensure (signature.signatureVersion = 1) "unsupported release metadata signature version"
  ensure (signature.algorithm = "ed25519") "unsupported signature algorithm"
  W.verifySigned "metadata" "document" (readBounded document) trust signature.keyId
    signature.issuedAtUnix nowUnix [] signature.documentSha256 signature.signature
  return signature

def verifyReleaseArtifactSignature (artifact signature trust : Bytes) (expectedTarget : String)
    (nowUnix : ℕ) : Except String Unit := do
  validateReleaseTarget expectedTarget
  let document ← readBounded signature >>= W.parseArtifactSignature
  ensure (document.signatureVersion = 1) "unsupported release artifact signature version"
  ensure (document.algorithm = "ed25519") "unsupported signature algorithm"
  validateReleaseTarget document.target
  ensure (document.target = expectedTarget)
    "release artifact target does not match the expected deployment target"
  W.verifySigned "artifact" "artifact" (readBoundedArtifact artifact) trust document.keyId
    document.issuedAtUnix nowUnix [document.target] document.artifactSha256 document.signature

def downloadTo (n : ℕ) (url : String) (limit : ℕ) : Except String Bytes := do
  let bytes ← W.get n url
  ensure (bytes.length ≤ limit) "download exceeds the limit"
  return bytes

def resolveTrustPolicy (current : Bytes) : Except String Bytes := do
  let url := W.base ++ "/download/trust/trust.json"
  let trust ← W.downloadTo 0 url (1024 * 1024)
  let signature ← W.downloadTo 1 (url ++ ".sig.json") (1024 * 1024)
  let now ← W.nowUnix 0
  let _ ← (W.verifyReleaseMetadataSignature trust signature current now).mapError fun _ =>
    "authenticate refreshed trust policy with installed trust"
  let _ ← (W.verifyReleaseMetadataSignature trust signature trust now).mapError fun _ =>
    "validate refreshed trust policy and active signing key"
  if trust ≠ current then
    let currentPolicy ← W.parsePolicy current
    let refreshedPolicy ← W.parsePolicy trust
    (validateTrustPolicyTransition W.crypto currentPolicy refreshedPolicy).mapError fun _ =>
      "reject unsafe trust-policy transition"
  return trust

def manifestFromJson (bytes : Bytes) : Except String (ReleaseManifest X) := do
  let manifest ← W.parseManifest bytes
  manifest.assets.forM fun asset => validateFiles [] asset.files
  return manifest

def channelPointerUrl : Channel → String
  | .stable => W.base ++ "/latest/download/channel-pointer.json"
  | .canary => W.base ++ "/download/canary/channel-pointer.json"

/-- The start of `resolve_manifest`: a channel pointer, unless a version is requested. -/
def resolvePointer (trust : Bytes) (requested : Option String) (selected : Channel) :
    Except String (Option ChannelPointer) :=
  match requested with
  | some version => do
    let _ ← W.parseVersion version
    return none
  | none => do
    let url := W.channelPointerUrl selected
    let bytes ← W.downloadTo 2 url (1024 * 1024)
    let signature ← W.downloadTo 3 (url ++ ".sig.json") (1024 * 1024)
    let now ← W.nowUnix 1
    let _ ← W.verifyReleaseMetadataSignature bytes signature trust now
    let pointer ← W.parsePointer bytes
    ensure (pointer.channel = selected) "channel pointer is for another channel"
    return some pointer

def resolveManifest (trust : Bytes) (requested : Option String) (selected : Channel) :
    Except String (ReleaseManifest X × Bytes) := do
  let contract ← W.resolvePointer trust requested selected
  let url := match contract with
    | some pointer => pointer.manifestUrl
    | none => W.base ++ "/download/v" ++ requested.getD "" ++ "/release-manifest.json"
  let bytes ← W.downloadTo 4 url (4 * 1024 * 1024)
  let signatureUrl := match contract with
    | some pointer => pointer.manifestSignature.url
    | none => url ++ ".sig.json"
  let signature ← W.downloadTo 5 signatureUrl (1024 * 1024)
  ensure (∀ pointer ∈ contract, bytes.length = pointer.manifestByteSize)
    "channel manifest size mismatch"
  ensure (∀ pointer ∈ contract, W.crypto.sha256 bytes = pointer.manifestSha256)
    "channel manifest SHA-256 mismatch"
  let now ← W.nowUnix 2
  let signature ← W.verifyReleaseMetadataSignature bytes signature trust now
  let manifest ← W.manifestFromJson bytes
  ensure (requested = none → manifest.channel = selected) "release manifest is for another channel"
  ensure (∀ pointer ∈ contract, manifest.channel = pointer.channel)
    "channel manifest channel mismatch"
  ensure (∀ pointer ∈ contract, manifest.version = pointer.version)
    "channel manifest version mismatch"
  ensure (∀ pointer ∈ contract, signature.keyId = pointer.manifestSignature.keyId)
    "channel selected an unexpected manifest signing key"
  ensure (∀ version ∈ requested, manifest.version = version) "immutable manifest version mismatch"
  return (manifest, bytes)

def verifyInstallation (manifestBytes : Bytes) (root : Directory) (target version : String) :
    Except String Unit := do
  (validateReleaseTarget target).mapError fun _ => "unsupported canonical target"
  ensure (manifestBytes.length ≤ 4 * 1024 * 1024) "release manifest is oversized"
  let manifest ← (W.manifestFromJson manifestBytes).mapError fun _ => "validate release manifest"
  ensure (manifest.version = version) "release manifest version does not match request"
  let asset ← require (manifest.assets.find? fun asset => asset.target = target)
    "release manifest has no asset for requested target"
  W.ensureCompatible asset.rest
  asset.files.forM fun expected => do
    let bytes ← require (root expected.path) ("required release file is missing: " ++ expected.path)
    ensure (W.crypto.sha256 bytes = expected.sha256)
      ("release file hash mismatch: " ++ expected.path)
  W.checkBuildInfo root asset.rest

/-- Nothing for a run that reports, refreshes the trust policy or does not need an upgrade. -/
def upgrade [LinearOrder V] (options : Options) (state : InstallState V) :
    Except String (Option (Activation V)) := do
  let _ ← options.version.mapM W.parseVersion
  let trust ← W.resolveTrustPolicy state.trust
  let selected := options.channel.getD state.channel
  let (manifest, manifestBytes) ← W.resolveManifest trust options.version selected
  let next ← W.parseVersion manifest.version
  let minimum ← W.parseVersion manifest.minimumUpdaterVersion
  ensure (minimum ≤ W.updater) "selected release requires a newer tysel"
  let asset ← require (manifest.assets.find? fun asset => asset.target = state.target)
    "selected release has no asset for the target"
  W.ensureCompatible asset.rest
  reject (next < state.active ∧ downgradeRequiresForce state.channel selected
    options.channel.isSome options.force) "downgrading requires --force or --channel"
  if next = state.active ∧ options.force = false ∨ options.check then return none
  options.confirm
  ensure (asset.byteSize ≤ 256 * 1024 * 1024) "release archive is oversized"
  let archive ← W.downloadTo 6 asset.archiveUrl (256 * 1024 * 1024)
  ensure (archive.length = asset.byteSize) "archive size mismatch"
  ensure (W.crypto.sha256 archive = asset.sha256) "archive SHA-256 mismatch"
  let signature ← W.downloadTo 7 asset.signature.url (1024 * 1024)
  let now ← W.nowUnix 3
  W.verifyReleaseArtifactSignature archive signature trust state.target now
  let extracted ← W.extractArchive archive
  W.verifyInstallation manifestBytes extracted state.target manifest.version
  let published := Function.update extracted "release-manifest.json" (some manifestBytes)
  let existing ← W.versionDir next
  -- an installed directory of the version is used again only with the same manifest
  let directory := match existing with
    | some directory =>
      if W.verifyInstallation manifestBytes directory state.target manifest.version = .ok () ∧
        directory "release-manifest.json" = some manifestBytes then directory else published
    | none => published
  return some ⟨next, directory, trust, manifestBytes⟩

end World

structure ReleaseSignature where
  signatureVersion : ℕ
  algorithm : String
  keyId : String
  issuedAtUnix : ℕ
  evidenceSha256 : String
  signature : String
  deriving DecidableEq

/-- `verify_release_signature`, which has the checks of `trusted_release_key` in its own text;
`verified` is the outcome of `verify_release_evidence`. -/
def World.verifyReleaseSignature {V X : Type} (W : World V X)
    (parse : Bytes → Except String ReleaseSignature) (verified : Except String Unit)
    (evidence signature trust : Bytes) (nowUnix : ℕ) : Except String ReleaseSignature := do
  verified
  let document ← readBounded signature >>= parse
  ensure (document.signatureVersion = 1) "unsupported release signature version"
  ensure (document.algorithm = "ed25519") "unsupported signature algorithm"
  ensure (document.issuedAtUnix ≤ withSkew nowUnix) "release signature is from the future"
  let evidence ← readBounded evidence
  ensure (W.crypto.sha256 evidence = document.evidenceSha256)
    "release signature does not bind this evidence index"
  let policy ← readBounded trust >>= W.parsePolicy
  validateTrustPolicy W.crypto policy
  ensure (policy.issuedAtUnix ≤ withSkew nowUnix) "release trust policy is from the future"
  ensure (nowUnix ≤ policy.expiresAtUnix) "release trust policy has expired"
  ensure (document.issuedAtUnix ≤ policy.expiresAtUnix)
    "release signature postdates the trust policy"
  let trusted ← require (policy.find? document.keyId) "release signature key is not trusted"
  ensure (trusted.status ≠ .revoked) "release signature key is revoked"
  ensure (trusted.validFromUnix ≤ nowUnix) "release key is not active yet"
  ensure (∀ until_ ∈ trusted.validUntilUnix, nowUnix ≤ until_) "release key validity has expired"
  ensure (∀ until_ ∈ trusted.validUntilUnix, document.issuedAtUnix ≤ until_)
    "release signature postdates key validity"
  ensure (trusted.validFromUnix ≤ document.issuedAtUnix) "release signature predates key validity"
  let publicKey ← decodeHex 32 trusted.publicKey
  ensure (W.crypto.validKey publicKey) "trusted Ed25519 public key is invalid"
  let signature ← decodeHex 64 document.signature
  let message := signatureMessage "evidence"
    [document.keyId, toString document.issuedAtUnix, document.evidenceSha256]
  ensure (W.crypto.verifyStrict publicKey message signature)
    "release evidence signature verification failed"
  return document

end Tysel.Release
