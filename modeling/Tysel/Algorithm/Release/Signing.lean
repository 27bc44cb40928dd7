import Tysel.Shared.Except
import Tysel.Shared.Utf8

/-! The checks of a trust policy, of a step from one policy to the next, and of a signing key at a
time. An error is the outermost message of the source's error. -/

namespace Tysel.Release

open Tysel.Text (utf8)

abbrev Bytes := List UInt8

inductive ReleaseKeyStatus where
  | active | retired | revoked
  deriving DecidableEq, Repr

structure TrustedReleaseKey where
  keyId : String
  algorithm : String
  publicKey : String
  status : ReleaseKeyStatus
  validFromUnix : ℕ
  validUntilUnix : Option ℕ
  deriving DecidableEq

structure TrustPolicy where
  policyVersion : ℕ
  issuedAtUnix : ℕ
  expiresAtUnix : ℕ
  keys : List TrustedReleaseKey
  deriving DecidableEq

structure ReleaseMetadataSignature where
  signatureVersion : ℕ
  algorithm : String
  keyId : String
  issuedAtUnix : ℕ
  documentSha256 : String
  signature : String
  deriving DecidableEq

structure ReleaseArtifactSignature where
  signatureVersion : ℕ
  algorithm : String
  keyId : String
  issuedAtUnix : ℕ
  target : String
  artifactSha256 : String
  signature : String
  deriving DecidableEq

/-- The cryptographic libraries: the SHA-256 digest in lowercase hexadecimal, which byte strings
are Ed25519 public keys, and strict verification of a signature of a message. -/
structure Crypto where
  sha256 : Bytes → String
  validKey : Bytes → Bool
  verifyStrict : Bytes → Bytes → Bytes → Bool

def trustPolicyVersion : ℕ := 1

def maxClockSkewSeconds : ℕ := 300

def maxPolicyLifetimeSeconds : ℕ := 90 * 24 * 60 * 60

def withSkew (nowUnix : ℕ) : ℕ := min (nowUnix + maxClockSkewSeconds) (2 ^ 64 - 1)

def hexNibble (value : UInt8) : Except String UInt8 :=
  if 0x30 ≤ value ∧ value ≤ 0x39 then .ok (value - 0x30)
  else if 0x61 ≤ value ∧ value ≤ 0x66 then .ok (value - 0x61 + 10)
  else .error "hex values must use canonical lowercase encoding"

def decodePairs : Bytes → Except String Bytes
  | high :: low :: rest => do
    let high ← hexNibble high
    let low ← hexNibble low
    let decoded ← decodePairs rest
    return (high <<< 4 ||| low) :: decoded
  | _ => .ok []

def decodeHex (n : ℕ) (encoded : String) : Except String Bytes := do
  ensure ((utf8 encoded.toList).length = n * 2) "hex value has the wrong length"
  decodePairs (utf8 encoded.toList)

/-- The loop over the keys, with the id of the key before. -/
def validateKeys (C : Crypto) : Option String → List TrustedReleaseKey → Except String Unit
  | _, [] => .ok ()
  | previous, key :: rest => do
    ensure (key.algorithm = "ed25519") "unsupported trusted-key algorithm"
    ensure (∀ until_ ∈ key.validUntilUnix, key.validFromUnix ≤ until_)
      "trusted-key validity window is inverted"
    ensure (key.status ≠ .retired ∨ key.validUntilUnix.isSome)
      "retired release keys require valid_until_unix"
    let publicKey ← decodeHex 32 key.publicKey
    ensure (C.sha256 publicKey = key.keyId) "trusted key ID does not match public key"
    ensure (∀ id ∈ previous, id < key.keyId) "trusted keys are duplicated or unsorted"
    validateKeys C (some key.keyId) rest

def validateTrustPolicy (C : Crypto) (policy : TrustPolicy) : Except String Unit := do
  ensure (policy.policyVersion = trustPolicyVersion) "unsupported trust policy version"
  ensure (policy.issuedAtUnix < policy.expiresAtUnix) "trust policy validity is empty"
  ensure (policy.expiresAtUnix - policy.issuedAtUnix ≤ maxPolicyLifetimeSeconds)
    "trust policy validity exceeds 90 days"
  ensure (policy.keys ≠ []) "trust policy contains no keys"
  validateKeys C none policy.keys

def TrustPolicy.find? (policy : TrustPolicy) (keyId : String) : Option TrustedReleaseKey :=
  policy.keys.find? fun key => key.keyId = keyId

def keyStatusRank : ReleaseKeyStatus → ℕ
  | .active => 0
  | .retired => 1
  | .revoked => 2

/-- The check of a key of the current policy that the successor does not list. -/
def validateRemoval (successor : TrustPolicy) (key : TrustedReleaseKey) : Except String Unit :=
  match key.status with
  | .active => .error "active release key was removed without retirement"
  | .retired => do
    let deadline ← require key.validUntilUnix "retired release key has no retirement deadline"
    ensure (deadline < successor.issuedAtUnix)
      "retired release key was removed before its retirement deadline"
  | .revoked => .error "revoked release-key tombstone was removed"

/-- The check of a key that both policies list. -/
def validateEvolution (current next : TrustedReleaseKey) : Except String Unit := do
  ensure (next.algorithm = current.algorithm ∧ next.publicKey = current.publicKey)
    "trusted release-key identity changed"
  ensure (next.validFromUnix = current.validFromUnix) "trusted release-key inception changed"
  ensure (keyStatusRank current.status ≤ keyStatusRank next.status)
    "trusted release-key status regressed"
  if current.status ≠ .active then
    ensure (next.validUntilUnix = current.validUntilUnix)
      "retired or revoked release-key deadline changed"
  else
    ensure (∀ deadline ∈ current.validUntilUnix, next.validUntilUnix = some deadline)
      "trusted release-key deadline changed"

def validateTrustPolicyTransition (C : Crypto) (current successor : TrustPolicy) :
    Except String Unit := do
  (validateTrustPolicy C current).mapError fun _ => "current trust policy is invalid"
  (validateTrustPolicy C successor).mapError fun _ => "successor trust policy is invalid"
  ensure (current.issuedAtUnix < successor.issuedAtUnix)
    "successor trust policy does not advance issued_at_unix"
  current.keys.forM fun key =>
    match successor.find? key.keyId with
    | none => validateRemoval successor key
    | some next => validateEvolution key next
  successor.keys.forM fun key =>
    ensure ((current.find? key.keyId).isSome ∨ key.status = .active)
      "new release keys must enter the policy as active"

/-- `trusted_release_key`: the key with this id, if the policy trusts it now for a signature of
this time. -/
def trustedReleaseKey (C : Crypto) (policy : TrustPolicy) (keyId : String)
    (issuedAtUnix nowUnix : ℕ) : Except String TrustedReleaseKey := do
  validateTrustPolicy C policy
  ensure (policy.issuedAtUnix ≤ withSkew nowUnix) "release trust policy is from the future"
  ensure (nowUnix ≤ policy.expiresAtUnix) "release trust policy has expired"
  ensure (issuedAtUnix ≤ policy.expiresAtUnix) "release signature postdates the trust policy"
  let trusted ← require (policy.find? keyId) "release signature key is not trusted"
  ensure (trusted.status ≠ .revoked) "release signature key is revoked"
  ensure (trusted.validFromUnix ≤ nowUnix) "release key is not active yet"
  ensure (∀ until_ ∈ trusted.validUntilUnix, nowUnix ≤ until_) "release key validity has expired"
  ensure (∀ until_ ∈ trusted.validUntilUnix, issuedAtUnix ≤ until_)
    "release signature postdates key validity"
  ensure (trusted.validFromUnix ≤ issuedAtUnix) "release signature predates key validity"
  return trusted

end Tysel.Release
