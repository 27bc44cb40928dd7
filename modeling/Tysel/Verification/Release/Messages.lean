import Tysel.Algorithm.Release.Upgrade
import Tysel.Verification.Release.Trust

/-! No part of an accepted message holds a NUL, so that the message has its parts back. Evidence is
accepted under the keys of the other documents, if it is not from the future. -/

namespace Tysel.Release

open Tysel.Text List Nat World

variable {V X : Type} {W : World V X} {C : Crypto} {pol : TrustPolicy} {id : String}

/-- What a signature is about. -/
structure Signed where
  kind : String
  keyId : String
  issuedAtUnix : ℕ
  target : List String
  sha256 : String

namespace Signed

def message (s : Signed) : Bytes :=
  signatureMessage s.kind (s.keyId :: toString s.issuedAtUnix :: (s.target ++ [s.sha256]))

/-- The documents that the three verifications accept. -/
inductive Accepted (W : World V X) : Signed → Prop
  | evidence {parse verified evidence sig trust now d} :
      W.verifyReleaseSignature parse verified evidence sig trust now = .ok d →
      Accepted W ⟨"evidence", d.keyId, d.issuedAtUnix, [], d.evidenceSha256⟩
  | artifact {artifact sig trust target now d} :
      W.verifyReleaseArtifactSignature artifact sig trust target now = .ok () →
      W.parseArtifactSignature sig = .ok d →
      Accepted W ⟨"artifact", d.keyId, d.issuedAtUnix, [d.target], d.artifactSha256⟩
  | metadata {document sig trust now d} :
      W.verifyReleaseMetadataSignature document sig trust now = .ok d →
      Accepted W ⟨"metadata", d.keyId, d.issuedAtUnix, [], d.documentSha256⟩

end Signed

theorem toString_digits (n : ℕ) : (toString n).toList = toDigits 10 n := by
  change (Nat.repr n).toList = _
  rw [repr_eq_ofList_toDigits, String.toList_ofList]

theorem toString_inj {m n : ℕ} (h : toString m = toString n) : m = n := by
  have hdigits := congrArg (fun text => ofDigitChars 10 text.toList 0) h
  simpa [toString_digits, ofDigitChars_toDigits] using hdigits

theorem toString_no_nul (n : ℕ) : '\x00' ∉ (toString n).toList := by
  rw [toString_digits]
  intro h
  exact absurd (isDigit_of_mem_toDigits (by decide) le_rfl h) (by decide)

theorem target_no_nul {target : String} (h : validateReleaseTarget target = .ok ()) :
    '\x00' ∉ target.toList := by
  rw [validateReleaseTarget, ensure_ok] at h
  revert h target
  decide

theorem validateKeys_digest {previous : Option String} {keys : List TrustedReleaseKey}
    (h : validateKeys C previous keys = .ok ()) :
    ∀ key ∈ keys, ∃ pk, C.sha256 pk = key.keyId := by
  induction keys generalizing previous with
  | nil => simp
  | cons _ _ ih =>
    simp only [validateKeys, bind_ok, ensure_ok] at h
    obtain ⟨-, -, -, -, -, -, pk, -, -, hid, -, -, hrest⟩ := h
    exact forall_mem_cons.mpr ⟨⟨pk, hid⟩, ih hrest⟩

theorem keyId_digest {key : TrustedReleaseKey} (hvalid : validateTrustPolicy C pol = .ok ())
    (hfind : pol.find? id = some key) : ∃ pk, C.sha256 pk = id := by
  obtain ⟨hmem, rfl⟩ := mem_of_find? hfind
  simp only [validateTrustPolicy, bind_ok, ensure_ok] at hvalid
  obtain ⟨-, -, -, -, -, -, -, -, hkeys⟩ := hvalid
  exact validateKeys_digest hkeys key hmem

theorem verifySigned_digests {kind noun document trust issued now target sha256 sig}
    (h : W.verifySigned kind noun document trust id issued now target sha256 sig = .ok ()) :
    (∃ pk, W.crypto.sha256 pk = id) ∧ ∃ bs, W.crypto.sha256 bs = sha256 := by
  simp only [verifySigned, bind_ok, ensure_ok] at h
  obtain ⟨-, -, bs, -, -, hsha, pol, -, key, hkey, -⟩ := h
  obtain ⟨hvalid, hfind, -⟩ := trustedReleaseKey_ok hkey
  exact ⟨keyId_digest hvalid hfind, bs, hsha⟩

namespace Signed

variable {s s' : Signed}

def pieces (s : Signed) : List String :=
  ("tysel-release-" ++ s.kind ++ "-signature-v1") :: s.keyId :: toString s.issuedAtUnix ::
    (s.target ++ [s.sha256])

theorem message_eq (s : Signed) :
    s.message = utf8 (['\x00'].intercalate (s.pieces.map String.toList)) := by
  have hnul : "\x00".toList = ['\x00'] := rfl
  simp [message, signatureMessage, pieces, String.toList_intercalate, hnul, intercalate_cons_cons]

section

variable (hhex : ∀ bs, '\x00' ∉ (W.crypto.sha256 bs).toList)

include hhex

theorem pieces_no_nul (hkind : '\x00' ∉ s.kind.toList)
    (hdigests : (∃ pk, W.crypto.sha256 pk = s.keyId) ∧ ∃ bs, W.crypto.sha256 bs = s.sha256)
    (htarget : ∀ target ∈ s.target, '\x00' ∉ target.toList) :
    ∀ piece ∈ s.pieces.map String.toList, '\x00' ∉ piece := by
  obtain ⟨⟨pk, hid⟩, bs, hsha⟩ := hdigests
  simp only [pieces, map_cons, map_append, forall_mem_cons, forall_mem_append, forall_mem_map]
  exact ⟨by simp [hkind], hid ▸ hhex pk, toString_no_nul _, htarget, by simpa using hsha ▸ hhex bs⟩

theorem Accepted.no_nul (h : Accepted W s) :
    ∀ piece ∈ s.pieces.map String.toList, '\x00' ∉ piece := by
  cases h with
  | evidence h =>
    simp only [verifyReleaseSignature, bind_ok, ensure_ok, require_ok, pure_ok] at h
    obtain ⟨-, -, d, -, -, -, -, -, -, -, bs, -, -, hsha, pol, -, ⟨⟩, hvalid, -, -, -, -, -,
      -, key, hfind, -, -, -, -, -, -, -, -, -, -, -, -, -, -, -, -, -, -, rfl⟩ := h
    exact pieces_no_nul hhex (show '\x00' ∉ "evidence".toList by decide)
      ⟨keyId_digest hvalid hfind, bs, hsha⟩ (by simp)
  | artifact h hparse =>
    simp only [verifyReleaseArtifactSignature, readBounded, bind_ok, ensure_ok, pure_ok] at h
    obtain ⟨-, -, d, ⟨_, ⟨-, -, rfl⟩, hd⟩, -, -, -, -, ⟨⟩, htarget, -, -, hsigned⟩ := h
    obtain rfl := Except.ok.inj (hparse.symm.trans hd)
    exact pieces_no_nul hhex (show '\x00' ∉ "artifact".toList by decide)
      (verifySigned_digests hsigned) (by simpa using target_no_nul htarget)
  | metadata h =>
    simp only [verifyReleaseMetadataSignature, bind_ok, pure_ok] at h
    obtain ⟨d, -, -, -, -, -, ⟨⟩, hsigned, rfl⟩ := h
    exact pieces_no_nul hhex (show '\x00' ∉ "metadata".toList by decide)
      (verifySigned_digests hsigned) (by simp)

theorem Accepted.eq_of_message (h : Accepted W s) (h' : Accepted W s')
    (hmessage : s.message = s'.message) : s = s' := by
  rw [message_eq, message_eq] at hmessage
  have htext := congrArg fromUtf8Lossy hmessage
  rw [fromUtf8Lossy_utf8, fromUtf8Lossy_utf8] at htext
  have hsplit := congrArg (splitOn '\x00') htext
  rw [splitOn_intercalate _ (h.no_nul hhex) (by simp [pieces]),
    splitOn_intercalate _ (h'.no_nul hhex) (by simp [pieces])] at hsplit
  have hpieces := map_injective_iff.mpr (fun _ _ => String.toList_injective) hsplit
  simp only [pieces, cons.injEq] at hpieces
  obtain ⟨hkind, hid, htime, hrest⟩ := hpieces
  have hissued := toString_inj htime
  cases s
  cases s'
  simp_all

end

end Signed

/-- Accepted signatures of the same message are about the same; and evidence is accepted exactly
under a key that `trusted_release_key` accepts, at a time that is not in the future. -/
theorem signature_messages_unambiguous (W : World V X)
    (hhex : ∀ bs, '\x00' ∉ (W.crypto.sha256 bs).toList) :
    (∀ s s', Signed.Accepted W s → Signed.Accepted W s' → s.message = s'.message → s = s') ∧
    ∀ parse verified evidence sig trust now d,
      W.verifyReleaseSignature parse verified evidence sig trust now = .ok d ↔
        (verified = .ok () ∧ (readBounded sig >>= parse) = .ok d ∧
          d.signatureVersion = 1 ∧ d.algorithm = "ed25519" ∧
          ∃ bs, readBounded evidence = .ok bs ∧ W.crypto.sha256 bs = d.evidenceSha256) ∧
        d.issuedAtUnix ≤ withSkew now ∧
        ∃ pol key, (readBounded trust >>= W.parsePolicy) = .ok pol ∧
          trustedReleaseKey W.crypto pol d.keyId d.issuedAtUnix now = .ok key ∧
          ∃ pk bs, decodeHex 32 key.publicKey = .ok pk ∧
            W.crypto.validKey pk ∧ decodeHex 64 d.signature = .ok bs ∧
            W.crypto.verifyStrict pk (signatureMessage "evidence"
              [d.keyId, toString d.issuedAtUnix, d.evidenceSha256]) bs := by
  refine ⟨fun _ _ h h' => h.eq_of_message hhex h', fun _ _ _ _ _ _ _ => ?_⟩
  simp only [verifyReleaseSignature, trustedReleaseKey, bind_ok, ensure_ok,
    require_ok, pure_ok, Unique.exists_iff, PUnit.default_eq_unit]
  constructor
  · rintro ⟨hverified, _, hparse, hversion, halgorithm, hfuture, bs, hbytes, hsha, pol,
      hpolicy, hvalid, hissued, hexpires, hpostdates, key, hfind, hstatus, hfrom, huntil, hbefore,
      hsince, pk, hpublic, hkey, sig, hsignature, hverify, rfl⟩
    exact ⟨⟨hverified, hparse, hversion, halgorithm, bs, hbytes, hsha⟩, hfuture, pol, key,
      hpolicy, ⟨hvalid, hissued, hexpires, hpostdates, key, hfind, hstatus, hfrom, huntil, hbefore,
      hsince, rfl⟩, pk, sig, hpublic, hkey, hsignature, hverify⟩
  · rintro ⟨⟨hverified, hparse, hversion, halgorithm, bs, hbytes, hsha⟩, hfuture, pol, _,
      hpolicy, ⟨hvalid, hissued, hexpires, hpostdates, key, hfind, hstatus, hfrom, huntil, hbefore,
      hsince, rfl⟩, pk, sig, hpublic, hkey, hsignature, hverify⟩
    exact ⟨hverified, _, hparse, hversion, halgorithm, hfuture, bs, hbytes, hsha, pol,
      hpolicy, hvalid, hissued, hexpires, hpostdates, key, hfind, hstatus, hfrom, huntil, hbefore,
      hsince, pk, hpublic, hkey, sig, hsignature, hverify, rfl⟩

def signingKey : TrustedReleaseKey :=
  ⟨"139e3940e64b5491722088d9a0d741628fc826e09475d341a780acde3c4b8070", "ed25519",
    "3b6a27bcceb6a42d62a3a8d02a6f0d73653215771de243a63ac048a18b59da29", .active, 0, none⟩

def zerosSha256 : String := "66687aadf862bd776c8fc18b8e9f8e20089714856ee233b3902a591d0d5f2925"

/-- The libraries on the public key and on 32 zero bytes with the two signatures below. -/
def signingCrypto : Crypto where
  sha256 bs := if bs = List.replicate 32 0 then zerosSha256 else signingKey.keyId
  validKey _ := true
  verifyStrict _ _ _ := true

def signingPolicy : TrustPolicy := ⟨1, 100, 1000, [signingKey]⟩

def signedEvidence : ReleaseSignature := ⟨1, "ed25519", signingKey.keyId, 900, zerosSha256,
  "8abb06dacb76475fdd2d84c4b0827e86abf0a1a5dd107663d4196a190a0bde6e" ++
    "1064211f237e9fc8189e55920b7a2153eeea147b8e8c91e97a66f2d39ebb4a0d"⟩

def signedMetadata : ReleaseMetadataSignature := ⟨1, "ed25519", signingKey.keyId, 900, zerosSha256,
  "a8b6664a6d076a0517da17a06abf2b39ac8b693beae68c6d19beb1bdcde9efaa" ++
    "5f939d9795d024f2c76d8003d6b5ba4a5f74f7e7781f1983b2fbe741aabd5a0b"⟩

def signedWorld : World ℕ ℕ :=
  ⟨signingCrypto, fun _ => .ok signingPolicy, fun _ => .ok signedMetadata, fun _ => .error "",
    fun _ => .error "", fun _ => .error "", fun _ => .error "", "", fun _ _ => .error "",
    fun _ => .error "", 0, fun _ => .error "", fun _ => .error "", fun _ _ => .error "",
    fun _ => .error ""⟩

def verifyZeros (nowUnix : ℕ) : Except String ReleaseSignature :=
  signedWorld.verifyReleaseSignature (fun _ => .ok signedEvidence) (.ok ())
    (List.replicate 32 0) [] [] nowUnix

theorem signature_messages_of_two_kinds : (verifyZeros 900 = .ok signedEvidence ∧
      signedWorld.verifyReleaseMetadataSignature (List.replicate 32 0) [] [] 900 =
        .ok signedMetadata) ∧
    signatureMessage "evidence" [signingKey.keyId, "900", zerosSha256] ≠
      signatureMessage "metadata" [signingKey.keyId, "900", zerosSha256] := by
  have hevidence : verifyZeros 900 = .ok signedEvidence := by decide +kernel
  have hmetadata : signedWorld.verifyReleaseMetadataSignature (replicate 32 0) [] [] 900 =
      .ok signedMetadata := by decide +kernel
  have hhex (bs) : '\x00' ∉ (signedWorld.crypto.sha256 bs).toList := by
    change '\x00' ∉ (ite _ _ _ : String).toList
    split <;> decide
  refine ⟨⟨hevidence, hmetadata⟩, fun h => ?_⟩
  have hsame := (signature_messages_unambiguous signedWorld hhex).1 _ _ (.evidence hevidence)
    (.metadata hmetadata) h
  exact absurd (congrArg Signed.kind hsame) (by decide)

/-- A key that is trusted for a signature from the future, which is not accepted. -/
theorem future_evidence_rejected :
    trustedReleaseKey signingCrypto signingPolicy signingKey.keyId 900 100 = .ok signingKey ∧
      verifyZeros 100 = .error "release signature is from the future" ∧
      verifyZeros 900 = .ok signedEvidence := by
  decide +kernel

end Tysel.Release
