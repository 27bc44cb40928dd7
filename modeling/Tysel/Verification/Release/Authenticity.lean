import Mathlib.Data.List.Perm.Subperm
import Tysel.Algorithm.Release.Upgrade
import Tysel.Verification.Release.Trust

/-! Whatever the network serves, the link is switched only to a directory with the binaries that a
signed manifest lists, under a policy that follows from the installed one. -/

namespace Tysel.Release

open List Except Function World

variable {V X : Type} {W : World V X} {trust bs : Bytes} {man : ReleaseManifest X}

def World.Signed (W : World V X) (n : ℕ) (keyId : String) (pol : TrustPolicy)
    (document : Bytes) : Prop :=
  ∃ now, W.nowUnix n = .ok now ∧ ∃ key ∈ pol.keys, key.keyId = keyId ∧
    key.status ≠ .revoked ∧ key.validFromUnix ≤ now ∧
    (∀ deadline ∈ key.validUntilUnix, now ≤ deadline) ∧
    ∃ publicKey signature, ∃ issuedAtUnix : ℕ, decodeHex 32 key.publicKey = .ok publicKey ∧
      W.crypto.verifyStrict publicKey (signatureMessage "metadata"
        [keyId, toString issuedAtUnix, W.crypto.sha256 document]) signature

theorem verifyMetadata_ok {document : Bytes} {n now : ℕ} {s : ReleaseMetadataSignature}
    (hnow : W.nowUnix n = .ok now)
    (h : W.verifyReleaseMetadataSignature document bs trust now = .ok s) :
    W.parseMetadataSignature bs = .ok s ∧
      ∃ pol, W.parsePolicy trust = .ok pol ∧ W.Signed n s.keyId pol document := by
  simp only [verifyReleaseMetadataSignature, verifySigned, readBounded, bind_ok,
    ensure_ok, pure_ok] at h
  obtain ⟨_, ⟨_, ⟨-, -, rfl⟩, hparse⟩, -, -, -, -, -, ⟨-, -, _, ⟨-, -, rfl⟩, -, hsha, pol,
    ⟨_, ⟨-, -, rfl⟩, hpolicy⟩, key, hkey, publicKey, hpublic, -, -, signature, -, hverify⟩,
    rfl⟩ := h
  obtain ⟨-, hfind, hstatus, hfrom, huntil⟩ := trustedReleaseKey_ok hkey
  obtain ⟨hmem, hid⟩ := mem_of_find? hfind
  rw [nil_append, ← hsha] at hverify
  exact ⟨hparse, pol, hpolicy, now, hnow, key, hmem, hid, hstatus, hfrom, huntil, publicKey,
    signature, _, hpublic, hverify⟩

theorem resolveTrustPolicy_ok {current : Bytes} (h : W.resolveTrustPolicy current = .ok trust) :
    ∃ installed pol keyId, W.parsePolicy current = .ok installed ∧ W.parsePolicy trust = .ok pol ∧
      (trust = current ∨ validateTrustPolicyTransition W.crypto installed pol = .ok ()) ∧
      W.Signed 0 keyId installed trust ∧ W.Signed 0 keyId pol trust := by
  simp only [resolveTrustPolicy, bind_ok, mapError_ok] at h
  obtain ⟨bs, -, _, -, now, hnow, s, hcurrent, s', hself, h⟩ := h
  obtain ⟨hparse, installed, hinstalled, hsigned⟩ := verifyMetadata_ok hnow hcurrent
  obtain ⟨hparse', pol, hpolicy, hsigned'⟩ := verifyMetadata_ok hnow hself
  obtain rfl := ok.inj (hparse.symm.trans hparse')
  split at h
  · simp only [bind_ok, mapError_ok, pure_ok] at h
    obtain ⟨_, hold, _, hnew, ⟨⟩, htransition, rfl⟩ := h
    obtain rfl := ok.inj (hold.symm.trans hinstalled)
    obtain rfl := ok.inj (hnew.symm.trans hpolicy)
    exact ⟨_, _, _, hinstalled, hpolicy, .inr htransition, hsigned, hsigned'⟩
  · rename_i hsame
    obtain rfl := ok.inj h
    exact ⟨_, _, _, hinstalled, hpolicy, .inl (not_not.mp hsame), hsigned, hsigned'⟩

/-- The bytes are those of a signed pointer of the channel. -/
def World.Named (W : World V X) (pol : TrustPolicy) (channel : Channel) (bs : Bytes) : Prop :=
  ∃ document pointer keyId, W.Signed 1 keyId pol document ∧
    W.parsePointer document = .ok pointer ∧ pointer.channel = channel ∧
    bs.length = pointer.manifestByteSize ∧ W.crypto.sha256 bs = pointer.manifestSha256

theorem resolveManifest_ok {requested : Option String} {selected : Channel} {pol : TrustPolicy}
    (hpolicy : W.parsePolicy trust = .ok pol)
    (h : W.resolveManifest trust requested selected = .ok (man, bs)) :
    W.manifestFromJson bs = .ok man ∧ (∃ keyId, W.Signed 2 keyId pol bs) ∧
      (requested = none → W.Named pol selected bs) := by
  simp only [resolveManifest, bind_ok, ensure_ok, pure_ok, Prod.mk.injEq] at h
  obtain ⟨_, hcontract, _, -, _, -, -, hsize, -, hsha, _, hnow, s, hsigned, _, hmanifest,
    -, -, -, -, -, -, -, -, -, -, rfl, rfl⟩ := h
  obtain ⟨-, _, hparse, hsigns⟩ := verifyMetadata_ok hnow hsigned
  obtain rfl := ok.inj (hparse.symm.trans hpolicy)
  refine ⟨hmanifest, ⟨_, hsigns⟩, ?_⟩
  rintro rfl
  simp only [resolvePointer, bind_ok, ensure_ok, pure_ok] at hcontract
  obtain ⟨document, -, _, -, _, hnow', _, hs, _, hpointer, -, hchannel, rfl⟩ := hcontract
  obtain ⟨-, _, hparse', hsigns'⟩ := verifyMetadata_ok hnow' hs
  obtain rfl := ok.inj (hparse'.symm.trans hpolicy)
  exact ⟨document, _, _, hsigns', hpointer, hchannel, hsize _ rfl, hsha _ rfl⟩

theorem validateFiles_ok {files : List ExpectedFile} {found : List String}
    (h : validateFiles found files = .ok ()) (hnodup : found.Nodup)
    (hfound : found ⊆ managedPaths) {path : String} (hpath : path ∈ managedPaths) :
    path ∈ found ∨ ∃ file ∈ files, file.path = path := by
  induction files generalizing found with
  | nil =>
    have hperm := (subperm_of_subset hnodup hfound).perm_of_length_le (ensure_ok.mp h).ge
    exact .inl (hperm.mem_iff.mpr hpath)
  | cons file _ ih =>
    simp only [validateFiles, bind_ok, ensure_ok, reject_ok] at h
    obtain ⟨-, hmanaged, -, hnew, hrest⟩ := h
    rcases ih hrest (nodup_cons.mpr ⟨hnew, hnodup⟩)
      (cons_subset.mpr ⟨hmanaged, hfound⟩) with
      hmem | ⟨file', hfile, rfl⟩
    · rcases mem_cons.mp hmem with rfl | hmem
      · exact .inr ⟨file, mem_cons_self .., rfl⟩
      · exact .inl hmem
    · exact .inr ⟨file', mem_cons_of_mem _ hfile, rfl⟩

def World.Lists (W : World V X) (man : ReleaseManifest X) (target : String)
    (root : Directory) : Prop :=
  ∃ asset ∈ man.assets, asset.target = target ∧ ∀ path ∈ managedPaths,
    ∃ file ∈ asset.files, file.path = path ∧
      ∃ bs, root path = some bs ∧ W.crypto.sha256 bs = file.sha256

theorem verifyInstallation_ok {root : Directory}
    {target version : String} (hmanifest : W.manifestFromJson bs = .ok man)
    (h : W.verifyInstallation bs root target version = .ok ()) :
    W.Lists man target root := by
  simp only [verifyInstallation, bind_ok, ensure_ok, require_ok, mapError_ok] at h
  obtain ⟨-, -, -, -, _, hparse, -, -, asset, hasset, -, -, ⟨⟩, hfiles, -⟩ := h
  obtain rfl := ok.inj (hparse.symm.trans hmanifest)
  have hmem := mem_of_find?_eq_some hasset
  refine ⟨asset, hmem, by simpa using find?_some hasset, fun path hpath => ?_⟩
  simp only [manifestFromJson, bind_ok, pure_ok] at hmanifest
  obtain ⟨_, -, ⟨⟩, hvalid, rfl⟩ := hmanifest
  obtain hnil | ⟨file, hfile, rfl⟩ := validateFiles_ok (forM_ok_iff.mp hvalid asset hmem)
    nodup_nil (nil_subset _) hpath
  · cases hnil
  · have hcheck := forM_ok_iff.mp hfiles file hfile
    simp only [bind_ok, require_ok, ensure_ok] at hcheck
    exact ⟨file, hfile, rfl, hcheck⟩

/-- What the switch of the link to a directory rests on. -/
structure Authentic [LinearOrder V] (W : World V X) (options : Options) (state : InstallState V)
    (a : Activation V) (installed pol : TrustPolicy) (man : ReleaseManifest X) : Prop where
  parsed : W.parsePolicy state.trust = .ok installed ∧ W.parsePolicy a.trust = .ok pol ∧
    W.manifestFromJson a.manifest = .ok man ∧ W.parseVersion man.version = .ok a.version
  follows : a.trust = state.trust ∨ validateTrustPolicyTransition W.crypto installed pol = .ok ()
  trusted : ∃ keyId, W.Signed 0 keyId installed a.trust ∧ W.Signed 0 keyId pol a.trust
  signed : ∃ keyId, W.Signed 2 keyId pol a.manifest
  named : options.version = none → W.Named pol (options.channel.getD state.channel) a.manifest
  listed : W.Lists man state.target a.directory
  forward : a.version < state.active →
    options.force ∨ ∃ channel, options.channel = some channel ∧ channel ≠ state.channel

/-- Whatever the network, the clock and the options give. -/
theorem activated_releases_authentic [LinearOrder V] (W : World V X) (options : Options)
    (state : InstallState V) {a : Activation V} (h : W.upgrade options state = .ok (some a)) :
    ∃ installed pol man, Authentic W options state a installed pol man := by
  simp only [upgrade, bind_ok] at h
  obtain ⟨-, -, trust, htrust, ⟨man, bs⟩, hresolve, next, hnext, -, -, -, -, _, -, -,
    -, ⟨⟩, hforward, h⟩ := h
  obtain ⟨installed, pol, keyId, hinstalled, hpolicy, hfollows, hsigned⟩ :=
    resolveTrustPolicy_ok htrust
  obtain ⟨hmanifest, hsigns, hnamed⟩ := resolveManifest_ok hpolicy hresolve
  split at h
  · cases h
  simp only [bind_ok, pure_ok, Option.some.injEq] at h
  obtain ⟨-, -, -, -, -, -, -, -, -, -, -, -, -, -, -, -, extracted, -, ⟨⟩, hverify, existing, -,
    rfl⟩ := h
  refine ⟨installed, pol, man, ⟨hinstalled, hpolicy, hmanifest, hnext⟩, hfollows,
    ⟨keyId, hsigned⟩, hsigns, hnamed, ?_, fun hlower => ?_⟩
  · obtain ⟨asset, hmem, htarget, hfiles⟩ := verifyInstallation_ok hmanifest hverify
    have hpublished : W.Lists man state.target
        (update extracted "release-manifest.json" (some bs)) := by
      refine ⟨asset, hmem, htarget, fun path hpath => ?_⟩
      rw [update_of_ne (by rintro rfl; exact absurd hpath (by decide))]
      exact hfiles path hpath
    cases existing with
    | none => exact hpublished
    | some =>
      dsimp only
      split
      · rename_i hreuse
        exact verifyInstallation_ok hmanifest hreuse.1
      · exact hpublished
  · have hforce := not_and.mp (reject_ok.mp hforward) hlower
    cases hchannel : options.channel <;>
      simpa [hchannel, downgradeRequiresForce, or_iff_not_imp_left] using hforce

def zeros (n : ℕ) : String := String.ofList (List.replicate n '0')

/-- Every digest is `d`. A trust policy is issued at its length, and version 2 is published. -/
def publishedWorld : World ℕ Unit where
  crypto := ⟨fun _ => "d", fun _ => true, fun _ _ _ => true⟩
  parsePolicy bs := .ok ⟨1, bs.length, 1000, [⟨"d", "ed25519", zeros 64, .active, 0, none⟩]⟩
  parseMetadataSignature _ := .ok ⟨1, "ed25519", "d", 2, "d", zeros 128⟩
  parseArtifactSignature _ := .ok ⟨1, "ed25519", "d", 2, "linux-x64", "d", zeros 128⟩
  parsePointer _ := .ok ⟨.stable, "2", "", 1, "d", ⟨"", "d"⟩⟩
  parseManifest _ := .ok ⟨"2", .stable, "1",
    [⟨"linux-x64", "", 1, "d", ⟨"", "d"⟩, managedPaths.map (⟨·, "d"⟩), ()⟩]⟩
  parseVersion text := .ok (if text = "2" then 2 else 1)
  base := ""
  get _ _ := .ok [0]
  nowUnix _ := .ok 2
  updater := 1
  ensureCompatible _ := .ok ()
  extractArchive _ := .ok fun _ => some [0]
  checkBuildInfo _ _ := .ok ()
  versionDir _ := .ok none

def installedState : InstallState ℕ := ⟨1, .stable, "linux-x64", []⟩

/-- An upgrade from version 1 refreshes the trust policy and activates version 2. -/
theorem published_release_authentic :
    let options : Options := ⟨false, none, none, false, .ok ()⟩
    ∃ a, publishedWorld.upgrade options installedState = .ok (some a) ∧ a.version = 2 ∧
      ∃ installed pol man, Authentic publishedWorld options installedState a installed pol man := by
  intro options
  have hversion : (publishedWorld.upgrade options installedState).toOption.map
      (Option.map Activation.version) = some (some 2) := by decide +kernel
  obtain ⟨_, hupgrade, a, rfl, ha⟩ : ∃ r, publishedWorld.upgrade options installedState = .ok r ∧
      ∃ a, r = some a ∧ a.version = 2 := by
    cases h : publishedWorld.upgrade options installedState with
    | error => simp [h, Except.toOption] at hversion
    | ok => simpa [h, Except.toOption] using hversion
  exact ⟨a, hupgrade, ha, activated_releases_authentic publishedWorld options _ hupgrade⟩

end Tysel.Release
