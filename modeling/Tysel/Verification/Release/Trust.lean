import Tysel.Algorithm.Release.Signing

/-! The issue times of a chain of accepted policies increase and revoked keys stay revoked. The
deadline of a retired key holds as long as no policy lists again a key that has been removed. -/

namespace Tysel.Release

open List Option Nat

variable {C : Crypto} {pol current successor : TrustPolicy} {key : TrustedReleaseKey}
  {id : String}

theorem validateKeys_sorted {previous : Option String} {keys : List TrustedReleaseKey}
    (h : validateKeys C previous keys = .ok ()) : (∀ id ∈ previous, ∀ key ∈ keys, id < key.keyId) ∧
      keys.Pairwise fun k k' => k.keyId < k'.keyId := by
  induction keys generalizing previous with
  | nil => exact ⟨by simp, .nil⟩
  | cons key _ ih =>
    simp only [validateKeys, bind_ok, ensure_ok] at h
    obtain ⟨-, -, -, -, -, -, -, -, -, -, -, hprevious, hrest⟩ := h
    obtain ⟨hlater, hsorted⟩ := ih hrest
    refine ⟨fun id hid k hk => ?_, .cons (hlater key.keyId rfl) hsorted⟩
    rcases mem_cons.mp hk with rfl | hk
    · exact hprevious id hid
    · exact (hprevious id hid).trans (hlater key.keyId rfl k hk)

theorem find?_of_mem (hvalid : validateTrustPolicy C pol = .ok ()) (hkey : key ∈ pol.keys) :
    pol.find? key.keyId = some key := by
  simp only [validateTrustPolicy, bind_ok, ensure_ok] at hvalid
  obtain ⟨-, -, -, -, -, -, -, -, hkeys⟩ := hvalid
  obtain ⟨_, _, hsplit⟩ := append_of_mem hkey
  have hsorted := (validateKeys_sorted hkeys).2
  rw [hsplit, pairwise_append] at hsorted
  rw [TrustPolicy.find?, hsplit, find?_append, find?_eq_none.mpr fun k hk => ?_,
    none_or, find?_cons_of_pos (by simp)]
  simpa using (hsorted.2.2 k hk key (mem_cons_self ..)).ne

theorem mem_of_find? (h : pol.find? id = some key) : key ∈ pol.keys ∧ key.keyId = id :=
  ⟨mem_of_find?_eq_some h, by simpa using find?_some h⟩

/-- What the trust in a key says about the policy's only key of its id. -/
theorem trustedReleaseKey_ok {issuedAtUnix nowUnix : ℕ}
    (h : trustedReleaseKey C pol id issuedAtUnix nowUnix = .ok key) :
    validateTrustPolicy C pol = .ok () ∧ pol.find? id = some key ∧
      key.status ≠ .revoked ∧ key.validFromUnix ≤ nowUnix ∧
      ∀ deadline ∈ key.validUntilUnix, nowUnix ≤ deadline := by
  simp only [trustedReleaseKey, bind_ok, ensure_ok, require_ok, pure_ok] at h
  obtain ⟨⟨⟩, hvalid, -, -, -, -, -, -, _, hfind, -, hstatus, -, hfrom, -, huntil, -, -, -, -,
    rfl⟩ := h
  exact ⟨hvalid, hfind, hstatus, hfrom, huntil⟩

/-- What an accepted step makes of the keys that it finds. -/
structure Evolves (C : Crypto) (current successor : TrustPolicy) : Prop where
  valid : validateTrustPolicy C current = .ok () ∧ validateTrustPolicy C successor = .ok ()
  issued : current.issuedAtUnix < successor.issuedAtUnix
  removed : ∀ key ∈ current.keys, successor.find? key.keyId = none → key.status = .retired
  kept : ∀ key ∈ current.keys, ∀ next, successor.find? key.keyId = some next →
    (key.status = .revoked → next.status = .revoked) ∧
      ∀ deadline ∈ key.validUntilUnix, next.validUntilUnix = some deadline

theorem validateEvolution_ok {next : TrustedReleaseKey} (h : validateEvolution key next = .ok ()) :
    (key.status = .revoked → next.status = .revoked) ∧
      ∀ deadline ∈ key.validUntilUnix, next.validUntilUnix = some deadline := by
  simp only [validateEvolution, bind_ok, ensure_ok] at h
  obtain ⟨-, -, -, -, -, hrank, huntil⟩ := h
  constructor
  · intro hrevoked
    rw [hrevoked] at hrank
    cases hstatus : next.status with
    | revoked => rfl
    | _ => exact absurd (hstatus ▸ hrank) (by decide)
  · intro deadline hdeadline
    split at huntil
    · rw [ensure_ok.mp huntil]
      exact hdeadline
    · exact ensure_ok.mp huntil deadline hdeadline

theorem validateTrustPolicyTransition_ok
    (h : validateTrustPolicyTransition C current successor = .ok ()) :
    Evolves C current successor := by
  simp only [validateTrustPolicyTransition, bind_ok, mapError_ok, ensure_ok] at h
  obtain ⟨⟨⟩, hcurrent, ⟨⟩, hsuccessor, -, hissued, ⟨⟩, hkeys, -⟩ := h
  have hcheck := forM_ok_iff.mp hkeys
  refine ⟨⟨hcurrent, hsuccessor⟩, hissued, fun key hkey hnone => ?_, fun key hkey next hnext => ?_⟩
  · have hremoval := hcheck key hkey
    rw [hnone] at hremoval
    cases hstatus : key.status with
    | retired => rfl
    | _ => simp [validateRemoval, hstatus] at hremoval
  · have hevolution := hcheck key hkey
    rw [hnext] at hevolution
    exact validateEvolution_ok hevolution

def TrustPolicy.Revokes (pol : TrustPolicy) (id : String) : Prop :=
  ∃ key ∈ pol.keys, key.keyId = id ∧ key.status = .revoked

theorem Evolves.revokes (h : Evolves C current successor)
    (hrevokes : current.Revokes id) : successor.Revokes id := by
  obtain ⟨key, hkey, rfl, hstatus⟩ := hrevokes
  cases hfind : successor.find? key.keyId with
  | none => exact absurd (hstatus ▸ h.removed key hkey hfind) (by decide)
  | some next =>
    obtain ⟨hmem, hid⟩ := mem_of_find? hfind
    exact ⟨next, hmem, hid, (h.kept key hkey next hfind).1 hstatus⟩

def TrustPolicy.Bounds (pol : TrustPolicy) (id : String) (deadline : ℕ) : Prop :=
  ∀ key ∈ pol.find? id, key.status = .revoked ∨ ∃ last ∈ key.validUntilUnix, last ≤ deadline

instance (id : String) (deadline : ℕ) : Decidable (pol.Bounds id deadline) :=
  inferInstanceAs (Decidable (∀ _ ∈ _, _))

theorem Evolves.bounds {deadline : ℕ} (h : Evolves C current successor)
    (hbounds : current.Bounds id deadline)
    (hremoved : current.find? id = none → successor.Bounds id deadline) :
    successor.Bounds id deadline := by
  cases hfind : current.find? id with
  | none => exact hremoved hfind
  | some key =>
    intro next hnext
    obtain ⟨hmem, rfl⟩ := mem_of_find? hfind
    obtain ⟨hrevoked, hdeadline⟩ := h.kept key hmem next hnext
    rcases hbounds key hfind with hstatus | ⟨last, huntil, hle⟩
    · exact .inl (hrevoked hstatus)
    · exact .inr ⟨last, hdeadline last huntil, hle⟩

def Chain (C : Crypto) (P : ℕ → TrustPolicy) (n : ℕ) : Prop :=
  ∀ i < n, validateTrustPolicyTransition C (P i) (P (i + 1)) = .ok ()

/-- A step that lists again a key that an earlier policy has retired and the one before does not
list keeps its deadline. -/
def KeepsRemoved (P : ℕ → TrustPolicy) (n : ℕ) : Prop :=
  ∀ j < n, ∀ i ≤ j, ∀ key ∈ (P i).keys, key.status = .retired → ∀ deadline ∈ key.validUntilUnix,
    (P j).find? key.keyId = none → (P (j + 1)).Bounds key.keyId deadline

section Chain

variable {P : ℕ → TrustPolicy} {n i j : ℕ}

theorem Chain.evolves (h : Chain C P n) (hi : i < n) : Evolves C (P i) (P (i + 1)) :=
  validateTrustPolicyTransition_ok (h i hi)

theorem Chain.issued (h : Chain C P n) (hij : i < j) (hj : j ≤ n) :
    (P i).issuedAtUnix < (P j).issuedAtUnix := by
  induction j, hij using le_induction with
  | base => exact (h.evolves hj).issued
  | succ _ _ ih => exact (ih (by omega)).trans (h.evolves hj).issued

theorem Chain.revokes (h : Chain C P n) (hrevokes : (P i).Revokes id) (hij : i ≤ j)
    (hj : j ≤ n) : (P j).Revokes id := by
  induction j, hij using le_induction with
  | base => exact hrevokes
  | succ _ _ ih => exact (h.evolves hj).revokes (ih (by omega))

theorem Chain.bounds (h : Chain C P n) (hremoved : KeepsRemoved P n) (hkey : key ∈ (P i).keys)
    (hstatus : key.status = .retired) {deadline : ℕ} (huntil : key.validUntilUnix = some deadline)
    (hbounds : (P i).Bounds key.keyId deadline) (hij : i ≤ j) (hj : j ≤ n) :
    (P j).Bounds key.keyId deadline := by
  induction j, hij using le_induction with
  | base => exact hbounds
  | succ j hij ih =>
    exact (h.evolves hj).bounds (ih (by omega)) (hremoved j hj i hij key hkey hstatus _ huntil)

end Chain

/-- Along a chain of accepted policies the issue times increase, a revoked key stays revoked and
is never trusted again, and a retired key is not trusted after its deadline unless a policy
lists it again after its removal, with a later one. -/
theorem trust_moves_forward (C : Crypto) (P : ℕ → TrustPolicy) (n : ℕ) (hchain : Chain C P n) :
    (∀ i j, i < j → j ≤ n → (P i).issuedAtUnix < (P j).issuedAtUnix) ∧
    (∀ i j, i ≤ j → j ≤ n → ∀ key ∈ (P i).keys, key.status = .revoked →
      (∃ next ∈ (P j).keys, next.keyId = key.keyId ∧ next.status = .revoked) ∧
      ∀ id issued now k, trustedReleaseKey C (P j) id issued now = .ok k → k.keyId ≠ key.keyId) ∧
    (KeepsRemoved P n → ∀ i j, i ≤ j → j ≤ n → ∀ key ∈ (P i).keys, key.status = .retired →
      ∀ deadline, key.validUntilUnix = some deadline →
      ∀ id issued now k, trustedReleaseKey C (P j) id issued now = .ok k →
        k.keyId = key.keyId → now ≤ deadline) := by
  refine ⟨fun i j => hchain.issued, fun i j hij hj key hkey hrevoked => ?_,
    fun hremoved i j hij hj key hkey hretired deadline huntil id issued now k hk hid => ?_⟩
  · obtain ⟨next, hnext, hid, hstatus⟩ := hchain.revokes ⟨key, hkey, rfl, hrevoked⟩ hij hj
    refine ⟨⟨next, hnext, hid, hstatus⟩, fun id issued now k hk hsame => ?_⟩
    obtain ⟨hvalid, hfind, hne, -⟩ := trustedReleaseKey_ok hk
    have hunique := find?_of_mem hvalid hnext
    rw [hid, ← hsame, find?_of_mem hvalid (mem_of_find? hfind).1] at hunique
    obtain rfl := some.inj hunique
    exact hne hstatus
  obtain ⟨hvalid, hfind, hne, -, hnow⟩ := trustedReleaseKey_ok hk
  have hstart : validateTrustPolicy C (P i) = .ok () := by
    rcases lt_or_eq_of_le hij with _ | rfl
    · exact (hchain.evolves (by omega)).valid.1
    · exact hvalid
  have hbounds : (P i).Bounds key.keyId deadline := by
    intro k' hk'
    rw [find?_of_mem hstart hkey] at hk'
    obtain rfl := some.inj hk'
    exact .inr ⟨deadline, huntil, le_rfl⟩
  rw [← (mem_of_find? hfind).2, hid] at hfind
  rcases hchain.bounds hremoved hkey hretired huntil hbounds hij hj k hfind with
    hstatus | ⟨last, hlast, hle⟩
  · exact absurd hstatus hne
  · exact (hnow last hlast).trans hle

/-- SHA-256 of the public keys of these examples. -/
def exampleCrypto : Crypto where
  sha256 bytes :=
    if bytes = List.replicate 32 0 then
      "66687aadf862bd776c8fc18b8e9f8e20089714856ee233b3902a591d0d5f2925"
    else if bytes = List.replicate 32 1 then
      "72cd6e8422c407fb6d098690f1130b7ded7ec2f7f5e1d30bd9d521f015363793"
    else ""
  validKey _ := true
  verifyStrict _ _ _ := false

def firstKey (status : ReleaseKeyStatus) (validUntilUnix : Option ℕ) : TrustedReleaseKey :=
  ⟨"66687aadf862bd776c8fc18b8e9f8e20089714856ee233b3902a591d0d5f2925", "ed25519",
    "0000000000000000000000000000000000000000000000000000000000000000", status, 0, validUntilUnix⟩

def secondKey : TrustedReleaseKey :=
  ⟨"72cd6e8422c407fb6d098690f1130b7ded7ec2f7f5e1d30bd9d521f015363793", "ed25519",
    "0101010101010101010101010101010101010101010101010101010101010101", .active, 0, none⟩

/-- The first key is retired, removed and listed again. -/
def relisting : ℕ → TrustPolicy
  | 0 => ⟨1, 100, 1000, [firstKey .active none, secondKey]⟩
  | 1 => ⟨1, 200, 1000, [firstKey .retired (some 250), secondKey]⟩
  | 2 => ⟨1, 300, 1000, [secondKey]⟩
  | _ => ⟨1, 400, 1000, [firstKey .active none, secondKey]⟩

theorem trust_moves_forward_removal : Chain exampleCrypto relisting 2 ∧ KeepsRemoved relisting 2 ∧
      trustedReleaseKey exampleCrypto (relisting 1) (firstKey .retired (some 250)).keyId 200 900 ≠
        .ok (firstKey .retired (some 250)) := by
  have hchain : Chain exampleCrypto relisting 2 := by unfold Chain; decide +kernel
  have hremoved : KeepsRemoved relisting 2 := by unfold KeepsRemoved; decide +kernel
  refine ⟨hchain, hremoved, fun h => ?_⟩
  have := (trust_moves_forward exampleCrypto relisting 2 hchain).2.2 hremoved 1 1 le_rfl
    (by decide) (firstKey .retired (some 250)) (by decide) rfl 250 rfl _ 200 900 _ h rfl
  omega

theorem relisted_key_trusted_after_deadline :
    Chain exampleCrypto relisting 3 ∧ firstKey .retired (some 250) ∈ (relisting 1).keys ∧
      trustedReleaseKey exampleCrypto (relisting 3) (firstKey .retired (some 250)).keyId 400 400 =
        .ok (firstKey .active none) := by
  unfold Chain
  decide +kernel

end Tysel.Release
