import Mycelium.Core.Recovery
import Mycelium.Node.Secrets

/-!
# Mycelium node — loading the identity again

`load_or_create_keypair` with a storage key: whatever it finds in the data directory, once it has
returned an identity, that identity is stored under the key (`Opens`), and every later call finds
it there.

* `loadOrCreateKeypair_opens` — the identity that is returned is stored under the key;
* `identity_loading_stable` — so it is returned again, any number of times.
-/

namespace Mycelium.Node

open SecretVault

section

variable {d d' : DataDir} {kp : Keypair}

theorem toList_of_toBytes32 {bytes : Bytes} {v : Bytes32} (h : toBytes32 bytes = some v) :
    v.toList = bytes := by
  unfold toBytes32 at h
  split at h
  · obtain rfl := Option.some.inj h
    rfl
  · cases h

theorem keypairFromEd25519Secret_ok {secret : Bytes}
    (h : keypairFromEd25519Secret secret d = .ok kp d') : kp.secret.toList = secret ∧ d' = d := by
  unfold keypairFromEd25519Secret at h
  cases hbytes : toBytes32 secret with
  | some bytes =>
    rw [hbytes] at h
    cases h
    exact ⟨toList_of_toBytes32 hbytes, rfl⟩
  | none =>
    rw [hbytes] at h
    cases h

theorem keypairFromEd25519Secret_toList (d : DataDir) (kp : Keypair) :
    keypairFromEd25519Secret kp.secret.toList d = .ok kp d := by
  unfold keypairFromEd25519Secret
  rw [toBytes32_toList]
  rfl

variable [Prims] [Entropy] [Keyring]

/-! ## Loading -/

omit [Keyring] in
theorem createKeypair_eq (v : SecretVault) (d : DataDir) :
    createKeypair v d = (match d.legacyIdentity with
      | some legacy => do
        v.writeSecret identitySecret legacy
        modify fun d => { d with legacyIdentity := none }
        keypairFromEd25519Secret legacy
      | none => do
        let keypair ← modifyGet fun d =>
          (Entropy.generateKeypair d.draws, { d with draws := d.draws + 1 })
        v.writeSecret identitySecret keypair.secret.toList
        return keypair : VaultM Keypair) d := rfl

omit [Keyring] in
/-- A new identity is stored under the key; it is the one of an older version, if there is one. -/
theorem createKeypair_opens (haead : Prims.AeadLaws) {v : SecretVault}
    (h : createKeypair v d = .ok kp d') :
    d'.Opens v.master identitySecret kp.secret.toList
      ∧ ∀ legacy, d.legacyIdentity = some legacy →
        kp.secret.toList = legacy ∧ d'.legacyIdentity = none := by
  -- what is sealed under a key opens under it
  have hstored : ∀ (secrets : KvTree.Of String Bytes) (nonce : Vector UInt8 12) (secret : Bytes),
      ∃ blob, (secrets.insert identitySecret (encryptAtRest v.master nonce secret)).lookup
          identitySecret = some blob ∧ decryptAtRest v.master blob = .ok secret :=
    fun _ nonce secret => ⟨_, AList.lookup_insert _, decryptAtRest_encryptAtRest haead _ _ _⟩
  rw [createKeypair_eq] at h
  -- a secret on disk from before is sealed now and its file removed; otherwise one is drawn
  cases hlegacy : d.legacyIdentity with
  | some legacy =>
    rw [hlegacy] at h
    obtain ⟨hkp, rfl⟩ := keypairFromEd25519Secret_ok (d := { d with
      secrets := d.secrets.insert identitySecret
        (encryptAtRest v.master (Entropy.nonce d.draws) legacy)
      draws := d.draws + 1
      legacyIdentity := none }) h
    refine ⟨hkp ▸ hstored _ _ _, fun legacy' heq => ?_⟩
    obtain rfl := Option.some.inj heq
    exact ⟨hkp, rfl⟩
  | none =>
    rw [hlegacy] at h
    cases h
    refine ⟨hstored _ _ _, fun legacy heq => ?_⟩
    cases heq

/-- **The identity that is returned is stored under the key**; without a readable one it is that
of an older version, whose record is gone then. -/
theorem loadOrCreateKeypair_opens (haead : Prims.AeadLaws) {key : Bytes32}
    (h : loadOrCreateKeypair (some key) d = .ok kp d') :
    d'.Opens key identitySecret kp.secret.toList
      ∧ ((d.identityRead (some key) key).recovered key identitySecret = none →
        ∀ legacy, d.legacyIdentity = some legacy →
          kp.secret.toList = legacy ∧ d'.legacyIdentity = none) := by
  obtain ⟨d₁, hopen, hopened⟩ :=
    openWithMigration_run haead (show d.masterKeyFor (some key) = some key from rfl)
  unfold loadOrCreateKeypair at h
  rw [run_bind_of_ok hopen] at h
  cases hrecovered : (d.identityRead (some key) key).recovered key identitySecret with
  | some secret =>
    have hstored : d₁.Opens key identitySecret secret := hopened.opens secret hrecovered
    rw [run_bind_of_ok (readSecret_of_opens (v := ⟨key⟩) hstored)] at h
    obtain ⟨hkp, rfl⟩ := keypairFromEd25519Secret_ok h
    refine ⟨hkp ▸ hstored, fun hnone => ?_⟩
    cases hnone
  | none =>
    have habsent : d₁.secrets.lookup identitySecret = none := hopened.absent hrecovered
    rw [run_bind_of_ok (readSecret_of_absent (v := ⟨key⟩) habsent)] at h
    obtain ⟨hstored, hcreated⟩ := createKeypair_opens haead h
    exact ⟨hstored, fun _ legacy hl => hcreated legacy (hopened.legacyIdentity.trans hl)⟩

/-- An identity under the key is returned and stays. -/
theorem loadOrCreateKeypair_of_opens (haead : Prims.AeadLaws) {key : Bytes32}
    (h : d.Opens key identitySecret kp.secret.toList) :
    ∃ d', loadOrCreateKeypair (some key) d = .ok kp d'
      ∧ d'.Opens key identitySecret kp.secret.toList := by
  obtain ⟨d₁, hopen, hopened⟩ :=
    openWithMigration_run haead (show d.masterKeyFor (some key) = some key from rfl)
  have hread : (d.identityRead (some key) key).Opens key identitySecret kp.secret.toList := h
  have hstored : d₁.Opens key identitySecret kp.secret.toList := hopened.opens _ hread.recovered
  refine ⟨d₁, ?_, hstored⟩
  unfold loadOrCreateKeypair
  rw [run_bind_of_ok hopen, run_bind_of_ok (readSecret_of_opens (v := ⟨key⟩) hstored)]
  exact keypairFromEd25519Secret_toList d₁ kp

/-- **Loading the identity is stable.** Whatever is in the data directory, and whatever the
keyring answers, once an identity was returned for a storage key, any number of later calls with
that key return it; and if there was one of an older version, and none that any key opened when
it was read, it is that one and the old record is gone. -/
theorem identity_loading_stable (haead : Prims.AeadLaws) (key : Bytes32)
    (hload : loadOrCreateKeypair (some key) d = .ok kp d') :
    (∀ n, ∃ d'', (List.replicate n (some key)).mapM loadOrCreateKeypair d'
        = .ok (List.replicate n kp) d'')
      ∧ ∀ legacy, d.legacyIdentity = some legacy →
        (d.identityRead (some key) key).Unreadable key identitySecret →
        kp.secret.toList = legacy ∧ d'.legacyIdentity = none := by
  obtain ⟨hstored, hcreated⟩ := loadOrCreateKeypair_opens haead hload
  refine ⟨fun n => ?_, fun legacy hlegacy hunreadable =>
    hcreated hunreadable.recovered legacy hlegacy⟩
  clear hload hcreated
  -- a call leaves what the next one needs
  induction n generalizing d' with
  | zero => exact ⟨d', rfl⟩
  | succ n ih =>
    obtain ⟨d₁, hrun, hstored₁⟩ := loadOrCreateKeypair_of_opens haead hstored
    obtain ⟨d₂, hrest⟩ := ih hstored₁
    refine ⟨d₂, ?_⟩
    rw [List.replicate_succ, List.mapM_cons, run_bind_of_ok hrun, run_bind_of_ok hrest]
    rfl

end

section

attribute [local instance] symbolicPrims zeroEntropy emptyKeyring

/-- A truncated identity, and the one of an older version. -/
def truncatedDir : DataDir where
  dbPath := "db"
  secrets := (∅ : KvTree.Of String Bytes).insert identitySecret [1, 2, 3]
  legacyIdentity := some (symbolicKey 5).secret.toList

theorem identity_loading_stable_legacy :
    ∃ kp d', loadOrCreateKeypair (some (Vector.replicate 32 7)) truncatedDir = .ok kp d'
      ∧ (∃ d'', (List.replicate 3 (some (Vector.replicate 32 7))).mapM loadOrCreateKeypair d'
        = .ok (List.replicate 3 kp) d'')
      ∧ kp.secret.toList = (symbolicKey 5).secret.toList ∧ d'.legacyIdentity = none := by
  have hreturns : succeeded (loadOrCreateKeypair (some (Vector.replicate 32 7)) truncatedDir)
      = true := by
    decide +kernel
  cases hload : loadOrCreateKeypair (some (Vector.replicate 32 7)) truncatedDir with
  | error e d' =>
    rw [hload] at hreturns
    cases hreturns
  | ok kp d' =>
    obtain ⟨hagain, hlegacy⟩ :=
      identity_loading_stable symbolicPrims_aeadLaws (Vector.replicate 32 7) hload
    refine ⟨kp, d', rfl, hagain 3, hlegacy _ rfl fun blob hblob => ?_⟩
    obtain rfl := Option.some.inj hblob
    decide +kernel

end

end Mycelium.Node
