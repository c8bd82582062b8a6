import Mycelium.Core.AtRest
import Mycelium.Core.Symbolic

/-!
# Mycelium core — recovering secrets

What `read_secret` does to the secrets of a data directory. A blob that the master key does not
open is tried with the alternate keys; when one opens it, it is written again under the master
key.

* `DataDir.recovered` — the plaintext that a secret is read as, if any key opens it;
* `readSecret_cases` — everything `read_secret` can do, one call of the keyring included;
* `DataDir.identityRead` — where the keyring stands when opening the vault comes to the identity;
* `vault_migrates` — a blob under any of the keys is returned and moved under the master key, and
  one that no key opens is left alone.
-/

namespace Mycelium

section

variable [Prims] [Entropy] [Keyring]

/-! ## The keys that are tried -/

omit [Entropy] [Keyring] in
/-- Among the candidates, the key that made the blob is the only one that opens it. Induction
on the candidates. -/
theorem recoverWith_of_mem (haead : Prims.AeadLaws) {master c : Bytes32} {nonce : Vector UInt8 12}
    {plaintext : Bytes} {candidates : List Bytes32} (hmem : c ∈ candidates) (hne : c ≠ master) :
    recoverWith master (encryptAtRest c nonce plaintext) candidates = some plaintext := by
  unfold recoverWith
  induction candidates with
  | nil => exact absurd hmem (by simp)
  | cons alt rest ih =>
    rw [List.findSome?_cons]
    by_cases halt : alt = c
    · rw [halt, if_neg hne, decryptAtRest_encryptAtRest haead]
      rfl
    · have hnone : (if alt = master then none
          else (decryptAtRest alt (encryptAtRest c nonce plaintext)).toOption) = none := by
        rw [decryptAtRest_other haead halt]
        split <;> rfl
      rw [hnone]
      rcases List.mem_cons.mp hmem with heq | hrest
      · exact absurd heq.symm halt
      · exact ih hrest

/-- What a secret is read as. -/
def DataDir.recovered (d : DataDir) (master : Bytes32) (name : String) : Option Bytes := do
  let blob ← d.secrets.lookup name
  match decryptAtRest master blob with
  | .ok plaintext => some plaintext
  | .error _ => recoverWith master blob d.alternates

/-- No key opens the secret. -/
def DataDir.Unreadable (d : DataDir) (master : Bytes32) (name : String) : Prop :=
  ∀ blob, d.secrets.lookup name = some blob →
    ∀ key ∈ master :: d.alternates, (decryptAtRest key blob).toOption = none

/-- The master key does not open the secret, so that reading it asks the keyring. -/
def DataDir.closed (d : DataDir) (master : Bytes32) (name : String) : Bool :=
  match d.secrets.lookup name with
  | some blob => (decryptAtRest master blob).toOption.isNone
  | none => false

/-- The directory that opening the vault reads the identity from, as to its keyring: the keyring
was asked for a master key, unless there was a storage key, and once for each encryption key that
the master key does not open. -/
def DataDir.identityRead (d : DataDir) (storageKey : Option Bytes32) (master : Bytes32) : DataDir :=
  d.askKeyring (storageKey.elim 1 (fun _ => 0)
    + (d.closed master "enc_x25519").toNat + (d.closed master "enc_keypair").toNat)

/-- The master key opens the secret. -/
def DataDir.Opens (d : DataDir) (master : Bytes32) (name : String) (plaintext : Bytes) : Prop :=
  ∃ blob, d.secrets.lookup name = some blob ∧ decryptAtRest master blob = .ok plaintext

/-- The secret was encrypted under the key. -/
def DataDir.Sealed (d : DataDir) (key : Bytes32) (name : String) (plaintext : Bytes) : Prop :=
  ∃ nonce, d.secrets.lookup name = some (encryptAtRest key nonce plaintext)

variable {d : DataDir} {master : Bytes32} {name : String} {plaintext : Bytes}

/-- What opens under the key is found. -/
theorem DataDir.Opens.recovered (h : d.Opens master name plaintext) :
    d.recovered master name = some plaintext := by
  obtain ⟨blob, hblob, hopen⟩ := h
  unfold DataDir.recovered
  rw [hblob]
  simp [hopen]

/-- What no key opens is not. -/
theorem DataDir.Unreadable.recovered (h : d.Unreadable master name) :
    d.recovered master name = none := by
  unfold DataDir.recovered
  cases hblob : d.secrets.lookup name with
  | none => rfl
  | some blob =>
    have hclosed := h blob hblob
    cases hmaster : decryptAtRest master blob with
    | ok plaintext =>
      have hnone := hclosed master List.mem_cons_self
      rw [hmaster] at hnone
      cases hnone
    | error e =>
      simp only [Option.bind_eq_bind, Option.bind_some, hmaster]
      refine List.findSome?_eq_none_iff.mpr fun alt halt => ?_
      split
      · rfl
      · exact hclosed alt (List.mem_cons_of_mem _ halt)

omit [Entropy] [Keyring] in
/-- What is sealed under a key opens under it. -/
theorem DataDir.Sealed.opens (haead : Prims.AeadLaws) {key : Bytes32}
    (h : d.Sealed key name plaintext) : d.Opens key name plaintext := by
  obtain ⟨nonce, hblob⟩ := h
  exact ⟨_, hblob, decryptAtRest_encryptAtRest haead _ _ _⟩

omit [Entropy] [Keyring] in
/-- Only the key that made a blob opens it. -/
theorem DataDir.Sealed.eq_of_opens (haead : Prims.AeadLaws) {key : Bytes32} {plaintext' : Bytes}
    (hsealed : d.Sealed key name plaintext) (hopens : d.Opens master name plaintext') :
    key = master := by
  obtain ⟨nonce, hblob⟩ := hsealed
  obtain ⟨blob, hblob', hopen⟩ := hopens
  obtain rfl := Option.some.inj (hblob.symm.trans hblob')
  by_contra hne
  rw [decryptAtRest_other haead (Ne.symm hne)] at hopen
  cases hopen

/-- A blob under the master key or an alternate one is read back. -/
theorem DataDir.recovered_of_encrypted (haead : Prims.AeadLaws) {key : Bytes32}
    {nonce : Vector UInt8 12} (hkey : key = master ∨ key ∈ d.alternates)
    (hblob : d.secrets.lookup name = some (encryptAtRest key nonce plaintext)) :
    d.recovered master name = some plaintext := by
  by_cases hmaster : key = master
  · exact DataDir.Opens.recovered
      ⟨_, hblob, hmaster ▸ decryptAtRest_encryptAtRest haead key nonce plaintext⟩
  · unfold DataDir.recovered
    rw [hblob]
    simp only [Option.bind_eq_bind, Option.bind_some, decryptAtRest_other haead (Ne.symm hmaster)]
    exact recoverWith_of_mem haead (hkey.resolve_left hmaster) hmaster

/-! ## Reading -/

namespace SecretVault

/-- Reading a secret: under the key, or by recovery. -/
theorem readSecret_eq (v : SecretVault) (d : DataDir) (name : String) :
    v.readSecret name d = (match d.secrets.lookup name with
      | none => pure (.ok none)
      | some blob =>
        match decryptAtRest v.master blob with
        | .ok plaintext => pure (.ok (some plaintext))
        | .error e => v.recoverSecret name blob e : VaultM (Except String (Option Bytes))) d := rfl

/-- Recovery tries the other keys, and seals what it finds anew. -/
theorem recoverSecret_eq (v : SecretVault) (d : DataDir) (name : String) (blob : Bytes) (e : String) :
    v.recoverSecret name blob e d = (match recoverWith v.master blob d.alternates with
      | some plaintext => do
        v.writeSecret name plaintext
        return .ok (some plaintext)
      | none => return .error ("decrypt " ++ name ++ ": " ++ e) :
      VaultM (Except String (Option Bytes))) (d.askKeyring 1) := rfl

/-- **What `read_secret` can do**: find nothing; return what the master key opens; return what an
alternate key opens, and write it again; or fail. The keyring is asked in the last two cases. -/
theorem readSecret_cases (v : SecretVault) (d : DataDir) (name : String) :
    (d.secrets.lookup name = none ∧ v.readSecret name d = .ok (.ok none) d)
    ∨ (∃ plaintext, d.Opens v.master name plaintext
      ∧ v.readSecret name d = .ok (.ok (some plaintext)) d)
    ∨ (∃ plaintext blob, d.recovered v.master name = some plaintext
      ∧ d.closed v.master name = true
      ∧ blob = encryptAtRest v.master (Entropy.nonce d.draws) plaintext
      ∧ v.readSecret name d = .ok (.ok (some plaintext))
        { d.askKeyring 1 with secrets := d.secrets.insert name blob, draws := d.draws + 1 })
    ∨ (∃ e, d.recovered v.master name = none ∧ d.closed v.master name = true
      ∧ v.readSecret name d = .ok (.error e) (d.askKeyring 1)) := by
  rw [readSecret_eq]
  unfold DataDir.recovered DataDir.closed
  cases hblob : d.secrets.lookup name with
  | none => exact .inl ⟨rfl, rfl⟩
  | some blob =>
    cases hopen : decryptAtRest v.master blob with
    | ok plaintext => exact .inr (.inl ⟨plaintext, ⟨blob, hblob, hopen⟩, by simp [hopen]; rfl⟩)
    | error e =>
      -- the keyring is asked once, for the alternates
      refine .inr (.inr ?_)
      simp only [Option.bind_eq_bind, Option.bind_some, hopen]
      rw [recoverSecret_eq]
      cases hrecover : recoverWith v.master blob d.alternates with
      | some plaintext => exact .inl ⟨plaintext, _, rfl, rfl, rfl, rfl⟩
      | none => exact .inr ⟨_, rfl, rfl, rfl⟩

/-- **Key migration.** A secret that was encrypted under the master key or any alternate key is
returned by `read_secret`, which leaves it under the master key, where no other key opens it; and
`read_secret` fails on a secret that no key opens, which stays as it is. -/
theorem vault_migrates (haead : Prims.AeadLaws) (v : SecretVault) (d : DataDir) (name : String) :
    (∀ key nonce plaintext, key = v.master ∨ key ∈ d.alternates →
      d.secrets.lookup name = some (encryptAtRest key nonce plaintext) →
      ∃ d' blob, v.readSecret name d = .ok (.ok (some plaintext)) d'
        ∧ d'.secrets.lookup name = some blob ∧ decryptAtRest v.master blob = .ok plaintext
        ∧ ∀ key' ≠ v.master, (decryptAtRest key' blob).toOption = none)
    ∧ ∀ blob, d.secrets.lookup name = some blob →
      (∀ key ∈ v.master :: d.alternates, (decryptAtRest key blob).toOption = none) →
      ∃ e d', v.readSecret name d = .ok (.error e) d' ∧ d'.secrets = d.secrets := by
  have hclosed : ∀ (nonce : Vector UInt8 12) plaintext, ∀ key' ≠ v.master,
      (decryptAtRest key' (encryptAtRest v.master nonce plaintext)).toOption = none := by
    intro nonce plaintext key' hne
    rw [decryptAtRest_other haead hne]
    rfl
  constructor
  · intro key nonce plaintext hkey hblob
    have hrecovered := DataDir.recovered_of_encrypted haead hkey hblob
    rcases v.readSecret_cases d name with
      ⟨hnone, -⟩ | ⟨plaintext', hopens, hrun⟩ | ⟨plaintext', blob, hread, -, rfl, hrun⟩
        | ⟨e, hnone, -⟩
    · rw [hblob] at hnone
      cases hnone
    · -- the master key opens it, so it is the key that made it
      obtain rfl := Option.some.inj (hopens.recovered.symm.trans hrecovered)
      obtain rfl := DataDir.Sealed.eq_of_opens haead ⟨nonce, hblob⟩ hopens
      exact ⟨d, _, hrun, hblob, decryptAtRest_encryptAtRest haead _ _ _, hclosed nonce _⟩
    · -- an alternate key opened it, and it was written again
      obtain rfl := Option.some.inj (hread.symm.trans hrecovered)
      exact ⟨_, _, hrun, AList.lookup_insert _, decryptAtRest_encryptAtRest haead _ _ _,
        hclosed _ _⟩
    · rw [hrecovered] at hnone
      cases hnone
  · intro blob hblob hkeys
    have hnone : d.recovered v.master name = none := by
      refine DataDir.Unreadable.recovered fun blob' hblob' => ?_
      obtain rfl := Option.some.inj (hblob.symm.trans hblob')
      exact hkeys
    rcases v.readSecret_cases d name with
      ⟨habsent, -⟩ | ⟨plaintext, hopens, -⟩ | ⟨plaintext, -, hread, -, -⟩ | ⟨e, -, -, hrun⟩
    · rw [hblob] at habsent
      cases habsent
    · rw [hopens.recovered] at hnone
      cases hnone
    · rw [hread] at hnone
      cases hnone
    · exact ⟨e, _, hrun, rfl⟩

end SecretVault

end

section

attribute [local instance] symbolicPrims

theorem symbolicPrims_aeadLaws : Prims.AeadLaws where
  decrypt_encrypt key nonce plaintext := by
    show (if (key.toList ++ plaintext).take 32 = key.toList
      then some ((key.toList ++ plaintext).drop 32) else none) = some plaintext
    rw [List.take_left' (by simp), if_pos rfl, List.drop_left' (by simp)]
  decrypt_other {key key'} nonce plaintext hne := by
    show (if (key.toList ++ plaintext).take 32 = key'.toList then _ else _) = _
    rw [List.take_left' (by simp), if_neg]
    intro h
    exact hne (Vector.toList_inj.mp h).symm
  tag key nonce plaintext := by
    show plaintext.length + 16 ≤ (key.toList ++ plaintext).length
    rw [List.length_append, Vector.length_toList]
    omega

/-- Draws that are always the same. -/
@[reducible] def zeroEntropy : Entropy where
  nonce _ := Vector.replicate 12 0
  generateKeypair _ := symbolicKey 0
  generateEncKeypair _ := ⟨Vector.replicate 32 0⟩
  masterKey _ := Vector.replicate 32 0

/-- A keyring without a back end: no call finds an entry. -/
@[reducible] def emptyKeyring : Keyring where
  getPassword _ := .noEntry
  setPassword _ := true

attribute [local instance] zeroEntropy emptyKeyring

/-- A directory with a secret of an older version, under the key derived from its path. -/
def legacyDir : DataDir where
  dbPath := "db"
  secrets := (∅ : KvTree.Of String Bytes).insert "enc_x25519"
    (encryptAtRest (legacyDeriveFallbackMaster "db") (Vector.replicate 12 0) [1, 2, 3])

/-- The record of an older version is opened with the key of the path and sealed under the new
one. -/
theorem vault_migrates_legacy :
    ∃ d' blob, (SecretVault.mk (Vector.replicate 32 7)).readSecret "enc_x25519" legacyDir
        = .ok (.ok (some [1, 2, 3])) d'
      ∧ d'.secrets.lookup "enc_x25519" = some blob
      ∧ decryptAtRest (Vector.replicate 32 7) blob = .ok [1, 2, 3] := by
  obtain ⟨d', blob, hrun, hblob, hopen, -⟩ :=
    (SecretVault.vault_migrates symbolicPrims_aeadLaws ⟨Vector.replicate 32 7⟩ legacyDir
      "enc_x25519").1 (legacyDeriveFallbackMaster "db") (Vector.replicate 12 0) [1, 2, 3]
      (.inr (by decide +kernel)) (AList.lookup_insert _)
  exact ⟨d', blob, hrun, hblob, hopen⟩

end

section

variable [Prims] [Entropy] [Keyring]

namespace SecretVault

/-! ## What reading leaves alone -/

/-- The rest of the directory is the same, after `n` calls of the keyring. -/
structure SameBeside (name : String) (n : Nat) (d d' : DataDir) : Prop where
  secrets : ∀ other ≠ name, d'.secrets.lookup other = d.secrets.lookup other
  dbPath : d'.dbPath = d.dbPath
  fallbackFile : d'.fallbackFile = d.fallbackFile
  legacyIdentity : d'.legacyIdentity = d.legacyIdentity
  keyringCalls : d'.keyringCalls = d.keyringCalls + n

omit [Prims] [Entropy] [Keyring] in
/-- Nothing has changed. -/
theorem SameBeside.refl (name : String) (d : DataDir) : SameBeside name 0 d d :=
  ⟨fun _ _ => rfl, rfl, rfl, rfl, rfl⟩

omit [Entropy] [Keyring] in
/-- The other secrets stay closed. -/
theorem SameBeside.closed {name other : String} {n : Nat} {d d' : DataDir}
    (h : SameBeside name n d d') (hother : other ≠ name) (master : Bytes32) :
    d'.closed master other = d.closed master other := by
  unfold DataDir.closed
  rw [h.secrets other hother]

/-- The alternates depend on the keyring, and otherwise on what stays. -/
theorem SameBeside.alternates {name : String} {n : Nat} {d d' : DataDir}
    (h : SameBeside name n d d') : d'.alternates = (d.askKeyring n).alternates := by
  unfold DataDir.alternates DataDir.keyringKey DataDir.fileFallbackKey
  rw [h.dbPath, h.fallbackFile, h.keyringCalls]
  rfl

/-- What the master key opens is read without a change. -/
theorem readSecret_of_opens {v : SecretVault} {d : DataDir} {name : String} {plaintext : Bytes}
    (h : d.Opens v.master name plaintext) :
    v.readSecret name d = .ok (.ok (some plaintext)) d := by
  obtain ⟨blob, hblob, hopen⟩ := h
  rw [readSecret_eq, hblob]
  simp only [hopen]
  rfl

/-- A secret that is not there. -/
theorem readSecret_of_absent {v : SecretVault} {d : DataDir} {name : String}
    (h : d.secrets.lookup name = none) : v.readSecret name d = .ok (.ok none) d := by
  rw [readSecret_eq, h]
  rfl

/-- What `migrate_secret` leaves: the secret under the master key if any key opens it, else
nothing. The keyring is asked if the master key does not open it. -/
structure Migrated (master : Bytes32) (name : String) (d d' : DataDir) : Prop where
  same : SameBeside name (d.closed master name).toNat d d'
  opens : ∀ plaintext, d.recovered master name = some plaintext → d'.Opens master name plaintext
  absent : d.recovered master name = none → d'.secrets.lookup name = none
  sealed : ∀ c plaintext, d.Sealed c name plaintext → c = master ∨ c ∈ d.alternates →
    d'.Sealed master name plaintext

/-- Migration always returns, and what it leaves is stated in `Migrated`. -/
theorem migrateSecret_run (haead : Prims.AeadLaws) (v : SecretVault) (d : DataDir) (name : String) :
    ∃ d', v.migrateSecret name d = .ok () d' ∧ Migrated v.master name d d' := by
  have hclosed : ∀ {plaintext : Bytes}, d.Opens v.master name plaintext →
      d.closed v.master name = false := by
    rintro plaintext ⟨blob, hblob, hopen⟩
    simp [DataDir.closed, hblob, hopen, Except.toOption]
  rcases v.readSecret_cases d name with
    ⟨hnone, hrun⟩ | ⟨plaintext, hopens, hrun⟩ | ⟨plaintext, blob, hread, hshut, rfl, hrun⟩
      | ⟨e, hnone, hshut, hrun⟩
  · have hshut : d.closed v.master name = false := by
      unfold DataDir.closed
      rw [hnone]
    refine ⟨d, run_bind_of_ok hrun, hshut ▸ .refl name d, fun plaintext h => ?_, fun _ => hnone,
      fun c plaintext hsealed => ?_⟩
    · unfold DataDir.recovered at h
      rw [hnone] at h
      cases h
    · obtain ⟨nonce, hblob⟩ := hsealed
      rw [hnone] at hblob
      cases hblob
  · refine ⟨d, run_bind_of_ok hrun, (hclosed hopens) ▸ .refl name d, fun plaintext' h => ?_,
      fun h => ?_, fun c plaintext' hsealed _ => ?_⟩
    · obtain rfl := Option.some.inj (hopens.recovered.symm.trans h)
      exact hopens
    · rw [hopens.recovered] at h
      cases h
    · -- the master key opens it, so it is the key that made it
      exact hsealed.eq_of_opens haead hopens ▸ hsealed
  · refine ⟨_, run_bind_of_ok hrun, hshut ▸ ⟨fun other hother => ?_, rfl, rfl, rfl, rfl⟩,
      fun plaintext' h => ?_, fun h => ?_, fun c plaintext' hsealed hc => ?_⟩
    · exact AList.lookup_insert_ne hother
    · obtain rfl := Option.some.inj (hread.symm.trans h)
      exact ⟨_, AList.lookup_insert _, decryptAtRest_encryptAtRest haead _ _ _⟩
    · rw [hread] at h
      cases h
    · obtain ⟨nonce, hblob⟩ := hsealed
      obtain rfl := Option.some.inj
        (hread.symm.trans (DataDir.recovered_of_encrypted haead hc hblob))
      exact ⟨_, AList.lookup_insert _⟩
  · -- no key opens it, so it is dropped
    refine ⟨{ d.askKeyring 1 with secrets := d.secrets.erase name },
      run_bind_of_ok hrun, hshut ▸ ⟨fun other hother => ?_, rfl, rfl, rfl, rfl⟩,
      fun plaintext h => ?_, fun _ => AList.lookup_erase _ _, fun c plaintext hsealed hc => ?_⟩
    · exact AList.lookup_erase_ne hother
    · rw [h] at hnone
      cases hnone
    · obtain ⟨nonce, hblob⟩ := hsealed
      rw [DataDir.recovered_of_encrypted haead hc hblob] at hnone
      cases hnone

/-! ## Opening the vault -/

omit [Prims] in
/-- The key a vault is opened under; the keyring is asked for it if there is no storage key. -/
theorem resolveMasterKey_run {d : DataDir} {storageKey : Option Bytes32} {m : Bytes32}
    (hm : d.masterKeyFor storageKey = some m) :
    resolveMasterKey storageKey d = .ok m (d.askKeyring (storageKey.elim 1 fun _ => 0)) := by
  unfold DataDir.masterKeyFor at hm
  unfold resolveMasterKey
  cases storageKey with
  | some key =>
    obtain rfl := Option.some.inj hm
    rfl
  | none =>
    have hask : loadMasterFromKeyring d = .ok d.keyringKey (d.askKeyring 1) := rfl
    refine (run_bind_of_ok hask).trans ?_
    cases hring : d.keyringKey with
    | some key =>
      rw [hring] at hm
      obtain rfl := Option.some.inj hm
      rfl
    | none =>
      rw [hring] at hm
      have hfile : (d.askKeyring 1).fileFallbackKey = some m := hm
      show fallbackOrFail (d.askKeyring 1) = _
      refine (run_bind_of_ok run_get).trans ?_
      rw [hfile]
      rfl

omit [Prims] in
/-- Without a key the vault is not opened, and nothing is done but to ask the keyring. -/
theorem resolveMasterKey_fails {d : DataDir} {storageKey : Option Bytes32}
    (hm : d.masterKeyFor storageKey = none) :
    ∃ e, resolveMasterKey storageKey d = .error e (d.askKeyring 1) := by
  unfold DataDir.masterKeyFor at hm
  unfold resolveMasterKey
  cases storageKey with
  | some key => cases hm
  | none =>
    have hask : loadMasterFromKeyring d = .ok d.keyringKey (d.askKeyring 1) := rfl
    cases hring : d.keyringKey with
    | some key =>
      rw [hring] at hm
      cases hm
    | none =>
      rw [hring] at hm hask
      have hfile : (d.askKeyring 1).fileFallbackKey = none := hm
      refine Exists.intro ?_ ((run_bind_of_ok hask).trans ((run_bind_of_ok run_get).trans ?_))
      rotate_left
      rw [hfile]
      rfl

/-- What opening the vault under `m` leaves of the identity: it is under `m` if any key opened it
when it was read, and else it is gone. The record of older versions stays. -/
structure Opened (storageKey : Option Bytes32) (m : Bytes32) (d d' : DataDir) : Prop where
  legacyIdentity : d'.legacyIdentity = d.legacyIdentity
  opens : ∀ secret, (d.identityRead storageKey m).recovered m "ed25519_identity" = some secret →
    d'.Opens m "ed25519_identity" secret
  absent : (d.identityRead storageKey m).recovered m "ed25519_identity" = none →
    d'.secrets.lookup "ed25519_identity" = none
  sealed : ∀ c secret, d.Sealed c "ed25519_identity" secret →
    c = m ∨ c ∈ (d.identityRead storageKey m).alternates → d'.Sealed m "ed25519_identity" secret

/-- **Opening the vault**: the two encryption keys are migrated first, the identity last. -/
theorem openWithMigration_run (haead : Prims.AeadLaws) {d : DataDir}
    {storageKey : Option Bytes32} {m : Bytes32} (hm : d.masterKeyFor storageKey = some m) :
    ∃ d', openWithMigration storageKey d = .ok ⟨m⟩ d' ∧ Opened storageKey m d d' := by
  obtain ⟨d₁, hrun₁, hmig₁⟩ := migrateSecret_run haead ⟨m⟩
    (d.askKeyring (storageKey.elim 1 fun _ => 0)) "enc_x25519"
  obtain ⟨d₂, hrun₂, hmig₂⟩ := migrateSecret_run haead ⟨m⟩ d₁ "enc_keypair"
  obtain ⟨d₃, hrun₃, hmig₃⟩ := migrateSecret_run haead ⟨m⟩ d₂ "ed25519_identity"
  have hlookup : d₂.secrets.lookup "ed25519_identity" = d.secrets.lookup "ed25519_identity" :=
    (hmig₂.same.secrets _ (by decide)).trans (hmig₁.same.secrets _ (by decide))
  -- the keyring was asked as often as `identityRead` counts
  have halternates : d₂.alternates = (d.identityRead storageKey m).alternates := by
    rw [hmig₂.same.alternates]
    unfold DataDir.alternates DataDir.keyringKey DataDir.fileFallbackKey DataDir.identityRead
    simp only [DataDir.askKeyring, hmig₁.same.dbPath, hmig₁.same.fallbackFile,
      hmig₁.same.keyringCalls, hmig₁.same.closed (show "enc_keypair" ≠ "enc_x25519" by decide)]
    rw [Nat.add_assoc, Nat.add_assoc, ← Nat.add_assoc (storageKey.elim 1 fun _ => 0)]
    rfl
  have hrecovered : d₂.recovered m "ed25519_identity"
      = (d.identityRead storageKey m).recovered m "ed25519_identity" := by
    unfold DataDir.recovered
    rw [hlookup, halternates]
    rfl
  refine ⟨d₃, ?_, ?_, fun secret h => hmig₃.opens secret (hrecovered.trans h),
    fun h => hmig₃.absent (hrecovered.trans h), fun c secret hsealed hc =>
      hmig₃.sealed c secret ?_ (halternates ▸ hc)⟩
  · have hopen : openVault storageKey d
        = .ok ⟨m⟩ (d.askKeyring (storageKey.elim 1 fun _ => 0)) :=
      run_bind_of_ok (resolveMasterKey_run hm)
    have hloop : (forM migratedSecrets (SecretVault.migrateSecret ⟨m⟩) : VaultM Unit)
        (d.askKeyring (storageKey.elim 1 fun _ => 0)) = .ok () d₃ := by
      show (forM (m := VaultM) ["enc_x25519", "enc_keypair", "ed25519_identity"] _) _ = _
      rw [List.forM_cons, run_bind_of_ok hrun₁, List.forM_cons, run_bind_of_ok hrun₂,
        List.forM_cons, run_bind_of_ok hrun₃]
      rfl
    exact (run_bind_of_ok hopen).trans (run_bind_of_ok (b := ()) hloop)
  · rw [hmig₃.same.legacyIdentity, hmig₂.same.legacyIdentity, hmig₁.same.legacyIdentity]
    rfl
  · obtain ⟨nonce, hblob⟩ := hsealed
    exact ⟨nonce, hlookup.trans hblob⟩

/-- Without a master key, opening the vault does nothing but to ask the keyring. -/
theorem openWithMigration_fails {d : DataDir} {storageKey : Option Bytes32}
    (hm : d.masterKeyFor storageKey = none) :
    ∃ e, openWithMigration storageKey d = .error e (d.askKeyring 1) := by
  obtain ⟨e, hfail⟩ := resolveMasterKey_fails hm
  exact ⟨e, run_bind_of_error (run_bind_of_error hfail)⟩

end SecretVault

end

end Mycelium
