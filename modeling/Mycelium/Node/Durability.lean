import Mycelium.Core.Recovery
import Mycelium.Node.Secrets

/-!
# Mycelium node — when the identity survives

A vault treats a secret that it cannot open as corrupt and removes it. So the identity is lost to
a call that opens the vault under a key from which the key the identity is stored under is not
recovered; and a call that does recover it stores it again, under the key of that call. This
module follows the identity from key to key:

* `Recoverable` — a call that finds the identity stored under `c`, and `keyAfter`, the key it is
  stored under after it;
* `identity_dropped` — any other call that opens the vault removes the identity;
* `identity_durable` — a run of calls that each find the identity keeps it, and if opening with
  the first key finds it too, it is returned.

What the keyring answers is left open for every call.
-/

namespace Mycelium

namespace Node

section

variable [Prims]

/-- The identity `kp` is stored under `k`. -/
def HoldsIdentity (k : Bytes32) (kp : Keypair) (d : DataDir) : Prop :=
  d.Sealed k identitySecret kp.secret.toList

variable {k c m : Bytes32} {kp : Keypair} {d : DataDir} {storageKey : Option Bytes32}

/-- A change that keeps the stored identity. -/
theorem HoldsIdentity.congr {d' : DataDir} (h : HoldsIdentity c kp d)
    (hid : d'.secrets.lookup identitySecret = d.secrets.lookup identitySecret) :
    HoldsIdentity c kp d' := by
  obtain ⟨nonce, hstored⟩ := h
  exact ⟨nonce, hid.trans hstored⟩

variable [Entropy] [Keyring]

/-! ## What the other secrets do to it -/

omit [Keyring] in
theorem kept_writeOther {E : Prop} (v : SecretVault) {name : String} (hname : name ≠ identitySecret)
    (plaintext : Bytes) : Keeps (HoldsIdentity c kp) E (v.writeSecret name plaintext) :=
  Keeps.modify fun _ hd => hd.congr (AList.lookup_insert_ne hname.symm)

omit [Entropy] [Keyring] in
theorem kept_deleteOther {E : Prop} (v : SecretVault) {name : String}
    (hname : name ≠ identitySecret) : Keeps (HoldsIdentity c kp) E (v.deleteSecret name) :=
  Keeps.modify fun _ hd => hd.congr (AList.lookup_erase_ne hname.symm)

theorem kept_readOther {E : Prop} (v : SecretVault) {name : String}
    (hname : name ≠ identitySecret) : Keeps (HoldsIdentity c kp) E (v.readSecret name) := by
  refine Keeps.get_bind fun d _ => ?_
  split
  · exact Keeps.pure
  · split
    · exact Keeps.pure
    · -- asking the keyring for the alternates changes no secret
      refine Keeps.bind (Keeps.modifyGet fun _ hd => hd.congr rfl) fun candidates => ?_
      split
      · exact Keeps.bind (kept_writeOther v hname _) fun _ => Keeps.pure
      · exact Keeps.pure

omit [Keyring] in
theorem kept_createEncKeypair (v : SecretVault) :
    Keeps (HoldsIdentity c kp) True (createEncKeypair v) := by
  have hname : encSecret ≠ identitySecret := by decide
  refine Keeps.get_bind fun d _ => ?_
  split
  · refine Keeps.bind (kept_writeOther v hname _) fun _ => ?_
    refine Keeps.bind (Keeps.modify fun _ hd => hd.congr rfl) fun _ => ?_
    unfold encFromSecretBytes
    split
    · exact Keeps.pure
    · exact Keeps.throw trivial
  · refine Keeps.bind (Keeps.modifyGet fun _ hd => hd.congr rfl) fun _ => ?_
    exact Keeps.bind (kept_writeOther v hname _) fun _ => Keeps.pure

/-! ## What a call does to it -/

/-- A call finds the identity stored under `c`: if it opens the vault, then under `c`, or with `c`
among the alternate keys at the time the identity is read. -/
def Recoverable (c : Bytes32) (d : DataDir) (call : SecretCall) : Prop :=
  ∀ storageKey m, call.storageKey = some storageKey → d.masterKeyFor storageKey = some m →
    c = m ∨ c ∈ (d.identityRead storageKey m).alternates

/-- The key that the identity is stored under after such a call: the master key, if the call
opened the vault. -/
def keyAfter (c : Bytes32) (d : DataDir) (call : SecretCall) : Bytes32 :=
  (call.storageKey.bind d.masterKeyFor).getD c

/-- **A call that does not find it loses it**: opening the vault removes an identity that is
stored under a key which is neither the master key nor an alternate. -/
theorem identity_dropped (haead : Prims.AeadLaws) (hd : HoldsIdentity c kp d)
    (hm : d.masterKeyFor storageKey = some m) (hne : c ≠ m)
    (hc : c ∉ (d.identityRead storageKey m).alternates) :
    ∃ d', SecretVault.openWithMigration storageKey d = .ok ⟨m⟩ d'
      ∧ d'.secrets.lookup identitySecret = none := by
  obtain ⟨d', hopen, hopened⟩ := SecretVault.openWithMigration_run haead hm
  refine ⟨d', hopen, hopened.absent (DataDir.Unreadable.recovered fun blob hblob key hkey => ?_)⟩
  -- a key that opens the blob made it
  obtain ⟨nonce, hstored⟩ := hd
  obtain rfl := Option.some.inj (hstored.symm.trans hblob)
  have hother : key ≠ c := by
    rintro rfl
    rcases List.mem_cons.mp hkey with heq | hmem
    · exact hne heq
    · exact hc hmem
  rw [decryptAtRest_other haead hother]
  rfl

/-- **Loading an identity that is found returns it**, and leaves it under the master key. -/
theorem loadOrCreateKeypair_found (haead : Prims.AeadLaws) (hd : HoldsIdentity c kp d)
    (hm : d.masterKeyFor storageKey = some m)
    (hc : c = m ∨ c ∈ (d.identityRead storageKey m).alternates) :
    ∃ d', loadOrCreateKeypair storageKey d = .ok kp d' ∧ HoldsIdentity m kp d' := by
  obtain ⟨d', hopen, hopened⟩ := SecretVault.openWithMigration_run haead hm
  have hsealed : HoldsIdentity m kp d' := hopened.sealed c _ hd hc
  refine ⟨d', ?_, hsealed⟩
  unfold loadOrCreateKeypair
  rw [run_bind_of_ok hopen,
    run_bind_of_ok (SecretVault.readSecret_of_opens (v := ⟨m⟩) (hsealed.opens haead))]
  simp only [keypairFromEd25519Secret, toBytes32_toList]
  rfl

/-- One call. -/
theorem HoldsIdentity.after (haead : Prims.AeadLaws) (hd : HoldsIdentity c kp d)
    {call : SecretCall} (hcall : Recoverable c d call) :
    HoldsIdentity (keyAfter c d call) kp (d.after call) := by
  have hname : encSecret ≠ identitySecret := by decide
  -- loading the identity: the vault is opened and the identity found, or there is no key
  have hload : ∀ storageKey,
      (∀ m, d.masterKeyFor storageKey = some m →
        c = m ∨ c ∈ (d.identityRead storageKey m).alternates) →
      HoldsIdentity ((d.masterKeyFor storageKey).getD c) kp
        (finalState (loadOrCreateKeypair storageKey d)) := by
    intro storageKey hc
    cases hm : d.masterKeyFor storageKey with
    | some m =>
      obtain ⟨d', hrun, hd'⟩ := loadOrCreateKeypair_found haead hd hm (hc m hm)
      rw [hrun]
      exact hd'
    | none =>
      obtain ⟨e, hfail⟩ := SecretVault.openWithMigration_fails hm
      unfold loadOrCreateKeypair
      rw [run_bind_of_error hfail]
      exact hd
  unfold DataDir.after keyAfter
  cases call with
  | openWithMigration storageKey =>
    show HoldsIdentity ((d.masterKeyFor storageKey).getD c) kp _
    refine (finalState_discard (SecretVault.openWithMigration storageKey) d).symm ▸ ?_
    cases hm : d.masterKeyFor storageKey with
    | some m =>
      obtain ⟨d', hopen, hopened⟩ := SecretVault.openWithMigration_run haead hm
      rw [hopen]
      exact hopened.sealed c _ hd (hcall storageKey m rfl hm)
    | none =>
      obtain ⟨e, hfail⟩ := SecretVault.openWithMigration_fails hm
      rw [hfail]
      exact hd
  | loadOrCreateKeypair storageKey =>
    exact (finalState_discard (loadOrCreateKeypair storageKey) d).symm ▸
      hload storageKey fun m => hcall storageKey m rfl
  | loadOrCreateEncKeypair storageKey =>
    show HoldsIdentity ((d.masterKeyFor storageKey).getD c) kp _
    refine (finalState_discard (loadOrCreateEncKeypair storageKey) d).symm ▸ ?_
    unfold loadOrCreateEncKeypair
    cases hm : d.masterKeyFor storageKey with
    | some m =>
      obtain ⟨d', hopen, hopened⟩ := SecretVault.openWithMigration_run haead hm
      rw [run_bind_of_ok hopen]
      -- the rest is about the encryption key
      refine Keeps.finalState (E := True) (Keeps.bind (kept_readOther ⟨m⟩ hname) fun r => ?_)
        (hopened.sealed c _ hd (hcall storageKey m rfl hm))
      split
      · unfold encFromSecretBytes
        split
        · exact Keeps.pure
        · exact Keeps.throw trivial
      · exact kept_createEncKeypair _
      · exact Keeps.bind (kept_deleteOther _ hname) fun _ => kept_createEncKeypair _
    | none =>
      obtain ⟨e, hfail⟩ := SecretVault.openWithMigration_fails hm
      rw [run_bind_of_error hfail]
      exact hd
  | submitTransferFromIdentityPath =>
    exact (finalState_discard (loadOrCreateKeypair none) d).symm ▸
      hload none fun m => hcall none m rfl
  | maybeRefill needed =>
    cases needed with
    | true =>
      exact (finalState_discard (loadOrCreateKeypair none) d).symm ▸
        hload none fun m => hcall none m rfl
    | false => exact hd

/-! ## Runs -/

/-- Each call of a run finds the identity, which is stored under `c` before the run. -/
def AllRecoverable (c : Bytes32) (d : DataDir) : List SecretCall → Prop
  | [] => True
  | call :: calls => Recoverable c d call
    ∧ AllRecoverable (keyAfter c d call) (d.after call) calls

/-- **The identity survives the calls that find it.** Whatever sequence of calls is made on a data
directory that holds the identity under `k`, and whatever the keyring answers, if each of them
finds the identity under the key it is stored under by then, the last one of loading with `k`
included, then it stays stored, and loading with `k` returns it. -/
theorem identity_durable (haead : Prims.AeadLaws) (hd : HoldsIdentity k kp d)
    (calls : List SecretCall)
    (hcalls : AllRecoverable k d (calls ++ [.loadOrCreateKeypair (some k)])) :
    (∃ c, HoldsIdentity c kp (d.afterAll calls))
      ∧ ∃ d', loadOrCreateKeypair (some k) (d.afterAll calls) = .ok kp d' := by
  -- induction on the calls: the identity is under `c` now, and `k` is the key of the last call
  suffices hrun : ∀ (c : Bytes32) (d : DataDir), HoldsIdentity c kp d →
      AllRecoverable c d (calls ++ [.loadOrCreateKeypair (some k)]) →
      (∃ c, HoldsIdentity c kp (d.afterAll calls))
        ∧ ∃ d', loadOrCreateKeypair (some k) (d.afterAll calls) = .ok kp d' from
    hrun k d hd hcalls
  clear hd hcalls
  induction calls with
  | nil =>
    intro c d hd hcalls
    obtain ⟨d', hrun, -⟩ := loadOrCreateKeypair_found haead hd rfl (hcalls.1 (some k) k rfl rfl)
    exact ⟨⟨c, hd⟩, d', hrun⟩
  | cons call calls ih =>
    intro c d hd hcalls
    exact ih _ _ (hd.after haead hcalls.1) hcalls.2

end

section

attribute [local instance] symbolicPrims emptyKeyring

/-- Draws that never repeat themselves in the runs below. -/
@[reducible] def symbolicEntropy : Entropy where
  nonce n := Vector.replicate 12 (UInt8.ofNat n)
  generateKeypair n := symbolicKey (UInt8.ofNat (100 + n))
  generateEncKeypair n := ⟨Vector.replicate 32 (UInt8.ofNat (100 + n))⟩
  masterKey n := Vector.replicate 32 (UInt8.ofNat (200 + n))

attribute [local instance] symbolicEntropy

/-- The storage key of the data directories below. -/
def storageKey7 : Bytes32 := Vector.replicate 32 7

/-- A directory that holds the identity 1 under a key. -/
def symbolicDir (key : Bytes32) : DataDir where
  dbPath := "db"
  secrets := (∅ : KvTree.Of String Bytes).insert identitySecret
    (encryptAtRest key (Vector.replicate 12 0) (symbolicKey 1).secret.toList)

/-- The same, with a fallback file for `storageKey7`. -/
def fallbackDir (key : Bytes32) : DataDir :=
  { symbolicDir key with fallbackFile := some storageKey7.toList }

/-- An identity under the key derived from the path moves under the key of the fallback file, and
is found there. -/
theorem identity_durable_fallback :
    (∃ c, HoldsIdentity c (symbolicKey 1)
      ((fallbackDir (legacyDeriveFallbackMaster "db")).afterAll
        [.loadOrCreateKeypair (some storageKey7), .maybeRefill false]))
      ∧ ∃ d', loadOrCreateKeypair (some (legacyDeriveFallbackMaster "db"))
        ((fallbackDir (legacyDeriveFallbackMaster "db")).afterAll
          [.loadOrCreateKeypair (some storageKey7), .maybeRefill false])
        = .ok (symbolicKey 1) d' := by
  refine identity_durable symbolicPrims_aeadLaws ⟨Vector.replicate 12 0, AList.lookup_insert _⟩ _
    ⟨?_, ?_, ?_, trivial⟩
  · intro storageKey m hkey hm
    obtain rfl := Option.some.inj hkey
    obtain rfl := Option.some.inj hm
    exact .inr (by decide +kernel)
  · intro storageKey m hkey
    cases hkey
  · intro storageKey m hkey hm
    obtain rfl := Option.some.inj hkey
    obtain rfl := Option.some.inj hm
    exact .inr (by decide +kernel)

/-- Without an entry in the keyring, one transfer loses the identity for good. -/
theorem identity_lost_to_transfer :
    HoldsIdentity storageKey7 (symbolicKey 1) (symbolicDir storageKey7)
    ∧ ∃ kp d', loadOrCreateKeypair (some storageKey7)
        ((symbolicDir storageKey7).afterAll [.submitTransferFromIdentityPath]) = .ok kp d'
      ∧ kp ≠ symbolicKey 1 := by
  refine ⟨⟨Vector.replicate 12 0, AList.lookup_insert _⟩, ?_⟩
  have hother : (match loadOrCreateKeypair (some storageKey7)
      ((symbolicDir storageKey7).afterAll [.submitTransferFromIdentityPath]) with
    | .ok kp _ => decide (kp ≠ symbolicKey 1)
    | .error _ _ => false) = true := by
    decide +kernel
  split at hother
  · next kp d' hres => exact ⟨kp, d', hres, of_decide_eq_true hother⟩
  · exact absurd hother (by decide)

end

end Node

end Mycelium
