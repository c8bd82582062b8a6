import Mycelium.Core.AtRest

/-!
# Mycelium node — loading identity and encryption keys

Translation of `mycelium-node/src/secrets.rs`, and of what the callers of it do to a data
directory: `submit_transfer_from_identity_path` and `HotWallet::maybe_refill` of the coin
crate reload the identity without a storage key.
-/

namespace Mycelium.Node

/-- `IDENTITY_SECRET`. -/
def identitySecret : String := "ed25519_identity"

/-- `ENC_SECRET`. -/
def encSecret : String := "enc_x25519"

/-- `keypair_from_ed25519_secret`. -/
def keypairFromEd25519Secret (secret : Bytes) : VaultM Keypair :=
  match toBytes32 secret with
  | some bytes => return ⟨bytes⟩
  | none => throw "invalid ed25519 secret"

/-- `enc_from_secret_bytes`. -/
def encFromSecretBytes (bytes : Bytes) : VaultM EncryptionKeypair :=
  match toBytes32 bytes with
  | some secret => return ⟨secret⟩
  | none => throw "invalid enc key length"

section

variable [Prims] [Entropy] [Keyring]

/-- The end of `load_or_create_keypair`, without a readable identity: import the one of an
older version, or make a new one. -/
def createKeypair (v : SecretVault) : VaultM Keypair := do
  let d ← get
  match d.legacyIdentity with
  | some legacy => do
    v.writeSecret identitySecret legacy
    modify fun d => { d with legacyIdentity := none }
    keypairFromEd25519Secret legacy
  | none => do
    let keypair ← modifyGet fun d => (Entropy.generateKeypair d.draws, { d with draws := d.draws + 1 })
    v.writeSecret identitySecret keypair.secret.toList
    return keypair

/-- `load_or_create_keypair`. -/
def loadOrCreateKeypair (storageKey : Option Bytes32) : VaultM Keypair := do
  let v ← SecretVault.openWithMigration storageKey
  match ← v.readSecret identitySecret with
  | .ok (some bytes) => keypairFromEd25519Secret bytes
  | .ok none => createKeypair v
  | .error _ => do
    v.deleteSecret identitySecret
    createKeypair v

/-- The end of `load_or_create_enc_keypair`. -/
def createEncKeypair (v : SecretVault) : VaultM EncryptionKeypair := do
  let d ← get
  match d.legacyEncFile with
  | some bytes => do
    v.writeSecret encSecret bytes
    modify fun d => { d with legacyEncFile := none }
    encFromSecretBytes bytes
  | none => do
    let kp ← modifyGet fun d => (Entropy.generateEncKeypair d.draws, { d with draws := d.draws + 1 })
    v.writeSecret encSecret kp.secret.toList
    return kp

/-- `load_or_create_enc_keypair`. -/
def loadOrCreateEncKeypair (storageKey : Option Bytes32) : VaultM EncryptionKeypair := do
  let v ← SecretVault.openWithMigration storageKey
  match ← v.readSecret encSecret with
  | .ok (some bytes) => encFromSecretBytes bytes
  | .ok none => createEncKeypair v
  | .error _ => do
    v.deleteSecret encSecret
    createEncKeypair v

/-! ## Calls that open the vault -/

/-- A call that may open the vault of the data directory. -/
inductive SecretCall where
  | openWithMigration (storageKey : Option Bytes32)
  | loadOrCreateKeypair (storageKey : Option Bytes32)
  | loadOrCreateEncKeypair (storageKey : Option Bytes32)
  | submitTransferFromIdentityPath
  /-- `needed`: a cold wallet is configured and the balance is below the threshold. -/
  | maybeRefill (needed : Bool)

namespace SecretCall

/-- The storage key the vault is opened with, if the call opens it. -/
def storageKey : SecretCall → Option (Option Bytes32)
  | .openWithMigration storageKey => some storageKey
  | .loadOrCreateKeypair storageKey => some storageKey
  | .loadOrCreateEncKeypair storageKey => some storageKey
  | .submitTransferFromIdentityPath => some none
  | .maybeRefill needed => if needed then some none else none

/-- What the call does to the data directory. -/
def run : SecretCall → VaultM Unit
  | .openWithMigration storageKey => do
    let _ ← SecretVault.openWithMigration storageKey
  | .loadOrCreateKeypair storageKey => do
    let _ ← Node.loadOrCreateKeypair storageKey
  | .loadOrCreateEncKeypair storageKey => do
    let _ ← Node.loadOrCreateEncKeypair storageKey
  | .submitTransferFromIdentityPath => do
    let _ ← Node.loadOrCreateKeypair none
  | .maybeRefill needed =>
    if needed then do
      let _ ← Node.loadOrCreateKeypair none
    else pure ()

end SecretCall

end

end Mycelium.Node

namespace Mycelium

variable [Prims] [Entropy] [Keyring]

/-- The directory after a call, whether or not it failed. -/
def DataDir.after (d : DataDir) (call : Node.SecretCall) : DataDir := finalState (call.run d)

/-- The directory after a sequence of calls. -/
def DataDir.afterAll (d : DataDir) (calls : List Node.SecretCall) : DataDir :=
  calls.foldl DataDir.after d

end Mycelium
