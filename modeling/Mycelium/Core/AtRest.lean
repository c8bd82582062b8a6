import Mycelium.Core.Crypto
import Mycelium.Lib.Hoare
import Mycelium.Lib.Tree

/-!
# Mycelium core — secrets at rest

Translation of `mycelium-core/src/at_rest.rs`. A `DataDir` is what the vault of one data
directory reads and writes: the encrypted secrets, the file with a fallback key, and the
identity record of older versions. Functions of the vault are programs on it; random draws
come from `Entropy`, and what the platform's keyring answers, call by call, from `Keyring`.
File and database operations succeed.

* `resolveMasterKey` — explicit key, else keyring, else the fallback file;
* `SecretVault.readSecret` — decrypt, or recover with an alternate key and re-encrypt;
* `openWithMigration` — do that for the known secrets, and drop the unreadable ones.
-/

namespace Mycelium

/-- Random draws: the nonces and key pairs, and the keys for a keyring without an entry. -/
class Entropy where
  nonce : Nat → Vector UInt8 12
  generateKeypair : Nat → Keypair
  generateEncKeypair : Nat → EncryptionKeypair
  masterKey : Nat → Bytes32

/-- What `get_password` of a keyring entry answers. -/
inductive PasswordAnswer where
  | password (hex : String)
  | noEntry
  | failed

/-- The platform keyring, a crate of its own: what it answers to the calls of
`load_master_from_keyring`, in their order. Nothing relates one answer to the next; without a
back end, for one, an entry that was set is not there at the next call. -/
class Keyring where
  getPassword : Nat → PasswordAnswer
  /-- Whether `set_password` succeeds. -/
  setPassword : Nat → Bool

structure DataDir where
  dbPath : String
  /-- `.secrets/<name>.enc`. -/
  secrets : KvTree.Of String Bytes := ∅
  /-- `.secrets/fallback_master.key`. -/
  fallbackFile : Option Bytes := none
  /-- The record `ed25519_secret_key` of the `sled` identity tree. -/
  legacyIdentity : Option Bytes := none
  /-- `enc_x25519.secret`, the encryption key of older versions. -/
  legacyEncFile : Option Bytes := none
  /-- Nonces and key pairs drawn so far. -/
  draws : Nat := 0
  /-- Calls of the keyring so far. -/
  keyringCalls : Nat := 0

/-- A function of the vault. -/
abbrev VaultM := EStateM String DataDir

/-! ## Master keys -/

section

variable [Prims]

/-- `legacy_derive_fallback_master`. -/
def legacyDeriveFallbackMaster (dbPath : String) : Bytes32 :=
  Prims.blake3DeriveKey "mycelium-at-rest-fallback-v1" (asBytes dbPath)

/-- `read_file_fallback_key_if_exists`. -/
def DataDir.fileFallbackKey (d : DataDir) : Option Bytes32 := d.fallbackFile.bind toBytes32

variable [Entropy] [Keyring]

/-- The key that the next call of `load_master_from_keyring` returns; `none` is its `Err`. -/
def DataDir.keyringKey (d : DataDir) : Option Bytes32 :=
  match Keyring.getPassword d.keyringCalls with
  | .password hex => (hexDecode (trim hex)).bind toBytes32
  | .noEntry =>
    if Keyring.setPassword d.keyringCalls then some (Entropy.masterKey d.keyringCalls) else none
  | .failed => none

/-- The directory after `n` calls of the keyring. -/
def DataDir.askKeyring (d : DataDir) (n : Nat) : DataDir :=
  { d with keyringCalls := d.keyringCalls + n }

/-- `load_master_from_keyring`. -/
def loadMasterFromKeyring : VaultM (Option Bytes32) :=
  modifyGet fun d => (d.keyringKey, d.askKeyring 1)

/-- The key under which a vault opened with `storageKey` works, if there is one. -/
def DataDir.masterKeyFor (d : DataDir) (storageKey : Option Bytes32) : Option Bytes32 :=
  (storageKey.or d.keyringKey).or d.fileFallbackKey

/-- The last resort of `resolve_master_key`. -/
def fallbackOrFail : VaultM Bytes32 := do
  let d ← get
  match d.fileFallbackKey with
  | some k => return k
  | none => throw ("at-rest: OS keyring unavailable and no existing vault key for " ++ d.dbPath
      ++ ". Refusing to create a weak file-based master key (SD-131). "
      ++ "On desktop, enable the OS credential store or provide storage_key.")

/-- `resolve_master_key`. -/
def resolveMasterKey (storageKey : Option Bytes32) : VaultM Bytes32 :=
  match storageKey with
  | some k => return k
  | none => do
    match ← loadMasterFromKeyring with
    | some k => return k
    | none => fallbackOrFail

/-- Add a key to a list of candidates, once. -/
def pushKey (keys : List Bytes32) (k : Option Bytes32) : List Bytes32 :=
  match k with
  | some k => if k ∈ keys then keys else keys ++ [k]
  | none => keys

/-- The candidates of `alternate_master_keys`, if it is called next. -/
def DataDir.alternates (d : DataDir) : List Bytes32 :=
  pushKey (pushKey [legacyDeriveFallbackMaster d.dbPath] d.fileFallbackKey) d.keyringKey

/-- `alternate_master_keys`. -/
def alternateMasterKeys : VaultM (List Bytes32) := modifyGet fun d => (d.alternates, d.askKeyring 1)

end

/-! ## Encryption -/

section

variable [Prims]

/-- `encrypt`, with the nonce drawn. -/
def encryptAtRest (master : Bytes32) (nonce : Vector UInt8 12) (plaintext : Bytes) : Bytes :=
  nonce.toList ++ Prims.chachaEncrypt master nonce.toList plaintext

/-- `decrypt`. -/
def decryptAtRest (master : Bytes32) (blob : Bytes) : Except String Bytes :=
  if blob.length < 12 + 16 then .error "ciphertext too short"
  else
    match Prims.chachaDecrypt master (blob.take 12) (blob.drop 12) with
    | none => .error "decrypt failed: aead::Error"
    | some plaintext => .ok plaintext

/-- What is documented of ChaCha20-Poly1305: it decrypts what it encrypted, refuses what was
encrypted under another key, and appends a tag of 16 bytes. -/
structure Prims.AeadLaws : Prop where
  decrypt_encrypt : ∀ (key : Bytes32) (nonce plaintext : Bytes),
    Prims.chachaDecrypt key nonce (Prims.chachaEncrypt key nonce plaintext) = some plaintext
  decrypt_other : ∀ {key key' : Bytes32} (nonce plaintext : Bytes), key' ≠ key →
    Prims.chachaDecrypt key' nonce (Prims.chachaEncrypt key nonce plaintext) = none
  tag : ∀ (key : Bytes32) (nonce plaintext : Bytes),
    plaintext.length + 16 ≤ (Prims.chachaEncrypt key nonce plaintext).length

/-- A blob opens under the key that made it. -/
theorem decryptAtRest_encryptAtRest (haead : Prims.AeadLaws) (key : Bytes32)
    (nonce : Vector UInt8 12) (plaintext : Bytes) :
    decryptAtRest key (encryptAtRest key nonce plaintext) = .ok plaintext := by
  have htag := haead.tag key nonce.toList plaintext
  unfold decryptAtRest encryptAtRest
  rw [if_neg (by simp; omega), List.take_left' (by simp), List.drop_left' (by simp),
    haead.decrypt_encrypt]

/-- A blob does not open under another key. -/
theorem decryptAtRest_other (haead : Prims.AeadLaws) {key key' : Bytes32} (hne : key' ≠ key)
    (nonce : Vector UInt8 12) (plaintext : Bytes) :
    decryptAtRest key' (encryptAtRest key nonce plaintext)
      = .error "decrypt failed: aead::Error" := by
  have htag := haead.tag key nonce.toList plaintext
  unfold decryptAtRest encryptAtRest
  rw [if_neg (by simp; omega), List.take_left' (by simp), List.drop_left' (by simp),
    haead.decrypt_other _ _ hne]

end

/-! ## The vault -/

/-- `SecretVault`; its paths are the data directory's. -/
structure SecretVault where
  master : Bytes32

section

variable [Prims] [Entropy] [Keyring]

/-- The first candidate other than the master key that opens the blob. -/
def recoverWith (master : Bytes32) (blob : Bytes) (candidates : List Bytes32) : Option Bytes :=
  candidates.findSome? fun alt =>
    if alt = master then none else (decryptAtRest alt blob).toOption

namespace SecretVault

/-- `write_secret`. -/
def writeSecret (v : SecretVault) (name : String) (plaintext : Bytes) : VaultM Unit :=
  modify fun d => { d with
    secrets := d.secrets.insert name (encryptAtRest v.master (Entropy.nonce d.draws) plaintext)
    draws := d.draws + 1 }

/-- `delete_secret`. -/
def deleteSecret (_v : SecretVault) (name : String) : VaultM Unit :=
  modify fun d => { d with secrets := d.secrets.erase name }

/-- The recovery loop of `read_secret`, for a blob the master key does not open. -/
def recoverSecret (v : SecretVault) (name : String) (blob : Bytes) (primaryErr : String) :
    VaultM (Except String (Option Bytes)) := do
  let candidates ← alternateMasterKeys
  match recoverWith v.master blob candidates with
  | some plaintext => do
    v.writeSecret name plaintext
    return .ok (some plaintext)
  | none => return .error ("decrypt " ++ name ++ ": " ++ primaryErr)

/-- `read_secret`. Its `Err` is a value here, since every caller goes on from it. -/
def readSecret (v : SecretVault) (name : String) : VaultM (Except String (Option Bytes)) := do
  let d ← get
  match d.secrets.lookup name with
  | none => return .ok none
  | some blob =>
    match decryptAtRest v.master blob with
    | .ok plaintext => return .ok (some plaintext)
    | .error e => v.recoverSecret name blob e

/-- `SecretVault::open`. -/
def openVault (storageKey : Option Bytes32) : VaultM SecretVault := do
  let master ← resolveMasterKey storageKey
  return { master }

/-- One round of the loop in `open_with_migration`. -/
def migrateSecret (v : SecretVault) (name : String) : VaultM Unit := do
  match ← v.readSecret name with
  | .ok _ => pure ()
  | .error _ => v.deleteSecret name

/-- The secrets that `open_with_migration` visits. -/
def migratedSecrets : List String := ["enc_x25519", "enc_keypair", "ed25519_identity"]

/-- `open_with_migration`. -/
def openWithMigration (storageKey : Option Bytes32) : VaultM SecretVault := do
  let v ← openVault storageKey
  forM migratedSecrets v.migrateSecret
  return v

end SecretVault

end

end Mycelium
