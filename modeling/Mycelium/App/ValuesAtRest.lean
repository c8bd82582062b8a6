import Mycelium.App.StorageQuota
import Mycelium.Core.StoredFormat

/-!
# Mycelium app — values from before encryption

A storage with a key reads a record that begins with `enc1:` as an encrypted one, and every other
record as text. Text may begin with `enc1:` too.

* `decryptValue_asBytes_iff` — which texts are read back as they are;
* `miniapp_value_survives_iff` — so which values survive a reopening with a key.
-/

namespace Mycelium.App

section

variable [Prims]

/-- Decryption takes a tag of 16 bytes away. -/
def DropsTag : Prop :=
  ∀ (key : Bytes32) (nonce ciphertext plaintext : Bytes),
    Prims.chachaDecrypt key nonce ciphertext = some plaintext →
      plaintext.length + 16 ≤ ciphertext.length

/-- **What is read of a text under a key.** Behind the mark, whatever is decrypted is shorter than
the text itself. -/
theorem decryptValue_asBytes_iff (htag : DropsTag) (master : Bytes32) (k value : String) :
    decryptValue master k (asBytes value) = .ok value ↔ ¬ asBytes "enc1:" <+: asBytes value := by
  unfold decryptValue
  constructor
  · intro h hmark
    rw [if_pos (List.isPrefixOf_iff_prefix.mpr hmark)] at h
    dsimp only at h
    split at h
    · cases h
    next hlong =>
    split at h
    · cases h
    next pt hdecrypt =>
    split at h
    · cases h
    next s hs =>
    obtain rfl := Except.ok.inj h
    -- the text would be the plaintext of its own end
    have hbytes : asBytes s = pt := asBytes_of_fromUtf8 hs
    have hshort := htag _ _ _ _ hdecrypt
    rw [← hbytes, List.length_drop, List.length_drop] at hshort
    rw [List.length_drop] at hlong
    omega
  · intro hmark
    rw [if_neg fun h => hmark (List.isPrefixOf_iff_prefix.mp h), fromUtf8_asBytes]

/-- **Which values survive encryption.** A value that was stored without a key is read back after a
reopening with a key, whichever it is, exactly if it does not begin with the mark of encrypted
records; under one key, or none, every value is read back. -/
theorem miniapp_value_survives_iff (haead : Prims.AeadLaws) (htag : DropsTag) {plain : AppStorage}
    (hplain : plain.atRestKey = none) (nonce : Vector UInt8 12) (k value : String) :
    (∀ master, ((plain.miniappSet nonce k value).reopen (some master)).miniappGet k
        = .ok (some value) ↔ ¬ asBytes "enc1:" <+: asBytes value)
    ∧ ∀ st : AppStorage, (st.miniappSet nonce k value).miniappGet k = .ok (some value) := by
  refine ⟨fun master => ?_, fun st => AppStorage.miniappGet_miniappSet haead nonce k value⟩
  rw [← decryptValue_asBytes_iff htag master k value]
  have hget : ((plain.miniappSet nonce k value).reopen (some master)).miniappGet k
      = (decryptValue master k (asBytes value)).map some := by
    unfold AppStorage.miniappGet AppStorage.reopen AppStorage.miniappSet
    simp only [AList.lookup_insert, hplain]
    rfl
  rw [hget]
  cases decryptValue master k (asBytes value) with
  | error e => exact ⟨nofun, nofun⟩
  | ok s => exact ⟨fun h => by rw [Option.some.inj (Except.ok.inj h)],
      fun h => by rw [Except.ok.inj h]; rfl⟩

end

section

attribute [local instance] symbolicPrims

/-- A short value that begins with the mark is not read back. -/
theorem miniapp_value_lost :
    validateValue "enc1:hello" = .ok ()
    ∧ ((AppStorage.miniappSet {} (Vector.replicate 12 0) "app:com.app:k" "enc1:hello").reopen
        (some (Vector.replicate 32 7))).miniappGet "app:com.app:k"
      = .error "truncated encrypted miniapp value" := by
  decide +kernel

theorem symbolicPrims_dropsTag : DropsTag := by
  intro key nonce ciphertext plaintext h
  simp only [Prims.chachaDecrypt] at h
  split at h
  · next hkey =>
    obtain rfl := Option.some.inj h
    have hlength := congrArg List.length hkey
    rw [List.length_take, Vector.length_toList] at hlength
    rw [List.length_drop]
    omega
  · cases h

theorem miniapp_value_survives_hello :
    ((AppStorage.miniappSet {} (Vector.replicate 12 0) "app:com.app:k" "hello").reopen
        (some (Vector.replicate 32 7))).miniappGet "app:com.app:k" = .ok (some "hello") :=
  ((miniapp_value_survives_iff symbolicPrims_aeadLaws symbolicPrims_dropsTag rfl
    (Vector.replicate 12 0) "app:com.app:k" "hello").1 (Vector.replicate 32 7)).mpr (by
      decide +kernel)

end

end Mycelium.App
