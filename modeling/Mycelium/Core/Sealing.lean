import Mycelium.Core.InnerFrame
import Mycelium.Core.Recovery

/-!
# Mycelium core — sealing a payload for one peer

Translation of `encrypt_for` (`mycelium-core/src/crypto.rs`), with the ephemeral key and the nonce
it draws. Sender and recipient agree on a secret, each from its own secret key and the public key
of the other.

* `decryptWith_encryptFor` — the recipient opens what was sealed under its public key;
* `unwrap_encryptFor` — and finds the author and the payload, whoever relayed it.
-/

namespace Mycelium

section

variable [Prims]

/-- `encrypt_for`. -/
def encryptFor (ephemeral : X25519Key) (nonce : Vector UInt8 12) (plaintext : Bytes)
    (recipientPublic : X25519Key) : Bytes :=
  let shared := Prims.diffieHellman ephemeral recipientPublic
  (Prims.x25519Public ephemeral).toList ++ nonce.toList
    ++ Prims.chachaEncrypt (deriveChachaKey shared "mycelium-direct-v1") nonce.toList plaintext

/-- What the two ends rely on: they agree on the secret, and what is encrypted is decrypted. -/
structure SealLaws : Prop where
  agree : ∀ sk sk' : X25519Key,
    Prims.diffieHellman sk (Prims.x25519Public sk') = Prims.diffieHellman sk' (Prims.x25519Public sk)
  aead : ∀ (key : Bytes32) (nonce plaintext : Bytes),
    Prims.chachaDecrypt key nonce (Prims.chachaEncrypt key nonce plaintext) = some plaintext

theorem decryptWith_encryptFor (h : SealLaws) (ephemeral : X25519Key) (nonce : Vector UInt8 12)
    (plaintext : Bytes) (recipient : EncryptionKeypair) :
    decryptWith (encryptFor ephemeral nonce plaintext recipient.public) recipient
      = .ok plaintext := by
  have hkey : (Prims.x25519Public ephemeral).toList.length = 32 := Vector.length_toList
  have hnonce : nonce.toList.length = 12 := Vector.length_toList
  unfold decryptWith encryptFor EncryptionKeypair.public
  dsimp only
  -- the three parts are where they are looked for
  rw [if_neg (by simp only [List.length_append, hkey, hnonce]; omega), List.append_assoc,
    List.take_left' hkey, toBytes32_toList, List.drop_left' hkey, List.take_left' hnonce,
    ← List.append_assoc, List.drop_left' (by rw [List.length_append, hkey, hnonce])]
  dsimp only
  rw [h.agree recipient.secret ephemeral, h.aead]

/-- The author and the payload come out as they went in. -/
theorem unwrap_encryptFor (h : SealLaws) {author : String} {app wrapped : Bytes}
    (hauthor : author ≠ "") (hwrapped : wrapInner author app = some wrapped)
    (ephemeral : X25519Key) (nonce : Vector UInt8 12) (recipient : EncryptionKeypair)
    {plain : Bytes}
    (hplain : decryptWith (encryptFor ephemeral nonce wrapped recipient.public) recipient
      = .ok plain) (relay : String) :
    unwrapInner plain relay = (author, app) := by
  rw [decryptWith_encryptFor h, Except.ok.injEq] at hplain
  subst hplain
  obtain ⟨hbound, hlayout⟩ := Option.ite_none_right_eq_some.mp hwrapped
  have hframe : Frame wrapped (asBytes author) app := ⟨hbound, (Option.some.inj hlayout).symm⟩
  rw [hframe.unwrap, fromUtf8_asBytes]
  simp [hauthor]

end

section

attribute [local instance] symbolicPrims

theorem symbolicPrims_sealLaws : SealLaws where
  agree sk sk' := by
    show Vector.zipWith (· ^^^ ·) sk sk' = Vector.zipWith (· ^^^ ·) sk' sk
    ext i hi
    simp [UInt8.xor_comm]
  aead := symbolicPrims_aeadLaws.decrypt_encrypt

end

end Mycelium
