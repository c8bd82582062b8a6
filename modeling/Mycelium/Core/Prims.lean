import Mycelium.Lib.Signature
import Mathlib.Tactic

/-!
# Mycelium — the third-party functions the crates call

Nothing in this module is code of the repository. `Prims` collects, as parameters, the
functions of the libraries the crates are built on (`blake3`, `bs58`, `libp2p::identity`,
`x25519_dalek`, `hkdf`, `chacha20poly1305`, the standard hasher); every function of the
development that reaches one of them takes `[Prims]`.

What a result needs to assume about them is stated there by name (`SigScheme.Ideal` for
the identity keys, `Prims.AeadLaws` for the cipher), never here.
-/

namespace Mycelium

/-- Literals of `Fin 3` go through this instance, in whatever module they stand. -/
instance neZeroThree : NeZero 3 := ⟨by decide⟩

/-- `Vec<u8>` / `&[u8]`. -/
abbrev Bytes := List UInt8

/-- `[u8; 32]`. -/
abbrev Bytes32 := Vector UInt8 32

/-- `str::as_bytes`: the UTF-8 bytes of a string. -/
def asBytes (s : String) : Bytes := s.toUTF8.data.toList

/-- A string is determined by its UTF-8 bytes. -/
theorem asBytes_injective : Function.Injective asBytes := by
  intro s t h
  obtain ⟨⟨⟨l⟩⟩, hs⟩ := s
  obtain ⟨⟨⟨l'⟩⟩, ht⟩ := t
  have hl : l = l' := h
  subst hl
  rfl

theorem asBytes_ofList (l : List Char) :
    asBytes (String.ofList l) = l.flatMap String.utf8EncodeChar := by
  show ((l.flatMap String.utf8EncodeChar).toByteArray).data.toList = _
  simp

/-- `libp2p::PeerId`: a multihash, i.e. a hash code and a digest. Code `0` is the identity
hash, under which the digest *is* the protobuf-encoded public key. -/
structure PeerId where
  code : UInt64
  digest : Bytes
deriving DecidableEq, Repr

/-- `libp2p::identity::PublicKey`. -/
structure PublicKey where
  raw : Bytes
deriving DecidableEq, Repr

/-- `libp2p::identity::Keypair` (an Ed25519 secret key). -/
structure Keypair where
  secret : Bytes32
deriving DecidableEq

/-- `x25519_dalek::StaticSecret` / `PublicKey`, as 32 raw bytes. -/
abbrev X25519Key := Bytes32

/-- The library functions the crates call. -/
class Prims where
  /-- `blake3::hash`. -/
  blake3 : Bytes → Bytes32
  /-- `blake3::derive_key`. -/
  blake3DeriveKey : String → Bytes → Bytes32
  /-- `bs58::encode(..).into_string()`. -/
  bs58Encode : Bytes → String
  /-- `bs58::decode(..).into_vec()`. -/
  bs58Decode : String → Option Bytes
  /-- `str::parse::<PeerId>`. -/
  parsePeerId : String → Option PeerId
  /-- `PeerId::to_string`. -/
  peerIdToString : PeerId → String
  /-- `PublicKey::try_decode_protobuf`. -/
  tryDecodeProtobuf : Bytes → Option PublicKey
  /-- `PublicKey::encode_protobuf`. -/
  encodeProtobuf : PublicKey → Bytes
  /-- `PublicKey::to_peer_id`. -/
  toPeerId : PublicKey → PeerId
  /-- `Keypair::public`, `Keypair::sign` and `PublicKey::verify`. -/
  identity : SigScheme Keypair PublicKey Bytes Bytes
  /-- `DefaultHasher` over a seed and a string. -/
  defaultHash : UInt64 → String → UInt64
  /-- `StaticSecret::diffie_hellman`. -/
  diffieHellman : X25519Key → X25519Key → Bytes32
  /-- `x25519_dalek::PublicKey::from(&secret)`. -/
  x25519Public : X25519Key → X25519Key
  /-- `Hkdf::<Sha256>::new(None, ikm).expand(info, ..)` into 32 bytes. -/
  hkdfSha256 : Bytes → Bytes → Bytes32
  /-- `ChaCha20Poly1305::encrypt` under a key and a 12-byte nonce. -/
  chachaEncrypt : Bytes32 → Bytes → Bytes → Bytes
  /-- `ChaCha20Poly1305::decrypt`; `none` when the tag does not match. -/
  chachaDecrypt : Bytes32 → Bytes → Bytes → Option Bytes

/-- `Keypair::public().to_peer_id().to_string()`. -/
def Keypair.peerIdString [Prims] (kp : Keypair) : String :=
  Prims.peerIdToString (Prims.toPeerId (Prims.identity.pub kp))

end Mycelium
