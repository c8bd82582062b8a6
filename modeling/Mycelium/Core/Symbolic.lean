import Mycelium.Core.Hex
import Mycelium.Lib.Words

/-!
# Mycelium — a concrete instance of the third-party functions

`symbolicPrims` interprets every library function of `Prims` by a small computable one
that has the *laws* of the real one: signatures and ciphertexts carry their key, encodings
round-trip, a peer id is its key in hex. It is what statements about `[Prims]` are
evaluated on; its identity scheme is ideal (`symbolicIdentity_ideal`).
-/

namespace Mycelium

/-- The first 32 bytes of a byte string, padded with zeros. -/
def firstBytes32 (bytes : Bytes) : Bytes32 := Vector.ofFn fun i => bytes.getD i 0

/-- Identity keys whose signature on `m` is the key followed by `m`. -/
def symbolicIdentity : SigScheme Keypair PublicKey Bytes Bytes where
  pub kp := ⟨kp.secret.toList⟩
  sign kp m := some (kp.secret.toList ++ m)
  verify pk m s := pk.raw.length == 32 && s == pk.raw ++ m

@[reducible] def symbolicPrims : Prims where
  blake3 := firstBytes32
  blake3DeriveKey context ikm := firstBytes32 (asBytes context ++ ikm)
  bs58Encode := hexEncode
  bs58Decode := hexDecode
  parsePeerId s := (hexDecode s).map fun digest => { code := 0, digest }
  peerIdToString p := hexEncode p.digest
  tryDecodeProtobuf bytes := if bytes.length = 32 then some ⟨bytes⟩ else none
  encodeProtobuf pk := pk.raw
  toPeerId pk := { code := 0, digest := pk.raw }
  identity := symbolicIdentity
  defaultHash seed id := seed + UInt64.ofNat id.length
  diffieHellman sk pk := Vector.zipWith (· ^^^ ·) sk pk
  x25519Public sk := sk
  hkdfSha256 ikm _ := firstBytes32 ikm
  chachaEncrypt key _ plaintext := key.toList ++ plaintext
  chachaDecrypt key _ ct := if ct.take 32 = key.toList then some (ct.drop 32) else none

/-- A key whose 32 secret bytes are all `b`. -/
def symbolicKey (b : UInt8) : Keypair := ⟨Vector.replicate 32 b⟩

/-- The symbolic identity scheme is ideal: a signature splits into its 32-byte key and its
message in only one way. -/
theorem symbolicIdentity_ideal : symbolicIdentity.Ideal where
  complete := by
    intro sk m s hs
    have hs' : sk.secret.toList ++ m = s := Option.some.inj hs
    simp [symbolicIdentity, ← hs']
  sound := by
    intro pk m s hv
    simp only [symbolicIdentity, Bool.and_eq_true, beq_iff_eq] at hv
    obtain ⟨hlen, hs⟩ := hv
    refine ⟨⟨⟨pk.raw.toArray, by simpa using hlen⟩⟩, ?_, ?_⟩
    · rfl
    · rw [hs]
      rfl
  binding := by
    intro sk sk' m m' s hs hs'
    have happ : sk.secret.toList ++ m = sk'.secret.toList ++ m' :=
      (Option.some.inj hs).trans (Option.some.inj hs').symm
    obtain ⟨hkey, hm⟩ := List.append_inj happ (by simp)
    exact ⟨congrArg PublicKey.mk hkey, hm⟩

/-- A digest that every byte enters. -/
def mixBytes (bytes : Bytes) : Nat :=
  bytes.foldl (fun h b => (h * 257 + b.toNat + 1) % (2 ^ 256 - 189)) 1

/-- The symbolic functions with such a digest for `blake3`, for runs in which hashes of long
byte strings with a common beginning must differ. -/
@[reducible] def hashingPrims : Prims :=
  { symbolicPrims with blake3 := fun bytes => firstBytes32 (leBytes 32 (mixBytes bytes)) }

/-- The symbolic scheme in a world where only the messages of `signed` were ever signed. -/
def symbolicIdentitySigning (signed : List Bytes) : SigScheme Keypair PublicKey Bytes Bytes where
  pub := symbolicIdentity.pub
  sign kp m := if m ∈ signed then symbolicIdentity.sign kp m else none
  verify pk m s := decide (m ∈ signed) && symbolicIdentity.verify pk m s

@[reducible] def symbolicPrimsSigning (signed : List Bytes) : Prims :=
  { symbolicPrims with identity := symbolicIdentitySigning signed }

theorem symbolicIdentitySigning_signsOnly (signed : List Bytes) (pk : PublicKey) :
    (symbolicIdentitySigning signed).SignsOnly pk (· ∈ signed) := by
  intro m s hv
  simp only [symbolicIdentitySigning, Bool.and_eq_true, decide_eq_true_eq] at hv
  exact hv.1

end Mycelium
