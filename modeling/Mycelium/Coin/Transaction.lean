import Mycelium.Lib.Words
import Mycelium.Core.Hex
import Mathlib.Data.Finset.Card
import Mathlib.Algebra.BigOperators.Group.Finset.Basic

/-!
# Mycelium coin — addresses and transactions

Translation of `mycelium-coin/src/address.rs` and of the `Transaction` half of
`mycelium-coin/src/ledger.rs`. Amounts, fees, timestamps and nonces are `u64` words;
the witness `HashSet` is a `Finset`, and `encodedLen` is the length of the `bincode`
encoding (fixed-width integers, eight-byte length prefixes, one-byte option tags).
-/

namespace Mycelium.Coin

abbrev Address := String
abbrev TxId := String

/-- Coin unit: 1 MXC = 1_000_000 Muon. -/
def muonPerMxc : UInt64 := 1000000

section

variable [Prims]

/-! ## Addresses -/

/-- `address_from_public_key`: `mxc1` and the base58 of a 20-byte key digest with its
4-byte checksum. -/
def addressFromPublicKey (pk : PublicKey) : Address :=
  let payload := (Prims.blake3 (Prims.encodeProtobuf pk)).toList.take 20
  let checksum := (Prims.blake3 payload).toList.take 4
  "mxc1" ++ Prims.bs58Encode (payload ++ checksum)

/-- `address_from_keypair`. -/
def addressFromKeypair (kp : Keypair) : Address :=
  addressFromPublicKey (Prims.identity.pub kp)

/-- `validate_address`. -/
def validateAddress (addr : Address) : Bool :=
  if addr.startsWith "mxc1" then
    match Prims.bs58Decode (addr.drop 4).toString with
    | none => false
    | some decoded =>
      decoded.length == 24
        && decoded.drop 20 == (Prims.blake3 (decoded.take 20)).toList.take 4
  else false

end

/-! ## Transactions -/

/-- A transfer of `amountMuon` (plus `feeMuon`) between two addresses. -/
structure Transaction where
  id : TxId
  fromAddr : Address
  toAddr : Address
  amountMuon : UInt64
  feeMuon : UInt64
  timestampMs : UInt64
  nonce : UInt64
  memo : Option String
  /-- Ed25519 public key (protobuf-encoded) matching `fromAddr`. -/
  fromPublicKey : Bytes
  signature : Bytes
  witnesses : Finset String
deriving DecidableEq

namespace Transaction

/-- `bytes_for_signing`: an unframed concatenation that leaves out `id` and `witnesses`. -/
def bytesForSigning (tx : Transaction) : Bytes :=
  asBytes tx.fromAddr ++ asBytes tx.toAddr
    ++ leBytes 8 tx.amountMuon.toNat ++ leBytes 8 tx.feeMuon.toNat
    ++ leBytes 8 tx.timestampMs.toNat ++ leBytes 8 tx.nonce.toNat
    ++ tx.fromPublicKey
    ++ (match tx.memo with
        | some memo => asBytes memo
        | none => [])

/-- What `Transaction::new` hashes into the id: the signed bytes and the signature. -/
def content (tx : Transaction) : Bytes := tx.bytesForSigning ++ tx.signature

/-- The id `Transaction::new` gives: the hex of the hash. -/
def contentId [Prims] (tx : Transaction) : TxId := hexEncode (Prims.blake3 tx.content).toList

/-- `Transaction::new` at the time `timestampMs`. It fails if signing does. -/
def new [Prims] (timestampMs : UInt64) (toAddr : Address) (amountMuon feeMuon nonce : UInt64)
    (memo : Option String) (keypair : Keypair) : Option Transaction := do
  let unsigned : Transaction :=
    { id := "", fromAddr := addressFromKeypair keypair, toAddr, amountMuon, feeMuon, timestampMs,
      nonce, memo, fromPublicKey := Prims.encodeProtobuf (Prims.identity.pub keypair),
      signature := [], witnesses := ∅ }
  let signature ← Prims.identity.sign keypair unsigned.bytesForSigning
  let signed := { unsigned with signature }
  return { signed with id := signed.contentId }

/-- `Transaction::verify`. -/
def verify [Prims] (tx : Transaction) : Bool :=
  if !validateAddress tx.fromAddr || !validateAddress tx.toAddr then false
  else
    match Prims.tryDecodeProtobuf tx.fromPublicKey with
    | none => false
    | some pk =>
      if addressFromPublicKey pk != tx.fromAddr then false
      else Prims.identity.verify pk tx.bytesForSigning tx.signature

/-- `is_confirmed`: three distinct witnesses. -/
def isConfirmed (tx : Transaction) : Bool := 3 ≤ tx.witnesses.card

theorem isConfirmed_iff {tx : Transaction} : tx.isConfirmed = true ↔ 3 ≤ tx.witnesses.card := by
  simp [isConfirmed]

/-- Length of the `bincode` encoding of a string. -/
def bincodeStringLen (s : String) : Nat := 8 + s.utf8ByteSize

/-- Length of `bincode::serialize(tx)`. -/
def encodedLen (tx : Transaction) : Nat :=
  bincodeStringLen tx.id + bincodeStringLen tx.fromAddr + bincodeStringLen tx.toAddr
    + 8 + 8 + 8 + 8
    + (match tx.memo with
       | some memo => 1 + bincodeStringLen memo
       | none => 1)
    + (8 + tx.fromPublicKey.length) + (8 + tx.signature.length)
    + (8 + tx.witnesses.sum bincodeStringLen)

end Transaction

/-! ## Payloads -/

/-- `RefillRequest`: a hot wallet asks its cold node for coins. -/
structure RefillRequest where
  requestId : String
  hotAddress : Address
  coldAddress : Address
  amountMuon : UInt64
  feeMuon : UInt64
  createdAtMs : UInt64
  expiresAtMs : UInt64
  hotPublicKey : Bytes
  signature : Bytes
deriving DecidableEq

/-- `CoinPayload`: what coin nodes tell each other. -/
inductive CoinPayload where
  | transaction (tx : Transaction)
  | witness (txId : TxId) (peerId : String)
  | balanceQuery (address : Address)
  | balanceResponse (address : Address) (balanceMuon pendingMuon : UInt64)
  | refillRequest (req : RefillRequest)
deriving DecidableEq

end Mycelium.Coin
