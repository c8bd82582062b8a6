import Mycelium.Lib.Words
import Mycelium.Core.Hex

/-!
# Mycelium core — envelopes and their signatures

Translation of `mycelium-core/src/data.rs`. An `Envelope` is signed over an unframed
concatenation of its fields; `sigVersion` chooses between the layout with the id
(`bytesForSigning`) and the one without (`bytesForSigningV0`).

`now_ms()` is the system clock: a function that reads it takes the reading as an argument
here, and the node's handlers (`Node.State`) supply it.

* `PeerId.publicKey` — the key a peer id carries, if it carries one;
* `Envelope.verify_iff` — `Envelope::verify` as one signature check on `signedBytes`.
-/

namespace Mycelium

/-- Launch time of the signature scheme with the id in the signed bytes. -/
def sigV1LaunchMs : UInt64 := 1779430651000

/-- How long failed signatures are accepted after the launch: seven days. -/
def sigTransitionMs : UInt64 := 7 * 24 * 60 * 60 * 1000

/-- `ContentId::from_bytes`: the hex of the `blake3` hash. -/
def contentIdFromBytes [Prims] (data : Bytes) : String := hexEncode (Prims.blake3 data).toList

inductive Priority where
  | low
  | normal
  | high
deriving DecidableEq, Repr

/-- `priority as u8`. -/
def Priority.asU8 : Priority → UInt8
  | .low => 0
  | .normal => 1
  | .high => 2

theorem Priority.asU8_injective : Function.Injective Priority.asU8 := by
  intro p q h
  cases p <;> cases q <;> first | rfl | exact absurd h (by decide)

/-- `default_max_hops`. -/
def defaultMaxHops : UInt8 := 8

/-- The signed header and payload of a message. `id` is the text of a `ContentId`. -/
structure Envelope where
  id : String
  fromPeer : String
  toPeer : Option String
  payload : Bytes
  createdAtMs : UInt64
  ttlSecs : UInt32
  priority : Priority
  signature : Option Bytes := none
  /-- `0`: legacy, no id in the signed bytes; otherwise the id is included. -/
  sigVersion : UInt8 := 0
  hopCount : UInt8 := 0
  maxHops : UInt8 := defaultMaxHops
  /-- Original author when `fromPeer` was replaced by a relay hop identity. -/
  authorPeer : Option String := none
deriving DecidableEq, Repr

/-- The public key inlined in a peer id: only the identity multihash carries one. -/
def PeerId.publicKey [Prims] (peer : PeerId) : Option PublicKey :=
  if peer.code ≠ 0 then none else Prims.tryDecodeProtobuf peer.digest

namespace Envelope

/-- `Envelope::new`, with the clock reading `now`. -/
def new [Prims] (now : UInt64) (fromPeer : String) (toPeer : Option String) (payload : Bytes) :
    Envelope :=
  { id := contentIdFromBytes (asBytes fromPeer ++ payload ++ leBytes 8 now.toNat)
    fromPeer, toPeer, payload
    createdAtMs := now
    ttlSecs := 7 * 24 * 60 * 60
    priority := .normal
    signature := none
    sigVersion := 1
    hopCount := 0
    maxHops := defaultMaxHops
    authorPeer := none }

/-- `Envelope::new_unsigned`: gossip relay, author authentication lives in the payload. -/
def newUnsigned [Prims] (now : UInt64) (fromPeer : String) (toPeer : Option String)
    (payload : Bytes) : Envelope :=
  { new now fromPeer toPeer payload with signature := none, sigVersion := 0 }

/-! ## Signed bytes -/

/-- The bytes of `toPeer`, nothing when there is none. -/
def toPeerBytes (e : Envelope) : Bytes :=
  match e.toPeer with
  | some peer => asBytes peer
  | none => []

/-- The fixed-width fields at the end of both layouts. -/
def trailer (e : Envelope) : Bytes :=
  leBytes 8 e.createdAtMs.toNat ++ leBytes 4 e.ttlSecs.toNat
    ++ [e.priority.asU8, e.hopCount, e.maxHops]

/-- `bytes_for_signing`. -/
def bytesForSigning (e : Envelope) : Bytes :=
  asBytes e.id ++ asBytes e.fromPeer ++ e.toPeerBytes ++ e.payload ++ e.trailer

/-- `bytes_for_signing_v0`. -/
def bytesForSigningV0 (e : Envelope) : Bytes :=
  asBytes e.fromPeer ++ e.toPeerBytes ++ e.payload ++ e.trailer

/-- The bytes `verify` checks: the layout the envelope's own `sigVersion` selects. -/
def signedBytes (e : Envelope) : Bytes :=
  if e.sigVersion = 0 then e.bytesForSigningV0 else e.bytesForSigning

/-! ## Signing and verifying -/

/-- `signature_author_peer`: the peer whose key signed this envelope (author, not relay hop). -/
def signatureAuthorPeer (e : Envelope) : String := e.authorPeer.getD e.fromPeer

section

variable [Prims]

/-- `Envelope::sign`; on failure `sigVersion` is already set. -/
def sign (e : Envelope) (keypair : Keypair) : Except String Unit × Envelope :=
  let e := { e with sigVersion := 1 }
  match Prims.identity.sign keypair e.bytesForSigning with
  | none => (.error "failed to sign envelope", e)
  | some sig => (.ok (), { e with signature := some sig })

/-- `Envelope::verify`. -/
def verify (e : Envelope) (peer : PeerId) : Bool :=
  match e.signature with
  | none => false
  | some sig =>
    if peer.code ≠ 0 then false
    else
      match Prims.tryDecodeProtobuf peer.digest with
      | none => false
      | some pk => Prims.identity.verify pk e.signedBytes sig

/-- `signature_transition_active`. -/
def signatureTransitionActive (now : UInt64) : Bool :=
  now < U64.satAdd sigV1LaunchMs sigTransitionMs

/-- `verify_or_transition`. -/
def verifyOrTransition (e : Envelope) (peer : PeerId) (now : UInt64) : Bool :=
  e.verify peer || signatureTransitionActive now

/-- `verify` is one signature check, under the key the peer id carries. -/
theorem verify_iff {e : Envelope} {peer : PeerId} :
    e.verify peer = true ↔ ∃ sig pk, e.signature = some sig ∧ peer.publicKey = some pk
      ∧ Prims.identity.verify pk e.signedBytes sig = true := by
  unfold verify PeerId.publicKey
  cases hsig : e.signature with
  | none => simp
  | some sig =>
    by_cases hcode : peer.code ≠ 0
    · simp [hcode]
    · simp only [if_neg hcode]
      cases Prims.tryDecodeProtobuf peer.digest with
      | none => simp
      | some pk => simp

/-- What a successful `sign` leaves: a version-1 signature on its own bytes, nothing else
changed. -/
theorem sign_ok {e e' : Envelope} {keypair : Keypair} (h : e.sign keypair = (.ok (), e')) :
    ∃ sig, Prims.identity.sign keypair e'.bytesForSigning = some sig
      ∧ e' = { e with sigVersion := 1, signature := some sig } := by
  unfold sign at h
  simp only at h
  cases hs : Prims.identity.sign keypair
      ({ e with sigVersion := 1 } : Envelope).bytesForSigning with
  | none =>
    rw [hs] at h
    exact absurd (congrArg Prod.fst h) (by simp)
  | some sig =>
    rw [hs] at h
    have he : e' = { e with sigVersion := 1, signature := some sig } :=
      (congrArg Prod.snd h).symm
    exact ⟨sig, by rw [he]; exact hs, he⟩

end

end Envelope

end Mycelium
