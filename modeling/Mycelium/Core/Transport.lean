import Mycelium.Core.Data

/-!
# Mycelium core — wire messages

Translation of `mycelium-core/src/transport.rs`: the frames peers exchange, the hop-by-hop
signature of `EncryptedDirect`, scope patterns, and the events the transport reports.
Doc strings of the source that only describe a wire layout are kept where a branch of the
node depends on them.
-/

namespace Mycelium

structure DirectMessage where
  envelope : Envelope
  body : String
deriving DecidableEq, Repr

/-- `DirectMessage::is_expired`. `ttl_secs as u64 * 1000` cannot overflow. -/
def DirectMessage.isExpired (m : DirectMessage) (now : UInt64) : Bool :=
  U64.satAdd m.envelope.createdAtMs (m.envelope.ttlSecs.toUInt64 * 1000) ≤ now

inductive WireMessage where
  | data (message : DirectMessage)
  | syncBloom (bloom : Bytes) (count : UInt64)
  | syncIds (ids : List String)
  | syncRequest (ids : List String)
  | syncData (messages : List DirectMessage)
  | scopeAnnounce (scopes : List String)
  /-- X25519 end-to-end for exactly one recipient; `meshSignature` is the libp2p identity
  signature of the immediate sender (relay hop). -/
  | encryptedDirect (toPeer senderEncPubkey : String) (encryptedPayload : Bytes)
      (meshSignature : Option Bytes) (hopCount maxHops : UInt8)
  | encryptedGroup (groupId : String) (encryptedPayload : Bytes)
  | peerInfo (encPubkeyHex : String) (displayName : Option String)
      (supportedScopes : List String)
deriving DecidableEq, Repr

/-! ## The hop signature of `EncryptedDirect` -/

/-- `encrypted_direct_signing_bytes`. -/
def encryptedDirectSigningBytes (toPeer senderEncPubkey : String) (encryptedPayload : Bytes)
    (hopCount maxHops : UInt8) : Bytes :=
  asBytes "MYCEL/ENC_DIRECT/v1\x00" ++ asBytes toPeer ++ [0] ++ asBytes senderEncPubkey ++ [0]
    ++ leBytes 4 encryptedPayload.length ++ encryptedPayload ++ [hopCount, maxHops]

section

variable [Prims]

/-- `sign_encrypted_direct`: the message is changed only on success. -/
def signEncryptedDirect (message : WireMessage) (keypair : Keypair) :
    Except String Unit × WireMessage :=
  match message with
  | .encryptedDirect toPeer senderEncPubkey encryptedPayload _ hopCount maxHops =>
    match Prims.identity.sign keypair (encryptedDirectSigningBytes toPeer senderEncPubkey
        encryptedPayload hopCount maxHops) with
    | none => (.error "failed to sign EncryptedDirect", message)
    | some sig => (.ok (), .encryptedDirect toPeer senderEncPubkey encryptedPayload (some sig)
        hopCount maxHops)
  | _ => (.error "not EncryptedDirect", message)

/-- `verify_encrypted_direct`. -/
def verifyEncryptedDirect (message : WireMessage) (sender : PeerId) : Bool :=
  match message with
  | .encryptedDirect toPeer senderEncPubkey encryptedPayload meshSignature hopCount maxHops =>
    match meshSignature with
    | none => false
    | some sig =>
      if sender.code ≠ 0 then false
      else
        match Prims.tryDecodeProtobuf sender.digest with
        | none => false
        | some pk => Prims.identity.verify pk (encryptedDirectSigningBytes toPeer senderEncPubkey
            encryptedPayload hopCount maxHops) sig
  | _ => false

/-- The check on a signed frame, under the key the sender's peer id carries. -/
theorem verifyEncryptedDirect_iff {toPeer key : String} {payload sig : Bytes} {hop maxHops : UInt8}
    {sender : PeerId} :
    verifyEncryptedDirect (.encryptedDirect toPeer key payload (some sig) hop maxHops) sender = true
      ↔ ∃ pk, sender.publicKey = some pk ∧ Prims.identity.verify pk
          (encryptedDirectSigningBytes toPeer key payload hop maxHops) sig = true := by
  unfold verifyEncryptedDirect PeerId.publicKey
  by_cases hcode : sender.code ≠ 0
  · simp [hcode]
  · simp only [if_neg hcode]
    cases Prims.tryDecodeProtobuf sender.digest with
    | none => simp
    | some pk => simp

end

/-! ## Scopes -/

/-- `Scope::matches`: a pattern ending in `/*` matches by what precedes it. -/
def scopeMatches (scope pattern : String) : Bool :=
  match stripSuffix pattern "/*" with
  | some pre => startsWith scope pre
  | none => scope == pattern

/-! ## Transport events -/

inductive ConnectivityMode where
  | internet
  | meshOnly
deriving DecidableEq, Repr

structure MessageAck where
  messageId : String
  accepted : Bool
deriving DecidableEq, Repr

structure StoreStats where
  count : Nat
  oldestMs : UInt64
deriving DecidableEq, Repr

inductive TransportEvent where
  | listening (address : String)
  | peerUp (peerId : String)
  | peerDown (peerId : String)
  | directReceived (fromPeer : String) (message : WireMessage)
  | scopedReceived (fromPeer scope : String) (payload : Bytes)
  | directAck (fromPeer : String) (ack : MessageAck)
  | sendFailure (toPeer reason : String)
  | connectivityChanged (mode : ConnectivityMode)
deriving DecidableEq, Repr

end Mycelium
