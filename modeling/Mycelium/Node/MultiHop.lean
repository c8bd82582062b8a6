import Mycelium.Core.SigningBytes
import Mycelium.Node.Frames
import Mycelium.Node.Symbolic

/-!
# Mycelium node — signatures over several hops

Two kinds of signed frames travel over relays, and each relay changes what was signed.

* A `Data` message keeps the author's signature, while the relay counts a hop and puts its
  own id in `from_peer`. Both are among the signed bytes. `forwarded_copy_verifies_iff`
  follows a message along any chain of relays (`Forwards`): its copies pass the next
  signature gate exactly when the gate does not look, that is for the gossip tags.
* An `EncryptedDirect` frame is signed anew at each hop, with the relay's rotating key, and
  checked against the peer id of the connection. `forwarded_encrypted_passes_iff`: it
  passes exactly when the rotating key is the key of the transport.
-/

namespace Mycelium.Node

/-! ## `Data` messages -/

section

variable [Prims]

/-- `m'` is a copy of `m` that a relay puts in its queue when `m` arrives: some node in its
loop, whatever its state, its environment and its neighbours. -/
def Forwards (m m' : DirectMessage) : Prop :=
  ∃ (_ : World) (_ : WireCodec) (c : NodeConfig) (s : NodeRunner) (view : TransportView)
    (fromPeer toPeer : String), Reachable c s
      ∧ .enqueued toPeer m' ∈ frameOutputs { s with transport := view } fromPeer (.data m)

/-- A relay forwards only below the hop limit, with one more hop and the mask applied. -/
theorem Forwards.eq_forwardCopy {m m' : DirectMessage} (h : Forwards m m') :
    m.envelope.hopCount < m.envelope.maxHops ∧ ∃ relay, m' = forwardCopy relay m := by
  obtain ⟨_, _, c, s, view, fromPeer, toPeer, -, hmem⟩ := h
  obtain ⟨m₀, hm₀, -, hhops, hcopy⟩ := frameOutputs_fromFrame _ hmem
  obtain rfl : m = m₀ := WireMessage.data.inj hm₀
  exact ⟨hhops, s.relayIdentity, hcopy⟩

/-- What is left of the signed message `orig` in a copy further down the path: the body and
the signature, and a hop count that has grown. -/
structure Travelled (orig m : DirectMessage) : Prop where
  body : m.body = orig.body
  signature : m.envelope.signature = orig.envelope.signature
  sigVersion : m.envelope.sigVersion = orig.envelope.sigVersion
  hopCount : orig.envelope.hopCount < m.envelope.hopCount

/-- One hop. Below the limit the hop counter does not saturate. -/
theorem hopCount_lt_forwardCopy {relay : RelayIdentity} {m : DirectMessage}
    (h : m.envelope.hopCount < m.envelope.maxHops) :
    m.envelope.hopCount < (forwardCopy relay m).envelope.hopCount := by
  have hadd : (forwardCopy relay m).envelope.hopCount.toNat = m.envelope.hopCount.toNat + 1 :=
    U8.toNat_satAdd_one_of_lt h
  rw [UInt8.lt_iff_toNat_lt]
  omega

/-- Along a whole path. Induction on the path: each hop keeps body and signature. -/
theorem travelled_of_path {orig m : DirectMessage} (h : Relation.TransGen Forwards orig m) :
    Travelled orig m := by
  induction h with
  | single hfwd =>
    obtain ⟨hhops, relay, rfl⟩ := hfwd.eq_forwardCopy
    exact ⟨rfl, rfl, rfl, hopCount_lt_forwardCopy hhops⟩
  | tail _ hfwd ih =>
    obtain ⟨hhops, relay, rfl⟩ := hfwd.eq_forwardCopy
    exact ⟨ih.body, ih.signature, ih.sigVersion,
      UInt8.lt_trans ih.hopCount (hopCount_lt_forwardCopy hhops)⟩

omit [Prims] in
/-- The hop count is among the bytes at the end of what is signed. -/
theorem hopCount_eq_of_bytesForSigning {e s : Envelope}
    (h : e.bytesForSigning = s.bytesForSigning) : e.hopCount = s.hopCount := by
  have htrailer : e.trailer = s.trailer := (List.append_inj' h (by simp)).2
  exact (Envelope.trailer_inj htrailer).2.2.2.1

/-- A signature made on `signed` does not verify on an envelope with another hop count. -/
theorem not_verify_of_hopCount (hideal : Prims.identity.Ideal) {e signed e' : Envelope}
    {keypair : Keypair} (hsign : e.sign keypair = (.ok (), signed))
    (hsig : e'.signature = signed.signature) (hver : e'.sigVersion = signed.sigVersion)
    (hhop : signed.hopCount ≠ e'.hopCount) (peer : PeerId) : ¬ e'.verify peer = true := by
  obtain ⟨sig, hmade, hsigned⟩ := Envelope.sign_ok hsign
  have hver1 : e'.sigVersion = 1 := by rw [hver, hsigned]
  intro hverify
  obtain ⟨sig', pk, hsig', -, hchecked⟩ := Envelope.verify_iff.mp hverify
  have hsame : sig' = sig := by
    rw [hsig, hsigned] at hsig'
    exact (Option.some.inj hsig').symm
  rw [hsame] at hchecked
  have hbytes : e'.signedBytes = signed.bytesForSigning :=
    ((hideal.verify_iff hmade pk _).mp hchecked).2
  rw [Envelope.signedBytes, hver1, if_neg (by decide)] at hbytes
  exact hhop (hopCount_eq_of_bytesForSigning hbytes).symm

/-- **Which forwarded copies verify.** For every message an author signed and every path of
relays that accepted and forwarded it, the copy at the end of the path passes the signature
gate of the next node exactly when its body is a gossip tag. -/
theorem forwarded_copy_verifies_iff (hideal : Prims.identity.Ideal) {e signed : Envelope}
    {keypair : Keypair} (hsign : e.sign keypair = (.ok (), signed)) (body : String)
    {m : DirectMessage} (hpath : Relation.TransGen Forwards { envelope := signed, body } m) :
    validateDataMessageSignature m = .ok () ↔ isGossipRelayBody body = true := by
  have htrav := travelled_of_path hpath
  rw [validateDataMessageSignature_ok_iff, htrav.body]
  constructor
  · rintro (hbody | ⟨authorId, -, hverify⟩)
    · exact hbody
    · refine absurd hverify (not_verify_of_hopCount hideal hsign htrav.signature htrav.sigVersion
        ?_ authorId)
      exact UInt8.ne_of_lt htrav.hopCount
  · intro hbody
    exact .inl hbody

end

section

attribute [local instance] symbolicPrims

/-- A message of peer 1 to peer 9 under the given body, signed at time 5000000. -/
def travellingMessage (body : String) : DirectMessage :=
  { symbolicMessage 1 (symbolicPeer 9) 5000000 with body }

/-- The copy of it that leaves the relay with relay key 3. -/
def travellingCopy (body : String) : DirectMessage :=
  forwardCopy { keypair := symbolicKey 3, createdAt := 0 } (travellingMessage body)

/-- A copy tagged as a gossip relay passes the next gate. -/
theorem forwarded_gossip_copy_verifies :
    Relation.TransGen Forwards (travellingMessage "[appstore]") (travellingCopy "[appstore]")
    ∧ validateDataMessageSignature (travellingCopy "[appstore]") = .ok () := by
  have hfwd : Forwards (travellingMessage "[appstore]") (travellingCopy "[appstore]") :=
    ⟨stillWorld 5000000, noCodec, symbolicConfig 2 3, symbolicNode 2 3 5000000,
      { knownPeers := [symbolicPeer 9] }, symbolicPeer 1, symbolicPeer 9,
      symbolicNode_reachable 2 3 5000000, by decide +kernel⟩
  have hsign : (Envelope.new 5000000 (symbolicPeer 1) (some (symbolicPeer 9)) (asBytes "hi")).sign
      (symbolicKey 1) = (.ok (), (travellingMessage "[appstore]").envelope) := by
    decide +kernel
  exact ⟨.single hfwd, (forwarded_copy_verifies_iff symbolicIdentity_ideal hsign "[appstore]"
    (.single hfwd)).mpr (by decide)⟩

/-- The author's message is accepted, one relay forwards it, and the next node refuses the
copy. -/
theorem forwarded_copy_refused :
    (Envelope.new 5000000 (symbolicPeer 1) (some (symbolicPeer 9)) (asBytes "hi")).sign
        (symbolicKey 1) = (.ok (), (travellingMessage "hi").envelope)
    ∧ validateDataMessageSignature (travellingMessage "hi") = .ok ()
    ∧ Forwards (travellingMessage "hi") (travellingCopy "hi")
    ∧ validateDataMessageSignature (travellingCopy "hi") = .error .invalidSignature := by
  refine ⟨by decide +kernel, by decide +kernel, ?_, by decide +kernel⟩
  exact ⟨stillWorld 5000000, noCodec, symbolicConfig 2 3, symbolicNode 2 3 5000000,
    { knownPeers := [symbolicPeer 9] }, symbolicPeer 1, symbolicPeer 9,
    symbolicNode_reachable 2 3 5000000, by decide +kernel⟩

end

/-! ## `EncryptedDirect` frames -/

section

variable [Prims]

/-- The gate on a signed frame: the connection's peer id carries a key under which the
signature checks. -/
theorem hopGate_pass_iff {fromPeer toPeer key : String} {payload sig : Bytes}
    {hop maxHops : UInt8} :
    hopGate fromPeer (.encryptedDirect toPeer key payload (some sig) hop maxHops) = .pass
      ↔ ∃ sender pk, Prims.parsePeerId fromPeer = some sender ∧ sender.publicKey = some pk
          ∧ Prims.identity.verify pk
            (encryptedDirectSigningBytes toPeer key payload hop maxHops) sig = true := by
  unfold hopGate
  cases hparse : Prims.parsePeerId fromPeer with
  | none => simp
  | some sender =>
    have hverify : verifyEncryptedDirect (.encryptedDirect toPeer key payload (some sig) hop
        maxHops) sender = true ↔ _ := verifyEncryptedDirect_iff
    simp only [Option.some.injEq]
    split
    · next hv =>
      obtain ⟨pk, hpk, hchecked⟩ := hverify.mp hv
      exact ⟨fun _ => ⟨sender, pk, rfl, hpk, hchecked⟩, fun _ => rfl⟩
    · next hv =>
      refine ⟨fun h => absurd h (by decide), ?_⟩
      rintro ⟨_, pk, rfl, hpk, hchecked⟩
      exact absurd (hverify.mpr ⟨pk, hpk, hchecked⟩) hv

/-- The relay's rotating key is the key its own peer id carries. -/
def RelayKeyIsTransportKey (s : NodeRunner) : Prop :=
  ∃ self, Prims.parsePeerId s.localPeerId = some self
    ∧ self.publicKey = some (Prims.identity.pub s.relayIdentity.keypair)

/-- The frame that leaves a relay whose key signs. -/
theorem forwardEncrypted_signed {relay : RelayIdentity} {toPeer key : String}
    {payload : Bytes} {sig : Option Bytes} {hop maxHops : UInt8} {sig' : Bytes}
    (h : Prims.identity.sign relay.keypair (encryptedDirectSigningBytes toPeer key payload
      (U8.satAdd hop 1) maxHops) = some sig') :
    forwardEncrypted relay toPeer key payload sig hop maxHops
      = .encryptedDirect toPeer key payload (some sig') (U8.satAdd hop 1) maxHops := by
  unfold forwardEncrypted signEncryptedDirect
  simp only [h]

/-- **Which forwarded `EncryptedDirect` frames pass.** Whatever frame a relay handles, in any
state, the `EncryptedDirect` frames it sends on pass the gate of the next hop exactly when
the relay's rotating key is the key of its transport. -/
theorem forwarded_encrypted_passes_iff [World] (hideal : Prims.identity.Ideal) {s : NodeRunner}
    (hsigns : ∀ bytes, (Prims.identity.sign s.relayIdentity.keypair bytes).isSome = true)
    {fromPeer p toPeer key : String} {msg : WireMessage} {payload : Bytes} {sig : Option Bytes}
    {hop maxHops : UInt8}
    (hmem : .sendDirect p (.encryptedDirect toPeer key payload sig hop maxHops)
      ∈ frameOutputs s fromPeer msg) :
    hopGate s.localPeerId (.encryptedDirect toPeer key payload sig hop maxHops) = .pass
      ↔ RelayKeyIsTransportKey s := by
  rcases frameOutputs_fromFrame _ hmem with
    hplain | ⟨toPeer', key', payload', sig', hop', maxHops', -, -, -, -, hw⟩
  · exact hplain.elim
  · obtain ⟨made, hmade⟩ := Option.isSome_iff_exists.mp (hsigns (encryptedDirectSigningBytes toPeer'
      key' payload' (U8.satAdd hop' 1) maxHops'))
    rw [hw, forwardEncrypted_signed hmade, hopGate_pass_iff]
    constructor
    · rintro ⟨self, pk, hparse, hpk, hchecked⟩
      rw [((hideal.verify_iff hmade pk _).mp hchecked).1] at hpk
      exact ⟨self, hparse, hpk⟩
    · rintro ⟨self, hparse, hpk⟩
      exact ⟨self, _, hparse, hpk, hideal.complete hmade⟩

end

section

attribute [local instance] symbolicPrims

@[reducible] def relayingWorld : World := stillWorld 5000000

attribute [local instance] relayingWorld

/-- An `EncryptedDirect` frame of peer 1 for peer 9, signed by peer 1 for its first hop. -/
def travellingFrame : WireMessage :=
  (signEncryptedDirect (.encryptedDirect (symbolicPeer 9) "" [] none 0 8) (symbolicKey 1)).2

/-- The relay with identity key 2 and relay key `r`, connected to peers 1 and 9. -/
def relayNode (r : UInt8) : NodeRunner :=
  { symbolicNode 2 r 5000000 with transport := { knownPeers := [symbolicPeer 1, symbolicPeer 9] } }

/-- The signature the relay key `r` puts on the forwarded frame. -/
def relayFrameSignature (r : UInt8) : Bytes :=
  (symbolicKey r).secret.toList ++ encryptedDirectSigningBytes (symbolicPeer 9) "" [] 1 8

/-- The frame passes when the relay signs with its identity key. -/
theorem forwarded_encrypted_passes_under_identity :
    .sendDirect (symbolicPeer 9) (.encryptedDirect (symbolicPeer 9) "" []
        (some (relayFrameSignature 2)) 1 8)
      ∈ frameOutputs (relayNode 2) (symbolicPeer 1) travellingFrame
    ∧ hopGate (relayNode 2).localPeerId (.encryptedDirect (symbolicPeer 9) "" []
        (some (relayFrameSignature 2)) 1 8) = .pass := by
  have hmem : .sendDirect (symbolicPeer 9) (.encryptedDirect (symbolicPeer 9) "" []
      (some (relayFrameSignature 2)) 1 8)
      ∈ frameOutputs (relayNode 2) (symbolicPeer 1) travellingFrame := by
    decide +kernel
  refine ⟨hmem, (forwarded_encrypted_passes_iff symbolicIdentity_ideal (fun _ => rfl) hmem).mpr ?_⟩
  exact ⟨{ code := 0, digest := (symbolicKey 2).secret.toList }, by decide +kernel, by decide +kernel⟩

/-- A relay with a key of its own accepts the frame and sends it on, and peer 9 refuses it. -/
theorem forwarded_encrypted_refused :
    hopGate (symbolicPeer 1) travellingFrame = .pass
    ∧ frameOutputs (relayNode 3) (symbolicPeer 1) travellingFrame
      = [.sendDirect (symbolicPeer 9) (.encryptedDirect (symbolicPeer 9) "" []
          (some (relayFrameSignature 3)) 1 8)]
    ∧ hopGate (relayNode 3).localPeerId (.encryptedDirect (symbolicPeer 9) "" []
        (some (relayFrameSignature 3)) 1 8) = .invalidSignature := by
  refine ⟨by decide +kernel, by decide +kernel, by decide +kernel⟩

end

end Mycelium.Node
