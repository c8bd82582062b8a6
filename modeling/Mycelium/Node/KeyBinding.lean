import Mycelium.Node.DataFrames
import Mycelium.Node.Symbolic
import Mycelium.Node.Tables
import Mycelium.Node.Traces

/-!
# Mycelium node — whose encryption key is stored

`peer_x25519` holds the key under which the app encrypts to a peer. Two frames write it. A
`PeerInfo` sets the key of the peer whose connection it arrived on. An `EncryptedDirect` for
this node sets the key of the author named *inside* its payload, and the signature in front of
it is the one of the connection: a peer can name another author and set that peer's key.

* `peerX25519_input` — what one input can do to the table;
* `key_announced` — when every stored key was announced by its peer.
-/

namespace Mycelium.Node

/-! ## One input -/

section

variable [World] [Prims]

/-- The frame makes the node store `pk` as the key of `p`, in the state it arrives in. -/
def SetsKey (s : NodeRunner) (fromPeer : String) (msg : WireMessage) (p : String)
    (pk : X25519Key) : Prop :=
  throttledAt s fromPeer (World.clock s.calls) = false ∧ hopGate fromPeer msg = .pass
    ∧ match msg with
      | .peerInfo key _ _ => parseX25519PublicHex key = some pk ∧ p = fromPeer
      | .encryptedDirect toPeer key payload _ _ _ => parseX25519PublicHex key = some pk
        ∧ toPeer = s.localPeerId
        ∧ ∃ plain, decryptWith payload s.encKeypair = .ok plain ∧ p = (unwrapInner plain fromPeer).1
      | _ => False

/-- Seen from `s₀`, where the frame arrived: the same identity, and only the keys it set. -/
structure KeysSince (s₀ : NodeRunner) (Sets : String → X25519Key → Prop) (s : NodeRunner) :
    Prop where
  localPeerId : s.localPeerId = s₀.localPeerId
  encKeypair : s.encKeypair = s₀.encKeypair
  keys : ∀ p pk, s.peerX25519.lookup p = some pk → s₀.peerX25519.lookup p = some pk ∨ Sets p pk

section

variable {s₀ : NodeRunner} {Sets : String → X25519Key → Prop}

omit [World] [Prims] in
theorem keysSince_peer : PeerInvariant (KeysSince s₀ Sets) where
  congr := by
    intro s s' htables h
    have hlocal : s'.localPeerId = s.localPeerId := congrArg NodeTables.localPeerId htables
    have henc : s'.encKeypair = s.encKeypair := congrArg NodeTables.encKeypair htables
    have hkeys : s'.peerX25519 = s.peerX25519 := congrArg NodeTables.peerX25519 htables
    exact ⟨hlocal.trans h.localPeerId, henc.trans h.encKeypair, hkeys ▸ h.keys⟩
  messages _ _ _ _ h := ⟨h.localPeerId, h.encKeypair, h.keys⟩

omit [World] [Prims] in
/-- Reputations are not looked at. -/
theorem keysSince_reputations {f : NodeRunner → KvTree.Of String PeerReputation} :
    Keeps (KeysSince s₀ Sets) True
      (modify fun s => { s with peerReputations := f s } : NodeM Unit) :=
  Keeps.modify fun _ h => ⟨h.localPeerId, h.encKeypair, h.keys⟩

omit [World] [Prims] in
theorem KeysSince.erase {s : NodeRunner} (h : KeysSince s₀ Sets s) (peerId : String) :
    KeysSince s₀ Sets { s with peerX25519 := s.peerX25519.erase peerId } := by
  refine ⟨h.localPeerId, h.encKeypair, fun p pk hp => h.keys p pk ?_⟩
  by_cases hpeer : p = peerId
  · rw [hpeer] at hp
    simp [AList.lookup_erase] at hp
  · rwa [AList.lookup_erase_ne hpeer] at hp

omit [Prims] in
/-- Everything but the two frames and the end of a connection leaves the keys alone. -/
theorem keysSince_host : HostInvariant (KeysSince s₀ Sets) (fun _ => True) := by
  refine keysSince_peer.peerHost (fun peer => ?_) fun _ peerId h => h.erase peerId
  refine Keeps.bind (keysSince_peer.worldCall _) fun now => Keeps.get_bind fun s _ => ?_
  split
  · exact Keeps.pure
  · exact Keeps.bind keysSince_reputations fun _ => Keeps.pure

theorem keysSince_handleData (fromPeer : String) (m : DirectMessage) :
    Keeps (KeysSince s₀ Sets) True (handleData fromPeer m) := by
  have hstrike : Keeps (KeysSince s₀ Sets) True (registerStrike fromPeer) :=
    Keeps.bind (keysSince_peer.worldCall _) fun _ => keysSince_reputations
  have hreward : Keeps (KeysSince s₀ Sets) True (rewardPeer fromPeer) := by
    refine Keeps.modify fun s h => ?_
    split
    · exact h
    · exact ⟨h.localPeerId, h.encKeypair, h.keys⟩
  exact keysSince_host.handleData hstrike fun _ _ => keysSince_host.ingestData
    (fun _ => keysSince_host.guardCheck _) (keysSince_host.ingest m false) hstrike hreward trivial
    fun _ _ _ _ => trivial

omit [World] [Prims] in
/-- A key that the frame sets. -/
theorem keysSince_storeEncKey {peer key : String}
    (h : ∀ pk, parseX25519PublicHex key = some pk → Sets peer pk) :
    Keeps (KeysSince s₀ Sets) True (storeEncKey peer key) := by
  unfold storeEncKey
  split
  · next pk hpk =>
    refine Keeps.modify fun s hs => ⟨hs.localPeerId, hs.encKeypair, fun p pk' hp => ?_⟩
    by_cases hpeer : p = peer
    · subst hpeer
      obtain rfl : pk = pk' := by simpa [AList.lookup_insert] using hp
      exact .inr (h pk hpk)
    · rw [AList.lookup_insert_ne hpeer] at hp
      exact hs.keys p pk' hp
  · exact Keeps.pure

end

/-- A frame stores only the keys it sets. -/
theorem keysSince_frame {fromPeer : String} {msg : WireMessage} {s : NodeRunner} :
    KeysSince s (SetsKey s fromPeer msg) (finalState (handleIncomingDirect fromPeer msg s)) := by
  by_cases hthrottled : throttledAt s fromPeer (World.clock s.calls) = true
  · rw [handleIncomingDirect_eq, if_pos hthrottled]
    exact ⟨rfl, rfl, fun _ _ h => .inl h⟩
  · have hfree : throttledAt s fromPeer (World.clock s.calls) = false := by simpa using hthrottled
    have hhost : HostInvariant (KeysSince s (SetsKey s fromPeer msg)) (fun _ => True) :=
      keysSince_host
    refine (hhost.handleIncomingDirect (.inr trivial) (fun m _ => ?_) (fun messages _ => ?_) ?_
      ?_).finalState ⟨rfl, rfl, fun _ _ h => .inl h⟩
    · exact keysSince_handleData fromPeer m
    · exact Keeps.forM fun m _ => Keeps.bind (hhost.ingest m false) fun _ => Keeps.pure
    · rintro key displayName scopes rfl
      exact keysSince_storeEncKey fun pk hpk => ⟨hfree, rfl, hpk, rfl⟩
    · rintro toPeer key payload sig hop maxHops rfl hgate
      refine hhost.handleEncryptedDirect (fun _ _ _ _ _ => trivial) (fun s' plain hs' hlocal hplain => ?_)
        (fun _ _ _ _ _ _ => trivial)
      rw [hs'.localPeerId] at hlocal
      rw [hs'.encKeypair] at hplain
      exact keysSince_storeEncKey fun pk hpk => ⟨hfree, hgate, hpk, hlocal, plain, hplain, rfl⟩

variable [WireCodec]

/-- **What one input does to the key table**: frames set the keys they carry, everything else
sets none. -/
theorem peerX25519_input {s : NodeRunner} {input : Input} {p : String} {pk : X25519Key}
    (h : (finalState (handleInput input s)).peerX25519.lookup p = some pk) :
    s.peerX25519.lookup p = some pk
      ∨ ∃ fromPeer msg, input = .frame fromPeer msg ∧ SetsKey s fromPeer msg p pk := by
  by_cases hframe : ∃ fromPeer msg, input = .frame fromPeer msg
  · obtain ⟨fromPeer, msg, rfl⟩ := hframe
    rcases keysSince_frame.keys p pk h with hold | hset
    · exact .inl hold
    · exact .inr ⟨fromPeer, msg, rfl, hset⟩
  · have hhost : HostInvariant (KeysSince s fun _ _ => False) (fun _ => True) := keysSince_host
    have hkeeps : Keeps (KeysSince s fun _ _ => False) True (handleInput input) :=
      hhost.handleInput fun fromPeer msg hinput => absurd ⟨fromPeer, msg, hinput⟩ hframe
    rcases (hkeeps.finalState ⟨rfl, rfl, fun _ _ h => .inl h⟩).keys p pk h with hold | hset
    · exact .inl hold
    · exact hset.elim

/-! ## Runs -/

/-- Every stored key was set by a frame of the run. -/
theorem key_origin {c : NodeConfig} {inputs : List (TransportView × Input)} {s : NodeRunner}
    (hrun : runLoop inputs (.new c) = .ok () s) {p : String} {pk : X25519Key}
    (h : s.peerX25519.lookup p = some pk) :
    ∃ s' fromPeer msg, Handles c inputs s' (.frame fromPeer msg) ∧ SetsKey s' fromPeer msg p pk := by
  rcases origin (Q := fun s => s.peerX25519.lookup p = some pk) (fun _ _ h => h) hrun h with
    hstart | ⟨s', input, hhandles, hold, hnew⟩
  · -- the table is empty when the loop begins
    have hhost : HostInvariant (KeysSince (NodeRunner.new c) fun _ _ => False) (fun _ => True) :=
      keysSince_host
    have hstarted := (Keeps.bind hhost.startup fun _ => Keeps.pure (a := ())).finalState
      (s := NodeRunner.new c) ⟨rfl, rfl, fun _ _ h => .inl h⟩
    rcases hstarted.keys p pk hstart with hnone | hset
    · cases hnone
    · exact hset.elim
  · rcases peerX25519_input hnew with hsame | ⟨fromPeer, msg, rfl, hset⟩
    · exact absurd hsame hold
    · exact ⟨s', fromPeer, msg, hhandles, hset⟩

/-- The frame, arriving on the connection of `p`, announces `pk` as a key: in a `PeerInfo`, or
as the sender's key of an `EncryptedDirect` that `p` signed. -/
def AnnouncesKey (p : String) (msg : WireMessage) (pk : X25519Key) : Prop :=
  hopGate p msg = .pass
    ∧ match msg with
      | .peerInfo key _ _ => parseX25519PublicHex key = some pk
      | .encryptedDirect _ key _ _ _ _ => parseX25519PublicHex key = some pk
      | _ => False

/-- **When every stored key was announced by its peer.** In every run in which each
`EncryptedDirect` frame whose key the node stores names, inside its payload, the peer it came
from, the key stored for a peer was announced on the connection of that peer. -/
theorem key_announced {c : NodeConfig} {inputs : List (TransportView × Input)}
    (hauthor : ∀ s fromPeer toPeer key payload sig hop maxHops plain,
      Handles c inputs s
        (.frame fromPeer (.encryptedDirect toPeer key payload sig hop maxHops)) →
      throttledAt s fromPeer (World.clock s.calls) = false →
      hopGate fromPeer (.encryptedDirect toPeer key payload sig hop maxHops) = .pass →
      toPeer = s.localPeerId → decryptWith payload s.encKeypair = .ok plain →
      (parseX25519PublicHex key).isSome = true → (unwrapInner plain fromPeer).1 = fromPeer)
    {s : NodeRunner} (hrun : runLoop inputs (.new c) = .ok () s) {p : String} {pk : X25519Key}
    (h : s.peerX25519.lookup p = some pk) :
    ∃ s' msg, Handles c inputs s' (.frame p msg) ∧ AnnouncesKey p msg pk := by
  obtain ⟨s', fromPeer, msg, hhandles, hfree, hgate, hset⟩ := key_origin hrun h
  cases msg with
  | peerInfo key displayName scopes =>
    obtain ⟨hpk, rfl⟩ := hset
    exact ⟨s', _, hhandles, hgate, hpk⟩
  | encryptedDirect toPeer key payload sig hop maxHops =>
    obtain ⟨hpk, hlocal, plain, hplain, rfl⟩ := hset
    have hname := hauthor s' fromPeer toPeer key payload sig hop maxHops plain hhandles hfree hgate
      hlocal hplain (by rw [hpk]; rfl)
    rw [hname]
    exact ⟨s', _, hhandles, hgate, hpk⟩
  | _ => exact hset.elim

end

section

attribute [local instance] symbolicPrims noCodec

@[reducible] def bindingWorld : World := stillWorld 5000000

attribute [local instance] bindingWorld

/-- A payload that the node of peer 2 decrypts to `plain`. -/
def sealedForTwo (plain : Bytes) : Bytes :=
  List.replicate 32 1 ++ List.replicate 12 0 ++ List.replicate 32 3 ++ plain

/-- An `EncryptedDirect` frame for peer 2 that the peer with key `b` signs. It announces the
encryption key of all sevens, under the author its payload names, if it names one. -/
def keyFrame (b : UInt8) (plain : Bytes) : TransportView × Input :=
  ({}, .frame (symbolicPeer b) (signEncryptedDirect (.encryptedDirect (symbolicPeer 2)
    (hexEncode (List.replicate 32 7)) (sealedForTwo plain) none 0 8) (symbolicKey b)).2)

/-- The node of peer 2 after the frame. -/
def keyedNode (b : UInt8) (plain : Bytes) : NodeRunner :=
  finalState (runLoop [keyFrame b plain] (.new (symbolicConfig 2 3)))

/-- Peer 1 announces its key without naming an author. -/
theorem key_announced_by_peer :
    (keyedNode 1 (asBytes "hi")).peerX25519.lookup (symbolicPeer 1) = some (Vector.replicate 32 7)
    ∧ ∃ s' msg, Handles (symbolicConfig 2 3) [keyFrame 1 (asBytes "hi")] s'
        (.frame (symbolicPeer 1) msg) ∧ AnnouncesKey (symbolicPeer 1) msg (Vector.replicate 32 7) := by
  have hlookup : (keyedNode 1 (asBytes "hi")).peerX25519.lookup (symbolicPeer 1)
      = some (Vector.replicate 32 7) := by decide +kernel
  have hrun : runLoop [keyFrame 1 (asBytes "hi")] (.new (symbolicConfig 2 3))
      = .ok () (keyedNode 1 (asBytes "hi")) :=
    eq_ok_of_succeeded (by decide +kernel)
  refine ⟨hlookup, key_announced ?_ hrun hlookup⟩
  intro s fromPeer toPeer key payload sig hop maxHops plain hhandles _ _ _ hplain _
  obtain ⟨hinput, s₀, hs₀, rfl⟩ := handles_singleton hhandles
  -- the frame as it is after signing
  replace hinput : Input.frame fromPeer (.encryptedDirect toPeer key payload sig hop maxHops)
      = .frame (symbolicPeer 1) (.encryptedDirect (symbolicPeer 2)
        (hexEncode (List.replicate 32 7)) (sealedForTwo (asBytes "hi"))
        (some ((symbolicKey 1).secret.toList ++ encryptedDirectSigningBytes (symbolicPeer 2)
          (hexEncode (List.replicate 32 7)) (sealedForTwo (asBytes "hi")) 0 8)) 0 8) := hinput
  simp only [Input.transportEvent.injEq, TransportEvent.directReceived.injEq,
    WireMessage.encryptedDirect.injEq] at hinput
  obtain ⟨rfl, -, -, rfl, -⟩ := hinput
  have henc : s₀.encKeypair = (symbolicConfig 2 3).encKeypair :=
    (serving_reachable ⟨[], hs₀⟩).encKeypair
  have hdecrypts : decryptWith (sealedForTwo (asBytes "hi")) (symbolicConfig 2 3).encKeypair
      = .ok (asBytes "hi") := by decide +kernel
  rw [henc, hdecrypts] at hplain
  obtain rfl := Except.ok.inj hplain
  decide +kernel

/-- A payload that names peer 1 as its author. -/
def namingPeerOne : Bytes := (wrapInner (symbolicPeer 1) (asBytes "hi")).getD []

/-- Peer 4 names peer 1 as the author and sets the key of peer 1, which has sent nothing. -/
theorem key_set_by_other_peer :
    runLoop [keyFrame 4 namingPeerOne] (.new (symbolicConfig 2 3))
        = .ok () (keyedNode 4 namingPeerOne)
    ∧ (keyedNode 4 namingPeerOne).peerX25519.lookup (symbolicPeer 1)
        = some (Vector.replicate 32 7)
    ∧ ¬ ∃ s' msg, Handles (symbolicConfig 2 3) [keyFrame 4 namingPeerOne] s'
        (.frame (symbolicPeer 1) msg) := by
  refine ⟨eq_ok_of_succeeded (by decide +kernel), by decide +kernel, ?_⟩
  rintro ⟨s', msg, hhandles⟩
  obtain ⟨hinput, -⟩ := handles_singleton hhandles
  have hpeer : symbolicPeer 1 = symbolicPeer 4 := by
    simp only [keyFrame, Input.frame, Input.transportEvent.injEq,
      TransportEvent.directReceived.injEq] at hinput
    exact hinput.1
  exact absurd hpeer (by decide +kernel)

end

end Mycelium.Node
