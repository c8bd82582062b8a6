import Mycelium.Node.DirectPeers
import Mycelium.Node.KeyBinding
import Mathlib.Data.String.Basic

/-!
# Mycelium node — the peers of the node and of its transport

The transport tracks peers under a cap, and the node keeps a list of its own and tables beside it:
the scopes a peer announced and the key to encrypt to it. The node hears of a peer that comes or
goes through `PeerUp` and `PeerDown` only. A peer that goes because another one takes its place is
removed from the set without a `PeerDown`, and when its connection closes it is not in the set any
more; and a `PeerInfo` is stored whoever it comes from.

* `RosterInvariant` — what survives everything but peers that come and go and announced scopes;
* `PeerSystem` — the transport and the node, one event of the swarm at a time;
* `NoEviction` / `InfoFromKnown` — what the two views need of an event;
* `peer_views_agree` — events that meet both keep the views in agreement, in every run.
-/

namespace Mycelium.Node

open Trail

/-! ## Invariants of the peer list -/

section

variable [World]

/-- `I` speaks about the peers, their scopes and the view of the transport only. -/
structure RosterInvariant (I : NodeRunner → Prop) : Prop where
  congr : ∀ s s' : NodeRunner, s'.peers = s.peers → s'.peerScopes = s.peerScopes →
    s'.transport = s.transport → I s → I s'

namespace RosterInvariant

variable {I : NodeRunner → Prop} (hI : RosterInvariant I)

include hI

omit [World] in
/-- A change of anything else. -/
theorem other {f : NodeRunner → NodeRunner} (hpeers : ∀ s, (f s).peers = s.peers)
    (hscopes : ∀ s, (f s).peerScopes = s.peerScopes) (hview : ∀ s, (f s).transport = s.transport) :
    Keeps I True (modify f : NodeM Unit) :=
  Keeps.modify fun s hs => hI.congr s _ (hpeers s) (hscopes s) (hview s) hs

omit [World] in
/-- A call to the environment. -/
theorem worldCall {α : Type} (f : Nat → α) : Keeps I True (worldCall f) :=
  Keeps.modifyGet fun s hs => hI.congr s _ rfl rfl rfl hs

omit [World] in
/-- The guard is not part of the roster. -/
theorem setGuard {s : NodeRunner} (hs : I s) (ingestGuard : IngestGuard) :
    I { s with ingestGuard } :=
  hI.congr s _ rfl rfl rfl hs

omit [World] in
/-- So its checks leave the roster alone. -/
theorem guardCheck (check : IngestGuard → Except IngestReject Unit × IngestGuard) :
    Keeps I True (guardCheck check) :=
  Keeps.modifyGet fun _ hs => hI.setGuard hs _

/-- Sending and queueing leave the peers alone. -/
theorem wire : WireInvariant I True (fun _ => True) where
  worldCall := hI.worldCall
  updateMetrics _ := hI.other (fun _ => rfl) (fun _ => rfl) (fun _ => rfl)
  enqueue _ _ _ := enqueue_keeps hI.worldCall (fun s _ hs => hI.congr s _ rfl rfl rfl hs)
    (fun s _ hs => hI.congr s _ rfl rfl rfl hs) trivial
    (hI.other (fun _ => rfl) (fun _ => rfl) (fun _ => rfl))
  emit _ _ := hI.other (fun _ => rfl) (fun _ => rfl) (fun _ => rfl)
  plain _ _ := trivial

/-- Strikes are kept in another table. -/
theorem registerStrike (peer : String) : Keeps I True (registerStrike peer) :=
  Keeps.bind (hI.worldCall _) fun _ => hI.other (fun _ => rfl) (fun _ => rfl) (fun _ => rfl)

omit [World] in
/-- So are rewards. -/
theorem rewardPeer (peer : String) : Keeps I True (rewardPeer peer) := by
  refine hI.other ?_ ?_ ?_
  · intro s
    split <;> rfl
  · intro s
    split <;> rfl
  · intro s
    split <;> rfl

omit [World] in
/-- So are the keys of peers. -/
theorem storeEncKey (peer key : String) : Keeps I True (storeEncKey peer key) := by
  unfold Node.storeEncKey
  split
  · exact hI.other (fun _ => rfl) (fun _ => rfl) (fun _ => rfl)
  · exact Keeps.pure

variable [Prims]

/-- The pipeline writes the store. -/
theorem ingest (m : DirectMessage) : Keeps I True (ingest m false) := by
  refine Keeps.bind (hI.worldCall _) fun _ => Keeps.ite (fun _ => Keeps.pure) fun _ => ?_
  refine Keeps.ite (fun h => absurd h (by simp)) fun _ => ?_
  refine Keeps.get_bind fun _ _ => Keeps.ite (fun _ => Keeps.pure) fun _ => ?_
  refine Keeps.bind (hI.other (fun _ => rfl) (fun _ => rfl) (fun _ => rfl)) fun _ => ?_
  refine Keeps.bind (hI.worldCall _) fun _ => ?_
  exact Keeps.bind (hI.other (fun _ => rfl) (fun _ => rfl) (fun _ => rfl)) fun _ => Keeps.pure

/-- A `Data` frame changes no roster. -/
theorem handleData (fromPeer : String) (m : DirectMessage) :
    Keeps I True (handleData fromPeer m) :=
  hI.wire.handleData (hI.registerStrike fromPeer) fun _ _ =>
    hI.wire.ingestData (fun _ => hI.guardCheck _) (hI.ingest m) (hI.registerStrike fromPeer)
      (hI.rewardPeer fromPeer) trivial fun _ _ _ _ => trivial

/-- A frame, given what announcements do to the scopes. -/
theorem gated {fromPeer : String} {msg : WireMessage}
    (hinfo : ∀ key displayName scopes, msg = .peerInfo key displayName scopes →
      Keeps I True (storePeerScopes fromPeer (validatedScopes scopes)))
    (hannounce : ∀ scopes, msg = .scopeAnnounce scopes →
      Keeps I True (handleScopeAnnounce fromPeer scopes)) :
    Keeps I True (afterGate (hopGate fromPeer msg) (handleWireMessage fromPeer msg)) := by
  refine hI.wire.handleGatedWith (.inr trivial) (fun m _ => hI.handleData fromPeer m) ?_ ?_
    hannounce ?_
  · intro messages _
    exact Keeps.forM fun m _ => Keeps.bind (hI.ingest m) fun _ => Keeps.pure
  · intro key displayName scopes hmsg
    exact Keeps.bind (hI.storeEncKey fromPeer key) fun _ => hinfo key displayName scopes hmsg
  · intro toPeer key payload sig hop maxHops _ _
    exact hI.wire.handleEncryptedDirect (fun _ _ _ _ _ => trivial)
      (fun _ _ _ _ _ => hI.storeEncKey _ _) (fun _ _ _ _ _ _ => trivial)

/-- Nor does gossip. -/
theorem scopedReceived [WireCodec] (fromPeer scope : String) (payload : Bytes) :
    Keeps I True (handleScopedReceived fromPeer scope payload) := by
  refine Keeps.get_bind fun _ _ => Keeps.ite (fun _ => ?_) (fun _ => Keeps.pure)
  refine Keeps.bind (hI.worldCall _) fun _ => Keeps.bind (hI.guardCheck _) fun res => ?_
  cases res with
  | error reason => exact hI.wire.recordIngestReject reason
  | ok u =>
    cases gossipBody scope payload with
    | none => exact Keeps.pure
    | some body =>
      refine Keeps.bind (hI.worldCall _) fun _ => Keeps.bind (hI.guardCheck _) fun res => ?_
      cases res with
      | error reason => exact hI.wire.recordIngestReject reason
      | ok u =>
        exact Keeps.bind (hI.ingest _) fun _ =>
          Keeps.ite (fun _ => hI.wire.emit _ trivial) (fun _ => Keeps.pure)

/-- What a new peer is told. -/
theorem greet (peerId : String) :
    Keeps I True (do sendScopeAnnounce peerId; sendPeerInfo peerId; sendSyncBloom peerId) := by
  have hsend : ∀ m, Keeps I True (sendDirect peerId m) :=
    fun m => hI.wire.sendDirect trivial (.inr trivial)
  refine Keeps.bind (Keeps.get_bind fun _ _ => hsend _) fun _ => ?_
  refine Keeps.bind (Keeps.get_bind fun _ _ => hsend _) fun _ => ?_
  exact Keeps.bind hI.wire.listIdsWindow fun _ =>
    Keeps.ite (fun _ => Keeps.pure) (fun _ => hsend _)

end RosterInvariant

/-! ## One event of the transport -/

/-- The peers and the scopes, seen from `s₀`: the same peers, and scopes of those who had some or
may have. -/
structure RosterSince (s₀ : NodeRunner) (A : String → Prop) (s : NodeRunner) : Prop where
  peers : s.peers = s₀.peers
  transport : s.transport = s₀.transport
  scopes : ∀ p ∈ s.peerScopes, p ∈ s₀.peerScopes ∨ A p

section

variable {s₀ : NodeRunner} {A : String → Prop}

omit [World] in
/-- What happened to the roster since a state is an invariant. -/
theorem rosterSince_roster : RosterInvariant (RosterSince s₀ A) where
  congr := by
    intro s s' hpeers hscopes hview h
    exact ⟨hpeers.trans h.peers, hview.trans h.transport, hscopes ▸ h.scopes⟩

omit [World] in
/-- Nothing has happened yet. -/
theorem RosterSince.refl : RosterSince s₀ A s₀ := ⟨rfl, rfl, fun _ hp => .inl hp⟩

omit [World] in
/-- Announced scopes are stored for a peer that may announce them. -/
theorem rosterSince_storePeerScopes {peer : String} {validated : List String}
    (h : validated ≠ [] → A peer) :
    Keeps (RosterSince s₀ A) True (storePeerScopes peer validated) := by
  unfold storePeerScopes
  refine Keeps.ite (fun _ => Keeps.pure) fun hne => Keeps.modify fun s hs => ?_
  refine ⟨hs.peers, hs.transport, ?_⟩
  intro p hp
  rcases (AList.mem_insert _).mp hp with rfl | hp
  · exact .inr (h fun hnil => hne (by rw [hnil]; rfl))
  · exact hs.scopes p hp

end

variable [Prims]

/-- The frame makes the node store scopes of its sender. -/
def SetsScopes (s : NodeRunner) (fromPeer : String) (msg : WireMessage) : Prop :=
  throttledAt s fromPeer (World.clock s.calls) = false
    ∧ match msg with
      | .peerInfo _ _ scopes => validatedScopes scopes ≠ []
      | .scopeAnnounce _ => fromPeer ∈ s.transport.knownPeers
      | _ => False

/-- What a frame does to the peers and their scopes. -/
theorem rosterSince_frame (s : NodeRunner) (fromPeer : String) (msg : WireMessage) :
    RosterSince s (fun p => p = fromPeer ∧ SetsScopes s fromPeer msg)
      (finalState (handleIncomingDirect fromPeer msg s)) := by
  rw [handleIncomingDirect_eq]
  by_cases hthrottled : throttledAt s fromPeer (World.clock s.calls) = true
  · rw [if_pos hthrottled]
    exact ⟨rfl, rfl, fun _ hp => .inl hp⟩
  rw [if_neg hthrottled]
  have hfree : throttledAt s fromPeer (World.clock s.calls) = false := by simpa using hthrottled
  refine (rosterSince_roster.gated ?_ ?_).finalState ⟨rfl, rfl, fun _ hp => .inl hp⟩
  · rintro key displayName scopes rfl
    exact rosterSince_storePeerScopes fun hne => ⟨rfl, hfree, hne⟩
  · rintro scopes rfl
    refine Keeps.get_bind fun s' hs' => Keeps.ite (fun hknown => ?_) (fun _ => Keeps.pure)
    rw [hs'.transport] at hknown
    exact rosterSince_storePeerScopes fun _ => ⟨rfl, hfree, hknown⟩

/-- A new peer is entered in the list. -/
theorem rosterSince_peerUp (s : NodeRunner) {peer : String} (hrelay : isRelayPeer peer = false) :
    RosterSince { s with peers := setInsert s.peers peer } (fun _ => False)
      (finalState (handlePeerUp peer s)) := by
  have hrun : handlePeerUp peer s
      = (do sendScopeAnnounce peer; sendPeerInfo peer; sendSyncBloom peer : NodeM Unit)
          { s with peers := setInsert s.peers peer } := by
    unfold handlePeerUp
    rw [if_neg (by simp [hrelay])]
    rfl
  rw [hrun]
  exact (rosterSince_roster.greet peer).finalState .refl

/-! ## The transport and the node -/

/-- What the transport reports about itself; the order of the peers does not matter to anything
here. -/
def Libp2pTransport.view (t : Libp2pTransport) : TransportView where
  knownPeers := t.knownPeers.sort (· ≤ ·)
  connectedPeerCount := t.peerCap.peers.card
  maxDirectPeers := t.peerCap.maxPeers
  peerCapRejections := t.peerCap.rejections.toNat

/-- The transport and the node. `named` is kept for the record: the authors whose key was last
written by an `EncryptedDirect` frame that names them, and not by a `PeerInfo`. -/
structure PeerSystem where
  transport : Libp2pTransport
  node : NodeRunner
  named : Finset String := ∅

/-- The swarm reports something, or the node sends to a peer, at an instant. -/
inductive SystemEvent where
  | swarm (now : Nat) (e : SwarmEvent)
  | sent (now : Nat) (peer : String)

/-- The author whose key an `EncryptedDirect` frame makes the node store. -/
def namedBy (s : NodeRunner) (fromPeer : String) (msg : WireMessage) : Option String :=
  match msg with
  | .encryptedDirect toPeer key payload _ _ _ =>
    if throttledAt s fromPeer (World.clock s.calls) = false ∧ hopGate fromPeer msg = .pass
        ∧ toPeer = s.localPeerId ∧ (parseX25519PublicHex key).isSome then
      match decryptWith payload s.encKeypair with
      | .ok plain => some (unwrapInner plain fromPeer).1
      | .error _ => none
    else none
  | _ => none

/-- The frame is a `PeerInfo` whose key the node stores. -/
def setsInfoKey (s : NodeRunner) (fromPeer : String) (msg : WireMessage) : Bool :=
  match msg with
  | .peerInfo key _ _ =>
    throttledAt s fromPeer (World.clock s.calls) = false && (parseX25519PublicHex key).isSome
  | _ => false

/-- The record of the named authors, after an event that the node handles in state `s`. -/
def namedAfter (s : NodeRunner) (named : Finset String) : TransportEvent → Finset String
  | .peerDown peer => named.erase peer
  | .directReceived fromPeer msg =>
    match namedBy s fromPeer msg with
    | some author => insert author named
    | none => if setsInfoKey s fromPeer msg then named.erase fromPeer else named
  | _ => named

variable [WireCodec]

/-- The node handles an event that the transport returns. -/
def PeerSystem.handle (sys : PeerSystem) (t : Libp2pTransport) (event : TransportEvent) :
    PeerSystem where
  transport := t
  node := finalState (step t.view (.transportEvent event) sys.node)
  named := namedAfter { sys.node with transport := t.view } sys.named event

/-- The transport handles what the swarm reports, and the node what the transport makes of it. A
handler that fails ends the loop; the state it leaves counts as well. -/
def PeerSystem.step (sys : PeerSystem) : SystemEvent → PeerSystem
  | .swarm now e =>
    match sys.transport.handleSwarmEvent now e with
    | (t, some event) => sys.handle t event
    | (t, none) => { sys with transport := t }
  | .sent now peer => { sys with transport := sys.transport.sendDirect now peer }

/-- Both views agree: the same peers, no scopes of others, and no key of others that came from a
`PeerInfo`. -/
structure ViewsAgree (sys : PeerSystem) : Prop where
  peers : ∀ p, p ∈ sys.node.peers ↔ p ∈ sys.transport.knownPeers
  scopes : ∀ p ∈ sys.node.peerScopes, p ∈ sys.transport.knownPeers
  keys : ∀ p ∈ sys.node.peerX25519, p ∉ sys.named → p ∈ sys.transport.knownPeers

/-- A peer leaves the capped set exactly if a `PeerDown` is returned for it, which is then all
that is returned. -/
def LeavesWithPeerDown (sys : PeerSystem) : SystemEvent → Prop
  | .swarm now e => ∀ p,
    (p ∈ sys.transport.peerCap.peers
      ∧ p ∉ (sys.transport.handleSwarmEvent now e).1.peerCap.peers)
    ↔ (sys.transport.handleSwarmEvent now e).2 = some (.peerDown p)
  | .sent now peer => (sys.transport.sendDirect now peer).peerCap.peers = sys.transport.peerCap.peers

/-! ## What an event needs -/

/-- Nobody is admitted who would take another peer's place. -/
def NoEviction (sys : PeerSystem) : SystemEvent → Prop
  | .swarm _ (.connectionEstablished peer) | .swarm _ (.identifyReceived peer) =>
    sys.transport.Remote peer → peer ∉ sys.transport.peerCap.peers →
      sys.transport.peerCap.peers.card < sys.transport.peerCap.maxPeers
  | _ => True

instance (sys : PeerSystem) : ∀ e, Decidable (NoEviction sys e)
  | .swarm _ (.connectionEstablished peer) | .swarm _ (.identifyReceived peer) =>
    inferInstanceAs (Decidable (sys.transport.Remote peer → peer ∉ sys.transport.peerCap.peers →
      sys.transport.peerCap.peers.card < sys.transport.peerCap.maxPeers))
  | .swarm _ (.newListenAddr _) | .swarm _ (.connectionClosed _) | .swarm _ (.directRequest _ _)
  | .swarm _ (.directResponse _ _) | .swarm _ (.outboundFailure _ _)
  | .swarm _ (.gossipMessage _ _ _) | .swarm _ .other | .sent _ _ => .isTrue trivial

/-- A `PeerInfo` that the node stores something of comes from a known peer. -/
def InfoFromKnown (sys : PeerSystem) : SystemEvent → Prop
  | .swarm _ (.directRequest peer (.peerInfo key _ scopes)) =>
    throttledAt sys.node peer (World.clock sys.node.calls) = false →
      ((parseX25519PublicHex key).isSome ∨ validatedScopes scopes ≠ []) →
        peer ∈ sys.transport.knownPeers
  | _ => True

/-! ## What the transport returns -/

/-- Events that neither bring nor take a peer, and are no frames. -/
def QuietEvent : TransportEvent → Prop
  | .peerUp _ => False
  | .peerDown _ => False
  | .directReceived _ _ => False
  | _ => True

/-- What became of the capped set, and what is returned. -/
inductive Reported (t : Libp2pTransport) (e : SwarmEvent) (t' : Libp2pTransport) :
    Option TransportEvent → Prop where
  | up (p : String) (hremote : t.Remote p) (hnew : p ∉ t.peerCap.peers)
      (hpeers : t'.peerCap.peers = insert p t.peerCap.peers) : Reported t e t' (some (.peerUp p))
  | down (p : String) (hmem : p ∈ t.peerCap.peers)
      (hpeers : t'.peerCap.peers = t.peerCap.peers.erase p) : Reported t e t' (some (.peerDown p))
  | frame (p : String) (msg : WireMessage) (he : e = .directRequest p msg)
      (hpeers : t'.peerCap.peers = t.peerCap.peers) : Reported t e t' (some (.directReceived p msg))
  | quiet (event : TransportEvent) (hquiet : QuietEvent event)
      (hpeers : t'.peerCap.peers = t.peerCap.peers) : Reported t e t' (some event)
  | nothing (hpeers : t'.peerCap.peers = t.peerCap.peers) : Reported t e t' none

omit [World] [Prims] [WireCodec] in
/-- A new peer is reported when there is room for it. -/
theorem peerUp_reported {t : Libp2pTransport} {e : SwarmEvent} {now : Nat} {peer : String}
    (hroom : t.Remote peer → peer ∉ t.peerCap.peers →
      t.peerCap.peers.card < t.peerCap.maxPeers) :
    Reported t e (t.peerUp now peer).1 (t.peerUp now peer).2 := by
  by_cases hnew : t.Remote peer ∧ peer ∉ t.peerCap.peers
  · have hup := Libp2pTransport.peerUp_new hnew.1 hnew.2 (hroom hnew.1 hnew.2) now
    obtain ⟨hpeers, hevent⟩ := hup
    rw [hevent]
    exact .up peer hnew.1 hnew.2 hpeers
  · have hold : t.Remote peer → peer ∈ t.peerCap.peers := by
      intro hremote
      by_contra hmem
      exact hnew ⟨hremote, hmem⟩
    obtain ⟨hpeers, hevent⟩ := Libp2pTransport.peerUp_old hold now
    rw [hevent]
    exact .nothing hpeers

omit [World] [Prims] [WireCodec] in
/-- **Without an eviction, a peer that comes or goes is reported.** -/
theorem handleSwarmEvent_reported {sys : PeerSystem} {now : Nat} {e : SwarmEvent}
    (h : NoEviction sys (.swarm now e)) :
    Reported sys.transport e (sys.transport.handleSwarmEvent now e).1
      (sys.transport.handleSwarmEvent now e).2 := by
  cases e with
  | connectionEstablished peer => exact peerUp_reported h
  | identifyReceived peer => exact peerUp_reported h
  | connectionClosed peer =>
    show Reported _ _ (sys.transport.peerDown peer).1 (sys.transport.peerDown peer).2
    unfold Libp2pTransport.peerDown
    split
    · next hmem => exact .down peer hmem.2 rfl
    · exact .nothing rfl
  | directRequest peer message => exact .frame peer message rfl (DirectPeerCap.touch_peers _ _ _)
  | newListenAddr address => exact .quiet _ trivial rfl
  | directResponse peer ack => exact .quiet _ trivial rfl
  | outboundFailure peer reason => exact .quiet _ trivial rfl
  | gossipMessage source topic data => exact .quiet _ trivial rfl
  | other => exact .nothing rfl

omit [World] [Prims] [WireCodec] in
/-- Without an eviction a peer leaves when its connection closes, and that is reported. -/
theorem leavesWithPeerDown_of_noEviction {sys : PeerSystem} {e : SystemEvent}
    (h : NoEviction sys e) : LeavesWithPeerDown sys e := by
  cases e with
  | sent now peer => exact DirectPeerCap.touch_peers _ _ _
  | swarm now e =>
    intro p
    -- what the transport reports says what it did to its peers
    have hreported := handleSwarmEvent_reported h
    generalize sys.transport.handleSwarmEvent now e = res at hreported ⊢
    obtain ⟨t, event⟩ := res
    cases hreported with
    | up q hremote hnew hpeers =>
      refine iff_of_false ?_ (by simp)
      rw [hpeers]
      exact fun hp => hp.2 (Finset.mem_insert_of_mem hp.1)
    | down q hmem hpeers =>
      rw [hpeers]
      simp only [Finset.mem_erase, Option.some.injEq, TransportEvent.peerDown.injEq]
      refine ⟨?_, ?_⟩
      · rintro ⟨hp, hnot⟩
        by_contra hne
        exact hnot ⟨Ne.symm hne, hp⟩
      · rintro rfl
        exact ⟨hmem, fun hp => hp.1 rfl⟩
    | frame q msg he hpeers =>
      refine iff_of_false ?_ (by simp)
      rw [hpeers]
      exact fun hp => hp.2 hp.1
    | quiet event hquiet hpeers =>
      refine iff_of_false ?_ ?_
      · rw [hpeers]
        exact fun hp => hp.2 hp.1
      · intro hevent
        obtain rfl : event = .peerDown p := by simpa using hevent
        exact hquiet
    | nothing hpeers =>
      refine iff_of_false ?_ (by simp)
      rw [hpeers]
      exact fun hp => hp.2 hp.1

/-! ## The invariant -/

/-- The views agree, and only remote peers are tracked, so that the known peers are the tracked
ones. -/
structure Mirrored (sys : PeerSystem) : Prop where
  agree : ViewsAgree sys
  remote : ∀ p ∈ sys.transport.peerCap.peers, isRelayPeer p = false

omit [World] [Prims] [WireCodec] in
/-- The view lists the known peers. -/
theorem mem_view {t : Libp2pTransport} {p : String} :
    p ∈ t.view.knownPeers ↔ p ∈ t.knownPeers := Finset.mem_sort _

omit [World] [Prims] [WireCodec] in
/-- In a mirrored system the known peers are the tracked ones. -/
theorem Mirrored.mem_known {sys : PeerSystem} (h : Mirrored sys) {p : String} :
    p ∈ sys.transport.knownPeers ↔ p ∈ sys.transport.peerCap.peers := by
  unfold Libp2pTransport.knownPeers
  rw [Finset.mem_filter]
  exact ⟨fun hp => hp.1, fun hp => ⟨hp, h.remote p hp⟩⟩

omit [World] [Prims] [WireCodec] in
/-- The known peers are read off the set. -/
theorem knownPeers_congr {t t' : Libp2pTransport} (h : t'.peerCap.peers = t.peerCap.peers) :
    t'.knownPeers = t.knownPeers := by
  unfold Libp2pTransport.knownPeers
  rw [h]

omit [World] [Prims] [WireCodec] in
/-- A key of a table has a value. -/
theorem mem_iff_lookup {V : Type} {t : KvTree.Of String V} {p : String} :
    p ∈ t ↔ ∃ v, t.lookup p = some v := by
  rw [← AList.lookup_isSome, Option.isSome_iff_exists]

/-- An event that is no frame writes no key. -/
theorem mem_peerX25519_of_event {s : NodeRunner} {event : TransportEvent}
    (hframe : ∀ fromPeer msg, event ≠ .directReceived fromPeer msg) {p : String}
    (h : p ∈ (finalState (handleTransportEvent event s)).peerX25519) : p ∈ s.peerX25519 := by
  obtain ⟨pk, hpk⟩ := mem_iff_lookup.mp h
  have hinput : (finalState (handleInput (.transportEvent event) s)).peerX25519.lookup p
      = some pk := hpk
  rcases peerX25519_input hinput with hold | ⟨fromPeer, msg, heq, -⟩
  · exact mem_iff_lookup.mpr ⟨pk, hold⟩
  · obtain rfl : event = .directReceived fromPeer msg := by
      simpa [Input.frame] using heq
    exact absurd rfl (hframe fromPeer msg)

omit [WireCodec] in
/-- A key that a frame sets is that of a named author, or of the sender of a `PeerInfo`. -/
theorem SetsKey.cases {s : NodeRunner} {fromPeer : String} {msg : WireMessage} {p : String}
    {pk : X25519Key} (h : SetsKey s fromPeer msg p pk) :
    namedBy s fromPeer msg = some p ∨ setsInfoKey s fromPeer msg = true ∧ p = fromPeer := by
  obtain ⟨hfree, hgate, hmsg⟩ := h
  cases msg with
  | peerInfo key displayName scopes =>
    obtain ⟨hkey, rfl⟩ := hmsg
    exact .inr ⟨by simp [setsInfoKey, hfree, hkey], rfl⟩
  | encryptedDirect toPeer key payload sig hop maxHops =>
    obtain ⟨hkey, hlocal, plain, hplain, rfl⟩ := hmsg
    refine .inl ?_
    unfold namedBy
    simp only
    rw [if_pos ⟨hfree, hgate, hlocal, by rw [hkey]; rfl⟩, hplain]
  | _ => exact hmsg.elim

section

variable {sys : PeerSystem} {t : Libp2pTransport}

/-- The node handles an event with the view of the transport. -/
theorem PeerSystem.handle_node (event : TransportEvent) :
    (sys.handle t event).node
      = finalState (handleTransportEvent event { sys.node with transport := t.view }) := rfl

/-- A quiet event. -/
theorem Mirrored.quiet (h : Mirrored sys) (hpeers : t.peerCap.peers = sys.transport.peerCap.peers)
    {event : TransportEvent} (hquiet : QuietEvent event) : Mirrored (sys.handle t event) := by
  have hknown := knownPeers_congr hpeers
  -- the node leaves its tables alone
  have hroster : RosterSince { sys.node with transport := t.view } (fun _ => False)
      (sys.handle t event).node := by
    rw [PeerSystem.handle_node]
    cases event with
    | listening address => exact ⟨rfl, rfl, fun _ hp => .inl hp⟩
    | scopedReceived fromPeer scope payload =>
      exact (rosterSince_roster.scopedReceived fromPeer scope payload).finalState .refl
    | directAck fromPeer ack => exact .refl
    | sendFailure toPeer reason => exact .refl
    | connectivityChanged mode => exact .refl
    | peerUp p => exact hquiet.elim
    | peerDown p => exact hquiet.elim
    | directReceived p msg => exact hquiet.elim
  -- and nobody is named whom it did not know
  have hnamed : (sys.handle t event).named = sys.named := by
    cases event with
    | peerDown p => exact hquiet.elim
    | directReceived p msg => exact hquiet.elim
    | _ => rfl
  refine ⟨⟨?_, ?_, ?_⟩, ?_⟩
  · intro p
    rw [hroster.peers]
    exact (h.agree.peers p).trans (by rw [← hknown]; rfl)
  · intro p hp
    rcases hroster.scopes p hp with hp | hp
    · exact hknown ▸ h.agree.scopes p hp
    · exact hp.elim
  · intro p hp hnot
    rw [PeerSystem.handle_node] at hp
    have hold : p ∈ ({ sys.node with transport := t.view } : NodeRunner).peerX25519 := by
      refine mem_peerX25519_of_event ?_ hp
      rintro fromPeer msg rfl
      exact hquiet
    exact hknown ▸ h.agree.keys p hold (hnamed ▸ hnot)
  · intro p hp
    exact h.remote p (hpeers ▸ hp)

/-- A frame. -/
theorem Mirrored.frame (h : Mirrored sys) (hpeers : t.peerCap.peers = sys.transport.peerCap.peers)
    {now : Nat} {fromPeer : String} {msg : WireMessage}
    (hinfo : InfoFromKnown sys (.swarm now (.directRequest fromPeer msg))) :
    Mirrored (sys.handle t (.directReceived fromPeer msg)) := by
  have hknown := knownPeers_congr hpeers
  obtain ⟨s, hs⟩ : ∃ s, s = { sys.node with transport := t.view } := ⟨_, rfl⟩
  have hnode : (sys.handle t (.directReceived fromPeer msg)).node
      = finalState (handleIncomingDirect fromPeer msg s) := by
    rw [hs]
    exact PeerSystem.handle_node _
  have hnamed : (sys.handle t (.directReceived fromPeer msg)).named
      = match namedBy s fromPeer msg with
        | some author => insert author sys.named
        | none => if setsInfoKey s fromPeer msg then sys.named.erase fromPeer else sys.named := by
    rw [hs]
    rfl
  have hthrottle : ∀ p, throttledAt s p = throttledAt sys.node p := by
    rw [hs]
    exact fun _ => rfl
  have hcalls : s.calls = sys.node.calls := by rw [hs]
  -- the sender of a `PeerInfo` whose key is stored is known
  have hsender : setsInfoKey s fromPeer msg = true → fromPeer ∈ sys.transport.knownPeers := by
    intro hset
    cases msg with
    | peerInfo key displayName scopes =>
      simp only [setsInfoKey, Bool.and_eq_true, decide_eq_true_eq] at hset
      rw [hthrottle, hcalls] at hset
      exact hinfo hset.1 (.inl hset.2)
    | _ => cases hset
  have hroster := rosterSince_frame s fromPeer msg
  rw [← hnode] at hroster
  refine ⟨⟨?_, ?_, ?_⟩, ?_⟩
  · intro p
    rw [hroster.peers, hs]
    exact (h.agree.peers p).trans (by rw [← hknown]; rfl)
  · intro p hp
    rcases hroster.scopes p hp with hold | ⟨rfl, hfree, hset⟩
    · rw [hs] at hold
      exact hknown ▸ h.agree.scopes p hold
    · rw [hthrottle, hcalls] at hfree
      cases msg with
      | peerInfo key displayName scopes => exact hknown ▸ hinfo hfree (.inr hset)
      | scopeAnnounce scopes =>
        rw [hs] at hset
        exact mem_view.mp hset
      | _ => exact hset.elim
  · intro p hp hnot
    rw [hnode] at hp
    obtain ⟨pk, hpk⟩ := mem_iff_lookup.mp hp
    rcases keysSince_frame.keys p pk hpk with hold | hset
    · have hmem : p ∈ sys.node.peerX25519 := by
        rw [hs] at hold
        exact mem_iff_lookup.mpr ⟨pk, hold⟩
      -- the record can only have lost the sender of a `PeerInfo`
      by_cases hsame : p ∈ sys.named
      · rw [hnamed] at hnot
        split at hnot
        · exact absurd (Finset.mem_insert_of_mem hsame) hnot
        · split at hnot
          · next hset =>
            have heq : p = fromPeer := by
              by_contra hne
              exact hnot (Finset.mem_erase.mpr ⟨hne, hsame⟩)
            rw [heq]
            exact hknown ▸ hsender hset
          · exact absurd hsame hnot
      · exact hknown ▸ h.agree.keys p hmem hsame
    · rcases hset.cases with hauthor | ⟨hset, rfl⟩
      · rw [hnamed, hauthor] at hnot
        exact absurd (Finset.mem_insert_self p _) hnot
      · exact hknown ▸ hsender hset
  · intro p hp
    exact h.remote p (hpeers ▸ hp)


/-- A new peer. -/
theorem Mirrored.up (h : Mirrored sys) {peer : String} (hremote : sys.transport.Remote peer)
    (hpeers : t.peerCap.peers = insert peer sys.transport.peerCap.peers) :
    Mirrored (sys.handle t (.peerUp peer)) := by
  -- the transport knows one peer more
  have hknown : ∀ p, p ∈ t.knownPeers ↔ p = peer ∨ p ∈ sys.transport.knownPeers := by
    intro p
    rw [h.mem_known]
    unfold Libp2pTransport.knownPeers
    rw [hpeers, Finset.mem_filter, Finset.mem_insert]
    refine ⟨fun hp => hp.1, fun hp => ⟨hp, ?_⟩⟩
    rcases hp with rfl | hp
    · exact hremote.2
    · exact h.remote p hp
  obtain ⟨s, hs⟩ : ∃ s, s = { sys.node with transport := t.view } := ⟨_, rfl⟩
  have hnode : (sys.handle t (.peerUp peer)).node
      = finalState (handleTransportEvent (.peerUp peer) s) := by
    rw [hs]
    exact PeerSystem.handle_node _
  -- the node does too, and forgets nothing
  have hroster : RosterSince { s with peers := setInsert s.peers peer } (fun _ => False)
      (sys.handle t (.peerUp peer)).node := by
    rw [hnode]
    exact rosterSince_peerUp s hremote.2
  refine ⟨⟨?_, ?_, ?_⟩, ?_⟩
  · intro p
    rw [hroster.peers, mem_setInsert, hs]
    exact (or_congr_right (h.agree.peers p)).trans (hknown p).symm
  · intro p hp
    rcases hroster.scopes p hp with hold | hset
    · rw [hs] at hold
      exact (hknown p).mpr (.inr (h.agree.scopes p hold))
    · exact hset.elim
  · intro p hp hnot
    rw [hnode] at hp
    have hold : p ∈ s.peerX25519 := mem_peerX25519_of_event (by rintro _ _ ⟨⟩) hp
    rw [hs] at hold
    exact (hknown p).mpr (.inr (h.agree.keys p hold hnot))
  · intro p hp
    have hp' : p ∈ t.peerCap.peers := hp
    rw [hpeers, Finset.mem_insert] at hp'
    rcases hp' with rfl | hp'
    · exact hremote.2
    · exact h.remote p hp'

/-- A peer that leaves. -/
theorem Mirrored.down (h : Mirrored sys) {peer : String}
    (hpeers : t.peerCap.peers = sys.transport.peerCap.peers.erase peer) :
    Mirrored (sys.handle t (.peerDown peer)) := by
  have hknown : ∀ p, p ∈ t.knownPeers ↔ p ≠ peer ∧ p ∈ sys.transport.knownPeers := by
    intro p
    unfold Libp2pTransport.knownPeers
    rw [hpeers, Finset.mem_filter, Finset.mem_filter, Finset.mem_erase, and_assoc]
  refine ⟨⟨?_, ?_, ?_⟩, ?_⟩
  · intro p
    show p ∈ sys.node.peers.filter (· != peer) ↔ p ∈ t.knownPeers
    rw [List.mem_filter, h.agree.peers, bne_iff_ne, hknown, and_comm]
  · intro p hp
    have hp' : p ∈ sys.node.peerScopes.erase peer := hp
    obtain ⟨hne, hold⟩ := AList.mem_erase.mp hp'
    exact (hknown p).mpr ⟨hne, h.agree.scopes p hold⟩
  · intro p hp hnot
    have hp' : p ∈ sys.node.peerX25519.erase peer := hp
    obtain ⟨hne, hold⟩ := AList.mem_erase.mp hp'
    have hnamed : p ∉ sys.named := fun hmem => hnot (Finset.mem_erase.mpr ⟨hne, hmem⟩)
    exact (hknown p).mpr ⟨hne, h.agree.keys p hold hnamed⟩
  · intro p hp
    have hp' : p ∈ t.peerCap.peers := hp
    rw [hpeers] at hp'
    exact h.remote p (Finset.mem_of_mem_erase hp')

omit [World] [Prims] [WireCodec] in
/-- Nothing for the node to handle. -/
theorem Mirrored.unseen (h : Mirrored sys)
    (hpeers : t.peerCap.peers = sys.transport.peerCap.peers) :
    Mirrored { sys with transport := t } := by
  have hknown := knownPeers_congr hpeers
  refine ⟨⟨?_, ?_, ?_⟩, ?_⟩
  · intro p
    exact hknown ▸ h.agree.peers p
  · intro p hp
    exact hknown ▸ h.agree.scopes p hp
  · intro p hp hnot
    exact hknown ▸ h.agree.keys p hp hnot
  · intro p hp
    exact h.remote p (hpeers ▸ hp)

end

/-- **One event.** -/
theorem Mirrored.step {sys : PeerSystem} {e : SystemEvent} (h : Mirrored sys)
    (hroom : NoEviction sys e) (hinfo : InfoFromKnown sys e) : Mirrored (sys.step e) := by
  cases e with
  | sent now peer => exact h.unseen (DirectPeerCap.touch_peers _ _ _)
  | swarm now e =>
    have hreported := handleSwarmEvent_reported hroom
    have hstep : sys.step (.swarm now e)
        = match sys.transport.handleSwarmEvent now e with
          | (t, some event) => sys.handle t event
          | (t, none) => { sys with transport := t } := rfl
    rw [hstep]
    generalize sys.transport.handleSwarmEvent now e = res at hreported ⊢
    obtain ⟨t, event⟩ := res
    cases hreported with
    | up peer hremote hnew hpeers => exact h.up hremote hpeers
    | down peer hmem hpeers => exact h.down hpeers
    | frame peer msg he hpeers =>
      subst he
      exact h.frame hpeers hinfo
    | quiet event hquiet hpeers => exact h.quiet hpeers hquiet
    | nothing hpeers => exact h.unseen hpeers

/-! ## Runs -/

/-- The transport and the node when the loop begins. -/
def PeerSystem.start (c : NodeConfig) (maxPeers : Nat) : PeerSystem where
  transport := .new c.localPeerId maxPeers
  node := finalState (startup (.new c))

omit [World] [Prims] [WireCodec] in
/-- The startup subscribes, and knows nobody. -/
theorem rosterSince_startup (s : NodeRunner) :
    RosterSince s (fun _ => False) (finalState (startup s)) := by
  have hI : RosterInvariant (RosterSince s fun _ => False) := rosterSince_roster
  have hemit : ∀ o, Keeps (RosterSince s fun _ => False) True (emit o) :=
    fun o => hI.other (fun _ => rfl) (fun _ => rfl) (fun _ => rfl)
  have hstartup : Keeps (RosterSince s fun _ => False) True startup := by
    refine Keeps.bind (Keeps.forM fun scope _ => hemit _) fun _ => Keeps.get_bind fun _ _ => ?_
    refine Keeps.bind (Keeps.forM fun scope _ => ?_) fun _ => hemit _
    exact Keeps.bind (hemit _) fun _ => hI.other (fun _ => rfl) (fun _ => rfl) (fun _ => rfl)
  exact hstartup.finalState .refl

omit [Prims] [WireCodec] in
/-- Nobody is known when the loop begins. -/
theorem mirrored_start (c : NodeConfig) (maxPeers : Nat) : Mirrored (.start c maxPeers) := by
  have hroster := rosterSince_startup (.new c)
  have hhost : HostInvariant (KeysSince (NodeRunner.new c) fun _ _ => False) (fun _ => True) :=
    keysSince_host
  have hkeys := hhost.startup.finalState (s := NodeRunner.new c) ⟨rfl, rfl, fun _ _ h => .inl h⟩
  have hnobody : (PeerSystem.start c maxPeers).transport.knownPeers = ∅ := rfl
  refine ⟨⟨?_, ?_, ?_⟩, ?_⟩
  · intro p
    rw [hnobody]
    have hpeers : (PeerSystem.start c maxPeers).node.peers = [] := hroster.peers
    rw [hpeers]
    simp
  · intro p hp
    rcases hroster.scopes p hp with hold | hset
    · exact absurd hold (AList.notMem_empty p)
    · exact hset.elim
  · intro p hp _
    obtain ⟨pk, hpk⟩ := mem_iff_lookup.mp hp
    rcases hkeys.keys p pk hpk with hnone | hset
    · cases hnone
    · exact hset.elim
  · intro p hp
    exact absurd hp (Finset.notMem_empty p)

/-- **The node's view of its peers matches the transport's** in every run in which no peer takes
another's place and every `PeerInfo` comes from a known peer; and a peer leaves the capped set
exactly when its `PeerDown` is returned. -/
theorem peer_views_agree (c : NodeConfig) (maxPeers : Nat) {es : List SystemEvent}
    (h : Each PeerSystem.step (fun sys e => NoEviction sys e ∧ InfoFromKnown sys e)
      (.start c maxPeers) es) :
    Always PeerSystem.step ViewsAgree (.start c maxPeers) es
      ∧ Each PeerSystem.step LeavesWithPeerDown (.start c maxPeers) es := by
  refine ⟨?_, Each.imp (fun _ _ hc => leavesWithPeerDown_of_noEviction hc.1) h⟩
  refine always_of_each Mirrored (fun h => h.agree) ?_ (mirrored_start c maxPeers) h h
  intro sys e hsys _ hc
  exact hsys.step hc.1 hc.2

end

section

attribute [local instance] symbolicPrims noCodec

/-- A clock that stands still. -/
@[reducible] def cappedWorld : World := stillWorld 5000000

attribute [local instance] cappedWorld

/-- What a peer tells about itself. -/
def capInfo : WireMessage :=
  .peerInfo "0707070707070707070707070707070707070707070707070707070707070707" none ["news"]

/-- Two peers come, the first says who it is, and leaves. -/
theorem peer_views_agree_two :
    Always PeerSystem.step ViewsAgree (.start (symbolicConfig 2 3) 2)
        [.swarm 0 (.connectionEstablished "a"), .swarm 1 (.connectionEstablished "b"),
          .swarm 2 (.directRequest "a" capInfo), .swarm 3 (.connectionClosed "a")]
      ∧ Each PeerSystem.step LeavesWithPeerDown (.start (symbolicConfig 2 3) 2)
        [.swarm 0 (.connectionEstablished "a"), .swarm 1 (.connectionEstablished "b"),
          .swarm 2 (.directRequest "a" capInfo), .swarm 3 (.connectionClosed "a")] := by
  refine peer_views_agree (symbolicConfig 2 3) 2 ?_
  refine ⟨⟨?_, trivial⟩, ⟨?_, trivial⟩, ⟨?_, ?_⟩, ⟨?_, trivial⟩, trivial⟩
  · decide +kernel
  · decide +kernel
  · decide +kernel
  · intro _ _
    decide +kernel
  · decide +kernel

/-- A second peer takes the place of the first; what the first says about itself is stored all the
same, and nothing happens in the node when its connection closes. -/
def evictingRun : List SystemEvent :=
  [.swarm 0 (.connectionEstablished "a"), .swarm 1 (.connectionEstablished "b"),
    .swarm 2 (.directRequest "a" capInfo), .swarm 3 (.connectionClosed "a")]

/-- The run with the eviction: the views part, and the evicted peer was never reported. -/
theorem evicted_peer_stays :
    ¬ Always PeerSystem.step ViewsAgree (.start (symbolicConfig 2 3) 1) evictingRun
      ∧ ¬ Each PeerSystem.step LeavesWithPeerDown (.start (symbolicConfig 2 3) 1) evictingRun := by
  refine ⟨?_, ?_⟩
  · intro h
    have hagree := (always_iff_prefixes _ _).mp h evictingRun (List.prefix_refl _)
    have hstays : "a" ∈ (evictingRun.foldl PeerSystem.step
        (.start (symbolicConfig 2 3) 1)).node.peers := by decide +kernel
    have hknown := (hagree.peers "a").mp hstays
    revert hknown
    decide +kernel
  · intro h
    have hleaves := (h.2.1 "a").mp ⟨by decide +kernel, by decide +kernel⟩
    revert hleaves
    decide +kernel

end

end Mycelium.Node
