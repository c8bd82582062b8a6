import Mycelium.Lib.Owners
import Mycelium.Lib.Trail
import Mycelium.Node.State
import Mathlib.Data.Finset.Basic
import Mathlib.Data.Finset.Card

/-!
# Mycelium node — the direct peers of the transport

Translation of the part of `mycelium-node/src/transport.rs` that follows connections:
`DirectPeerCap`, a set of peers with an LRU cap, and `handle_swarm_event`, which keeps it and turns
what the swarm reports into the events the node handles. What the transport asks of the swarm is a
list of calls. On every path the clock is read at most once, so a reading is an argument; a peer is
its text.

The set holds peers and the swarm reports connections, of which a peer may have several.

* `handleSwarmEvent` — one event of the swarm;
* `known_peers_iff` — the known peers are the connected ones all along exactly if no connection
  closes while its peer has another.
-/

namespace Mycelium.Node

open Owners Trail

/-- `PeerAdmitAction`. -/
inductive PeerAdmitAction where
  | admitted
  | evict (peer : String)
  | reject
deriving DecidableEq

/-- `DirectPeerCap`. -/
structure DirectPeerCap where
  maxPeers : Nat
  peers : Finset String := ∅
  peerLastSeen : KvTree.Of String Nat := ∅
  rejections : UInt64 := 0

namespace DirectPeerCap

def touch (cap : DirectPeerCap) (now : Nat) (peer : String) : DirectPeerCap :=
  if peer ∈ cap.peers then { cap with peerLastSeen := cap.peerLastSeen.insert peer now } else cap

def remove (cap : DirectPeerCap) (peer : String) : DirectPeerCap :=
  { cap with peers := cap.peers.erase peer, peerLastSeen := cap.peerLastSeen.erase peer }

/-- The entry with the least instant, the first of several in the table's order. -/
def leastRecent : List (Sigma fun _ : String => Nat) → Option (String × Nat)
  | [] => none
  | e :: rest =>
    match leastRecent rest with
    | none => some (e.1, e.2)
    | some found => if e.2 ≤ found.2 then some (e.1, e.2) else some found

/-- `find_least_recently_used_peer`, over the entries in the order in which they are iterated. -/
def leastRecentlyUsed (order : List (Sigma fun _ : String => Nat)) : Option String :=
  (leastRecent order).map Prod.fst

/-- `DirectPeerCap::admit`, with the peer that the search finds. -/
def admitPeer (cap : DirectPeerCap) (oldest : Option String) (now : Nat) (peer : String) :
    PeerAdmitAction × DirectPeerCap :=
  if peer ∈ cap.peers then (.admitted, cap.touch now peer)
  else if cap.maxPeers ≤ cap.peers.card then
    match oldest with
    | some oldest => (.evict oldest, cap.remove oldest)
    | none => (.reject, { cap with rejections := U64.satAdd cap.rejections 1 })
  else (.admitted, cap)

def insert (cap : DirectPeerCap) (now : Nat) (peer : String) : DirectPeerCap :=
  { cap with
    peers := Insert.insert peer cap.peers
    peerLastSeen := cap.peerLastSeen.insert peer now }

end DirectPeerCap

/-- What the transport asks of its swarm. -/
inductive SwarmCall where
  | disconnectPeerId (peer : String)
  | addExplicitPeer (peer : String)
  | removeExplicitPeer (peer : String)
deriving DecidableEq

/-- `Libp2pTransport`: its identity, the peers it tracks, and what it asked so far. -/
structure Libp2pTransport where
  localPeerId : String
  peerCap : DirectPeerCap
  calls : List SwarmCall := []

/-- What the swarm reports. -/
inductive SwarmEvent where
  | newListenAddr (address : String)
  | connectionEstablished (peer : String)
  | connectionClosed (peer : String)
  | identifyReceived (peer : String)
  | directRequest (peer : String) (message : WireMessage)
  | directResponse (peer : String) (ack : MessageAck)
  | outboundFailure (peer reason : String)
  | gossipMessage (propagationSource topic : String) (data : Bytes)
  /-- Discovery, relay and hole-punching events, which only dial or log. -/
  | other
deriving DecidableEq

namespace Libp2pTransport

/-- `Libp2pTransport::new`: no cap means fifty peers. -/
def new (localPeerId : String) (maxPeers : Nat) : Libp2pTransport where
  localPeerId
  peerCap := { maxPeers := if maxPeers = 0 then 50 else maxPeers }

def call (t : Libp2pTransport) (c : SwarmCall) : Libp2pTransport := { t with calls := t.calls ++ [c] }

/-- `known_peers`; their order is that of the hash set. -/
def knownPeers (t : Libp2pTransport) : Finset String :=
  t.peerCap.peers.filter fun p => isRelayPeer p = false

/-- `handle_connection_established`, with the peer that the search finds: whether the peer is a
new one. -/
def establishedBy (t : Libp2pTransport) (oldest : Option String) (now : Nat) (peer : String) :
    Bool × Libp2pTransport :=
  if peer = t.localPeerId ∨ isRelayPeer peer = true then (false, t)
  else if peer ∈ t.peerCap.peers then (false, { t with peerCap := t.peerCap.touch now peer })
  else
    match t.peerCap.admitPeer oldest now peer with
    | (.evict evict, cap) =>
      (true, { t with peerCap := cap.insert now peer }.call (.disconnectPeerId evict))
    | (.reject, cap) => (false, { t with peerCap := cap }.call (.disconnectPeerId peer))
    | (.admitted, cap) => (true, { t with peerCap := cap.insert now peer })

/-- `handle_connection_established`, the table being iterated in its own order. -/
def handleConnectionEstablished (t : Libp2pTransport) (now : Nat) (peer : String) :
    Bool × Libp2pTransport :=
  t.establishedBy (DirectPeerCap.leastRecentlyUsed t.peerCap.peerLastSeen.entries) now peer

/-- A connection that may bring a new peer. -/
def peerUp (t : Libp2pTransport) (now : Nat) (peer : String) :
    Libp2pTransport × Option TransportEvent :=
  match t.handleConnectionEstablished now peer with
  | (true, t) => (t.call (.addExplicitPeer peer), some (.peerUp peer))
  | (false, t) => (t, none)

/-- A connection that closes. -/
def peerDown (t : Libp2pTransport) (peer : String) : Libp2pTransport × Option TransportEvent :=
  if isRelayPeer peer = false ∧ peer ∈ t.peerCap.peers then
    ({ t with peerCap := t.peerCap.remove peer }.call (.removeExplicitPeer peer),
      some (.peerDown peer))
  else (t, none)

/-- `handle_swarm_event`. -/
def handleSwarmEvent (t : Libp2pTransport) (now : Nat) :
    SwarmEvent → Libp2pTransport × Option TransportEvent
  | .newListenAddr address => (t, some (.listening address))
  | .connectionEstablished peer => t.peerUp now peer
  | .connectionClosed peer => t.peerDown peer
  | .identifyReceived peer => t.peerUp now peer
  | .directRequest peer message =>
    ({ t with peerCap := t.peerCap.touch now peer }, some (.directReceived peer message))
  | .directResponse peer ack => (t, some (.directAck peer ack))
  | .outboundFailure peer reason => (t, some (.sendFailure peer reason))
  | .gossipMessage source topic data => (t, some (.scopedReceived source topic data))
  | .other => (t, none)

/-- `send_direct` marks the peer as used. -/
def sendDirect (t : Libp2pTransport) (now : Nat) (peer : String) : Libp2pTransport :=
  { t with peerCap := t.peerCap.touch now peer }

end Libp2pTransport

/-! ## The set of peers -/

namespace DirectPeerCap

@[simp] theorem touch_peers (cap : DirectPeerCap) (now : Nat) (peer : String) :
    (cap.touch now peer).peers = cap.peers := by
  unfold touch
  split
  · rfl
  · rfl

@[simp] theorem touch_maxPeers (cap : DirectPeerCap) (now : Nat) (peer : String) :
    (cap.touch now peer).maxPeers = cap.maxPeers := by
  unfold touch
  split
  · rfl
  · rfl

theorem admitPeer_maxPeers (cap : DirectPeerCap) (oldest : Option String) (now : Nat)
    (peer : String) : (cap.admitPeer oldest now peer).2.maxPeers = cap.maxPeers := by
  unfold admitPeer
  split
  · exact touch_maxPeers cap now peer
  split
  · split
    · rfl
    · rfl
  · rfl

end DirectPeerCap

namespace Libp2pTransport

variable {t : Libp2pTransport} {peer : String}

/-- The identity and the cap never change. -/
structure SameSetup (t t' : Libp2pTransport) : Prop where
  localPeerId : t'.localPeerId = t.localPeerId
  maxPeers : t'.peerCap.maxPeers = t.peerCap.maxPeers

theorem peerUp_sameSetup (t : Libp2pTransport) (now : Nat) (peer : String) :
    SameSetup t (t.peerUp now peer).1 := by
  unfold peerUp handleConnectionEstablished establishedBy
  by_cases hlocal : peer = t.localPeerId ∨ isRelayPeer peer = true
  · rw [if_pos hlocal]
    exact ⟨rfl, rfl⟩
  rw [if_neg hlocal]
  by_cases hmem : peer ∈ t.peerCap.peers
  · rw [if_pos hmem]
    exact ⟨rfl, DirectPeerCap.touch_maxPeers _ _ _⟩
  rw [if_neg hmem]
  generalize DirectPeerCap.leastRecentlyUsed t.peerCap.peerLastSeen.entries = oldest
  have hmax := t.peerCap.admitPeer_maxPeers oldest now peer
  cases hadmitted : t.peerCap.admitPeer oldest now peer with
  | mk action cap =>
    rw [hadmitted] at hmax
    cases action with
    | admitted => exact ⟨rfl, hmax⟩
    | evict oldest => exact ⟨rfl, hmax⟩
    | reject => exact ⟨rfl, hmax⟩

theorem handleSwarmEvent_sameSetup (t : Libp2pTransport) (now : Nat) (e : SwarmEvent) :
    SameSetup t (t.handleSwarmEvent now e).1 := by
  cases e with
  | connectionEstablished peer => exact peerUp_sameSetup t now peer
  | identifyReceived peer => exact peerUp_sameSetup t now peer
  | connectionClosed peer =>
    show SameSetup t (t.peerDown peer).1
    unfold peerDown
    split
    · exact ⟨rfl, rfl⟩
    · exact ⟨rfl, rfl⟩
  | directRequest peer message => exact ⟨rfl, DirectPeerCap.touch_maxPeers _ _ _⟩
  | _ => exact ⟨rfl, rfl⟩

/-- A peer that is tracked is somebody else, and not the relay. -/
def Remote (t : Libp2pTransport) (peer : String) : Prop :=
  peer ≠ t.localPeerId ∧ isRelayPeer peer = false

instance (t : Libp2pTransport) : DecidablePred t.Remote :=
  fun peer => inferInstanceAs (Decidable (peer ≠ t.localPeerId ∧ isRelayPeer peer = false))

theorem remote_iff : t.Remote peer ↔ ¬ (peer = t.localPeerId ∨ isRelayPeer peer = true) := by
  unfold Remote
  rw [not_or, Bool.not_eq_true]

/-- Nobody is new who is not remote, or is tracked already. -/
theorem peerUp_old (h : t.Remote peer → peer ∈ t.peerCap.peers) (now : Nat) :
    (t.peerUp now peer).1.peerCap.peers = t.peerCap.peers ∧ (t.peerUp now peer).2 = none := by
  unfold peerUp handleConnectionEstablished establishedBy
  by_cases hlocal : peer = t.localPeerId ∨ isRelayPeer peer = true
  · rw [if_pos hlocal]
    exact ⟨rfl, rfl⟩
  · have hmem : peer ∈ t.peerCap.peers := h (remote_iff.mpr hlocal)
    rw [if_neg hlocal, if_pos hmem]
    exact ⟨DirectPeerCap.touch_peers _ _ _, rfl⟩

/-- A new peer is entered while there is room. -/
theorem peerUp_new (hremote : t.Remote peer) (hnew : peer ∉ t.peerCap.peers)
    (hroom : t.peerCap.peers.card < t.peerCap.maxPeers) (now : Nat) :
    (t.peerUp now peer).1.peerCap.peers = insert peer t.peerCap.peers
      ∧ (t.peerUp now peer).2 = some (.peerUp peer) := by
  have hadmitted : ∀ oldest, t.peerCap.admitPeer oldest now peer = (.admitted, t.peerCap) := by
    intro oldest
    unfold DirectPeerCap.admitPeer
    rw [if_neg hnew, if_neg (by omega)]
  unfold peerUp handleConnectionEstablished establishedBy
  rw [if_neg (remote_iff.mp hremote), if_neg hnew, hadmitted]
  exact ⟨rfl, rfl⟩

end Libp2pTransport

/-! ## Connections -/

/-- What happens to one connection. -/
inductive ConnEvent where
  | opened (conn : Nat) (peer : String)
  | closed (conn : Nat) (peer : String)
deriving DecidableEq

/-- The report of the swarm. -/
def ConnEvent.report : ConnEvent → SwarmEvent
  | opened _ peer => .connectionEstablished peer
  | closed _ peer => .connectionClosed peer

def ConnEvent.after (conns : Finset (Nat × String)) : ConnEvent → Finset (Nat × String)
  | opened conn peer => insert (conn, peer) conns
  | closed conn peer => conns.erase (conn, peer)

/-- The open connections, and the transport. -/
structure Connected where
  conns : Finset (Nat × String) := ∅
  transport : Libp2pTransport

namespace Connected

/-- An event, at an instant. -/
def step (c : Connected) (e : Nat × ConnEvent) : Connected where
  conns := e.2.after c.conns
  transport := (c.transport.handleSwarmEvent e.1 e.2.report).1

/-- The remote peers with an open connection. -/
def peers (c : Connected) : Finset String := (owners c.conns).filter c.transport.Remote

/-- A connection is opened once and closed once. -/
def Possible (c : Connected) (e : Nat × ConnEvent) : Prop :=
  match e.2 with
  | .opened conn _ => ∀ peer, (conn, peer) ∉ c.conns
  | .closed conn peer => (conn, peer) ∈ c.conns

/-- There are no more connected peers than the cap allows. -/
def WithinCap (c : Connected) (e : Nat × ConnEvent) : Prop :=
  (c.step e).peers.card ≤ c.transport.peerCap.maxPeers

/-- If a connection to a remote peer closes, the peer has no other. -/
def LastOfPeer (c : Connected) (e : Nat × ConnEvent) : Prop :=
  match e.2 with
  | .opened _ _ => True
  | .closed conn peer => c.transport.Remote peer → ∀ conn', (conn', peer) ∈ c.conns → conn' = conn

/-- The known peers are the connected ones. -/
def KnownConnected (c : Connected) : Prop := c.transport.knownPeers = c.peers

/-- The tracked peers are the connected ones. -/
def TrackedConnected (c : Connected) : Prop := c.transport.peerCap.peers = c.peers

variable {c : Connected} {e : Nat × ConnEvent}

theorem mem_peers {peer : String} :
    peer ∈ c.peers ↔ peer ∈ owners c.conns ∧ c.transport.Remote peer := Finset.mem_filter

theorem TrackedConnected.known (h : TrackedConnected c) : KnownConnected c := by
  unfold KnownConnected Libp2pTransport.knownPeers
  rw [h]
  refine Finset.filter_eq_self.mpr ?_
  intro peer hpeer
  exact (mem_peers.mp hpeer).2.2

/-- The identity stays, so the connected peers are the remote owners of what is open. -/
theorem peers_step :
    (c.step e).peers = (owners (e.2.after c.conns)).filter c.transport.Remote := by
  unfold peers
  refine Finset.filter_congr ?_
  intro peer _
  unfold Libp2pTransport.Remote
  rw [(c.transport.handleSwarmEvent_sameSetup e.1 e.2.report).localPeerId.symm]
  rfl

/-- An opened connection: its peer is tracked from then on, unless it is not a remote one. -/
theorem TrackedConnected.opened {now conn : Nat} {peer : String} (h : TrackedConnected c)
    (hcap : WithinCap c (now, .opened conn peer)) :
    TrackedConnected (c.step (now, .opened conn peer)) := by
  unfold TrackedConnected at h
  unfold WithinCap at hcap
  unfold TrackedConnected
  have hstep : (c.step (now, .opened conn peer)).transport = (c.transport.peerUp now peer).1 := rfl
  rw [peers_step] at hcap ⊢
  rw [hstep]
  have hafter : (owners (ConnEvent.after c.conns (.opened conn peer))).filter c.transport.Remote
      = if c.transport.Remote peer then insert peer c.peers else c.peers := by
    unfold ConnEvent.after
    rw [owners_insert, Finset.filter_insert]
    rfl
  rw [hafter] at hcap ⊢
  by_cases hnew : c.transport.Remote peer ∧ peer ∉ c.transport.peerCap.peers
  · obtain ⟨hremote, hnew⟩ := hnew
    -- the cap has room: with this peer there are no more than it allows
    rw [if_pos hremote, Finset.card_insert_of_notMem (h ▸ hnew), ← h] at hcap
    rw [(Libp2pTransport.peerUp_new hremote hnew (by omega) now).1, if_pos hremote, h]
  · have hold : c.transport.Remote peer → peer ∈ c.transport.peerCap.peers := by
      intro hremote
      by_contra hmem
      exact hnew ⟨hremote, hmem⟩
    rw [(Libp2pTransport.peerUp_old hold now).1, h]
    split
    · next hremote => exact (Finset.insert_eq_of_mem (h ▸ hold hremote)).symm
    · rfl

theorem closed_peers (now conn : Nat) (peer : String) (h : TrackedConnected c) :
    (c.step (now, .closed conn peer)).transport.peerCap.peers = c.peers.erase peer := by
  have hstep : (c.step (now, .closed conn peer)).transport = (c.transport.peerDown peer).1 := rfl
  rw [hstep]
  unfold Libp2pTransport.peerDown
  split
  · exact congrArg (·.erase peer) h
  · next hnot =>
    -- nothing was done, and the peer was not there
    have hmem : peer ∉ c.peers := by
      intro hmem
      exact hnot ⟨(mem_peers.mp hmem).2.2, h ▸ hmem⟩
    rw [Finset.erase_eq_of_notMem hmem]
    exact h

/-- With its last connection a peer goes. -/
theorem TrackedConnected.closed {now conn : Nat} {peer : String} (h : TrackedConnected c)
    (hlast : LastOfPeer c (now, .closed conn peer)) :
    TrackedConnected (c.step (now, .closed conn peer)) := by
  unfold TrackedConnected
  rw [closed_peers now conn peer h, peers_step]
  unfold ConnEvent.after
  by_cases hremote : c.transport.Remote peer
  · rw [owners_erase_last (hlast hremote), Finset.filter_erase]
    rfl
  · -- a peer that is not remote was in neither set
    ext q
    rw [Finset.mem_erase, mem_peers, Finset.mem_filter]
    refine ⟨?_, ?_⟩
    · rintro ⟨hne, hmem, hq⟩
      obtain ⟨conn', hconn'⟩ := mem_owners.mp hmem
      refine ⟨mem_owners.mpr ⟨conn', Finset.mem_erase.mpr ⟨?_, hconn'⟩⟩, hq⟩
      intro heq
      exact hne (congrArg Prod.snd heq)
    · rintro ⟨hmem, hq⟩
      obtain ⟨conn', hconn'⟩ := mem_owners.mp hmem
      refine ⟨?_, mem_owners.mpr ⟨conn', Finset.mem_of_mem_erase hconn'⟩, hq⟩
      intro heq
      exact hremote (heq ▸ hq)

/-- A peer that has another connection is forgotten all the same. -/
theorem TrackedConnected.lastOfPeer (h : TrackedConnected c)
    (hknown : KnownConnected (c.step e)) : LastOfPeer c e := by
  obtain ⟨now, e⟩ := e
  cases e with
  | opened conn peer => trivial
  | closed conn peer =>
    intro hremote conn' hmem
    by_contra hne
    have hconnected : peer ∈ (c.step (now, .closed conn peer)).peers := by
      rw [peers_step]
      refine Finset.mem_filter.mpr ⟨?_, hremote⟩
      refine mem_owners.mpr ⟨conn', Finset.mem_erase.mpr ⟨?_, hmem⟩⟩
      intro heq
      exact hne (congrArg Prod.fst heq)
    rw [← hknown] at hconnected
    have htracked := (Finset.mem_filter.mp hconnected).1
    rw [closed_peers now conn peer h] at htracked
    exact Finset.notMem_erase peer _ htracked

end Connected

/-- **When the known peers are the connected peers.** The connections of a transport open and
close, several of a peer at a time, never to more remote peers than the cap allows. The known peers
are exactly the remote peers with an open connection, at the start and after every event, if and
only if every connection to a remote peer that closes is the last one of its peer. -/
theorem known_peers_iff (localPeerId : String) (maxPeers : Nat) {es : List (Nat × ConnEvent)}
    (hpossible : Each Connected.step Connected.Possible
      { transport := .new localPeerId maxPeers } es)
    (hcap : Each Connected.step Connected.WithinCap { transport := .new localPeerId maxPeers } es) :
    Always Connected.step Connected.KnownConnected { transport := .new localPeerId maxPeers } es
      ↔ Each Connected.step Connected.LastOfPeer { transport := .new localPeerId maxPeers } es := by
  refine always_iff_each Connected.TrackedConnected (fun h => h.known) ?_ ?_ ?_ (hpossible.and hcap)
  · rintro c ⟨now, e⟩ htracked ⟨-, hcap⟩ hlast
    cases e with
    | opened conn peer => exact htracked.opened hcap
    | closed conn peer => exact htracked.closed hlast
  · rintro c e htracked - hknown
    exact htracked.lastOfPeer hknown
  · rfl

/-- Two peers connect and one of them leaves. -/
theorem known_peers_two :
    Always Connected.step Connected.KnownConnected { transport := .new "me" 2 }
      [(0, .opened 0 "a"), (1, .opened 1 "b"), (2, .closed 0 "a")] := by
  refine (known_peers_iff "me" 2 ?_ ?_).mpr ?_
  · simp [Each, Connected.Possible, Connected.step, ConnEvent.after]
  · unfold Each Each Each Each Connected.WithinCap
    decide +kernel
  · simp [Each, Connected.LastOfPeer, Connected.step, ConnEvent.after]

/-- A peer with two connections closes one of them: it is not known any more, and still
connected. -/
theorem connected_peer_forgotten :
    Each Connected.step Connected.Possible { transport := .new "me" 2 }
        [(0, .opened 0 "a"), (1, .opened 1 "a"), (2, .closed 0 "a")]
    ∧ Each Connected.step Connected.WithinCap { transport := .new "me" 2 }
        [(0, .opened 0 "a"), (1, .opened 1 "a"), (2, .closed 0 "a")]
    ∧ ¬ Always Connected.step Connected.KnownConnected { transport := .new "me" 2 }
        [(0, .opened 0 "a"), (1, .opened 1 "a"), (2, .closed 0 "a")] := by
  refine ⟨?_, ?_, ?_⟩
  · simp [Each, Connected.Possible, Connected.step, ConnEvent.after]
  · unfold Each Each Each Each Connected.WithinCap
    decide +kernel
  · intro h
    have hknown : Connected.KnownConnected _ := h.2.2.2
    unfold Connected.KnownConnected at hknown
    exact absurd hknown (by decide +kernel)

end Mycelium.Node
