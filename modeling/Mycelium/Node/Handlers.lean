import Mycelium.Core.Sync
import Mycelium.Node.State

/-!
# Mycelium node — the event handlers

Translation of the handlers of `NodeRunner` (`mycelium-node/src/node.rs`):

* `handleIncomingDirect` — frames of the eight `WireMessage` variants, one program per
  variant (`handleData`, `handleSyncBloom`, …), behind the throttle and the hop-signature
  gate of `EncryptedDirect`;
* `handleScopedReceived` — gossip, whose five accepting branches differ only in the body
  tag they store (`ingestGossip`);
* `handleTransportEvent`, `handleCommand`, `forwardOnce`, `syncKnownPeers`,
  `dialRendezvousList` — what the event loop calls.

Logging is left out. An early `return Ok(())` of the source ends its program here too.
-/

namespace Mycelium.Node

/-- `HashSet::insert` on a set kept as a list without duplicates. -/
def setInsert (set : List String) (x : String) : List String := if x ∈ set then set else set ++ [x]

theorem mem_setInsert {set : List String} {x p : String} :
    p ∈ setInsert set x ↔ p = x ∨ p ∈ set := by
  unfold setInsert
  split
  · next hmem =>
    refine ⟨.inr, ?_⟩
    rintro (rfl | hp)
    · exact hmem
    · exact hp
  · rw [List.mem_append, List.mem_singleton, or_comm]

theorem nodup_setInsert {set : List String} (h : set.Nodup) (x : String) : (setInsert set x).Nodup := by
  unfold setInsert
  split
  · exact h
  · next hnew =>
    refine List.nodup_append.mpr ⟨h, List.nodup_singleton x, ?_⟩
    intro y hy z hz heq
    rw [List.mem_singleton.mp hz] at heq
    exact hnew (heq ▸ hy)

/-- The scopes of an announcement that the node keeps. -/
def validatedScopes (scopes : List String) : List String :=
  ((scopes.filter fun s => s != "" && s.utf8ByteSize ≤ 128 && !s.toList.contains '\x00').take 32
    ).eraseDups

/-- `targets_for_scope`. -/
def targetsForScope (peerScopes : KvTree.Of String (List String)) (scope : String) : List String :=
  (peerScopes.entries.filter fun e => e.2.any (scopeMatches scope)).map Sigma.fst

/-- How `count * 0.8` is taken: over the rationals, or in `f64`. -/
inductive Arithmetic where
  | rational
  | binary64
deriving DecidableEq, Repr

/-- `own_ids.len() > count * 0.8`. -/
def Arithmetic.above : Arithmetic → Nat → UInt64 → Bool
  | .rational, own, count => ((count.toNat : ℚ) * (4 / 5) < own : Bool)
  | .binary64, own, count => aboveSyncThreshold own count

/-- `own_ids.len() < count * 0.8`. -/
def Arithmetic.below : Arithmetic → Nat → UInt64 → Bool
  | .rational, own, count => ((own : ℚ) < (count.toNat : ℚ) * (4 / 5) : Bool)
  | .binary64, own, count => belowSyncThreshold own count

section

variable [Prims] [World]

/-! ## Sending to one peer -/

/-- `send_sync_bloom`. -/
def sendSyncBloom (peerId : String) : NodeM Unit := do
  let ids ← listIdsWindow
  if ids.isEmpty then pure ()
  else
    sendDirect peerId (.syncBloom (BloomFilter.ofIds ids).toBytes (UInt64.ofNat ids.length))

/-- `send_scope_announce`. -/
def sendScopeAnnounce (peerId : String) : NodeM Unit := do
  let s ← get
  sendDirect peerId (.scopeAnnounce s.subscribedScopes)

/-- `send_peer_info`. -/
def sendPeerInfo (peerId : String) : NodeM Unit := do
  let s ← get
  sendDirect peerId (.peerInfo s.encKeypair.publicHex s.displayName s.subscribedScopes)

/-- `forward_wire_to_others`: failures are only logged. -/
def forwardWireToOthers (fromPeer : String) (message : WireMessage) : NodeM Unit := do
  let s ← get
  forM (s.transport.knownPeers.filter (· != fromPeer)) fun p => do
    let _ ← trySendDirect p message

/-! ## `Data` frames -/

/-- Forward by the probabilistic policy. -/
def forwardByPolicy (message : DirectMessage) (peers : List String) : NodeM Unit := do
  let s ← get
  let now ← nowMs
  match decideForward message s.localPeerId peers s.nodeState now with
  | .forwardTo targets => forM targets fun target => do
      let s ← get
      enqueue target (forwardCopy s.relayIdentity message)
  | _ => pure ()

/-- What happens to a `Data` message after it was stored and handed to the app: it has
arrived, or it is dropped, or it is queued for other peers. -/
def routeData (fromPeer : String) (message : DirectMessage) : NodeM Unit := do
  let s ← get
  if message.envelope.toPeer = some s.localPeerId then
    updateMetrics fun m => { m with messagesDeliveredLocal := m.messagesDeliveredLocal + 1 }
  else
    let now ← nowMs
    -- the time to live is asked again, it was before the message was stored
    if message.isExpired now then
      updateMetrics fun m => { m with messagesDroppedTtl := m.messagesDroppedTtl + 1 }
    else if !canForward s.nodeState message.envelope.priority then pure ()
    else
      let peers := s.transport.knownPeers.filter (· != fromPeer)
      match message.envelope.toPeer with
      | some target =>
        if target ∈ peers then enqueue target (forwardCopy s.relayIdentity message)
        else
          -- an unknown target is looked for, and meanwhile any neighbour may pass the message on
          emit (.kadFindPeer target)
          forwardByPolicy message peers
      | none => forwardByPolicy message peers

/-- The guarded part of the `Data` branch: freshness, replay, rate, then the pipeline. -/
def ingestData (fromPeer : String) (message : DirectMessage) : NodeM Unit := do
  let now ← nowMs
  match ← guardCheck (IngestGuard.allowDirect message.envelope.signatureAuthorPeer message now) with
  | .error reason =>
    recordIngestReject reason
    if reason = .rateLimit ∨ reason = .replay then registerStrike fromPeer
  | .ok () =>
    if ← ingest message false then
      rewardPeer fromPeer
      emit (.deliver .data message)
      routeData fromPeer message
    else registerStrike fromPeer

/-- The `Data` branch. -/
def handleData (fromPeer : String) (message : DirectMessage) : NodeM Unit := do
  let _ ← nowMs
  match validateDataMessageSignature message with
  | .error .invalidSignature =>
    updateMetrics fun m =>
      { m with messagesDroppedInvalidSig := m.messagesDroppedInvalidSig + 1 }
    registerStrike fromPeer
  | .error _ =>
    updateMetrics fun m => { m with messagesDroppedNoSig := m.messagesDroppedNoSig + 1 }
  | .ok () =>
    if message.envelope.maxHops ≤ message.envelope.hopCount then
      updateMetrics fun m => { m with messagesDroppedHops := m.messagesDroppedHops + 1 }
    else ingestData fromPeer message

/-! ## Anti-entropy frames -/

/-- The `SyncBloom` branch, with the comparison as a parameter. -/
def handleSyncBloomBy (a : Arithmetic) (fromPeer : String) (bloom : Bytes) (count : UInt64) :
    NodeM Unit :=
  match BloomFilter.fromBytes bloom with
  | none => pure ()
  | some remoteBloom => do
    let ownIds ← listIdsWindow
    let sendToRemote := ownIds.filter fun id => !remoteBloom.contains id
    if a.above ownIds.length count && !sendToRemote.isEmpty then
      sendDirect fromPeer (.syncIds (sendToRemote.take 256))
    else if a.below ownIds.length count then
      sendDirect fromPeer
        (.syncBloom (BloomFilter.ofIds ownIds).toBytes (UInt64.ofNat ownIds.length))
    else pure ()

/-- The `SyncBloom` branch. -/
def handleSyncBloom (fromPeer : String) (bloom : Bytes) (count : UInt64) : NodeM Unit :=
  handleSyncBloomBy .binary64 fromPeer bloom count

def handleSyncIds (fromPeer : String) (ids : List String) : NodeM Unit := do
  let s ← get
  let missing := (ids.take 256).filter fun id => !s.store.contains id
  if missing.isEmpty then pure () else sendDirect fromPeer (.syncRequest missing)

def handleSyncRequest (fromPeer : String) (ids : List String) : NodeM Unit := do
  let s ← get
  let messages := (ids.take 128).filterMap s.store.loadById
  if messages.isEmpty then pure () else sendDirect fromPeer (.syncData messages)

def handleSyncData (messages : List DirectMessage) : NodeM Unit :=
  forM messages fun message => do
    let _ ← ingest message false

/-! ## Peer announcements -/

/-- Remember the encryption key of a peer, if its hex parses. -/
def storeEncKey (peer encPubkeyHex : String) : NodeM Unit :=
  match parseX25519PublicHex encPubkeyHex with
  | some pk => modify fun s => { s with peerX25519 := s.peerX25519.insert peer pk }
  | none => pure ()

/-- Remember the announced scopes of a peer, if any are left. -/
def storePeerScopes (peer : String) (validated : List String) : NodeM Unit :=
  if validated.isEmpty then pure ()
  else modify fun s => { s with peerScopes := s.peerScopes.insert peer validated }

def handlePeerInfo (fromPeer encPubkeyHex : String) (supportedScopes : List String) :
    NodeM Unit := do
  storeEncKey fromPeer encPubkeyHex
  storePeerScopes fromPeer (validatedScopes supportedScopes)

def handleScopeAnnounce (fromPeer : String) (scopes : List String) : NodeM Unit := do
  let s ← get
  if fromPeer ∈ s.transport.knownPeers then storePeerScopes fromPeer (validatedScopes scopes)
  else pure ()

/-! ## `EncryptedDirect` frames -/

/-- Deliver a decrypted payload to the app. -/
def deliverEncrypted (fromPeer senderEncPubkey : String) (plain : Bytes) : NodeM Unit := do
  let inner := unwrapInner plain fromPeer
  storeEncKey inner.1 senderEncPubkey
  let s ← get
  let now ← nowMs
  emit (.deliver .encrypted
    { envelope := Envelope.new now inner.1 (some s.localPeerId) inner.2, body := "[encrypted]" })
  updateMetrics fun m => { m with messagesDeliveredLocal := m.messagesDeliveredLocal + 1 }

/-- The frame that leaves a relay: one more hop, signed with the relay's own key pair. If
signing fails the old signature stays. -/
def forwardEncrypted (relay : RelayIdentity) (toPeer senderEncPubkey : String)
    (encryptedPayload : Bytes) (meshSignature : Option Bytes) (hopCount maxHops : UInt8) :
    WireMessage :=
  (signEncryptedDirect (.encryptedDirect toPeer senderEncPubkey encryptedPayload meshSignature
    (U8.satAdd hopCount 1) maxHops) relay.keypair).2

def handleEncryptedDirect (fromPeer toPeer senderEncPubkey : String) (encryptedPayload : Bytes)
    (meshSignature : Option Bytes) (hopCount maxHops : UInt8) : NodeM Unit := do
  let s ← get
  if toPeer = s.localPeerId then
    match decryptWith encryptedPayload s.encKeypair with
    | .error e => throw e
    | .ok plain => deliverEncrypted fromPeer senderEncPubkey plain
  else if hopCount < maxHops then
    forwardWireToOthers fromPeer (forwardEncrypted s.relayIdentity toPeer senderEncPubkey
      encryptedPayload meshSignature hopCount maxHops)
  else updateMetrics fun m => { m with messagesDroppedHops := m.messagesDroppedHops + 1 }

/-- Why the hop-signature gate refuses a frame. -/
inductive HopGate where
  | pass
  | noSignature
  | unparseableSender
  | invalidSignature
deriving DecidableEq, Repr

/-- The gate at the start of `handle_incoming_direct`: an `EncryptedDirect` frame must carry
a signature of the peer whose connection it arrived on. -/
def hopGate (fromPeer : String) (message : WireMessage) : HopGate :=
  match message with
  | .encryptedDirect _ _ _ none _ _ => .noSignature
  | .encryptedDirect _ _ _ (some _) _ _ =>
    match Prims.parsePeerId fromPeer with
    | none => .unparseableSender
    | some senderId => if verifyEncryptedDirect message senderId then .pass else .invalidSignature
  | _ => .pass

/-! ## `handle_incoming_direct` -/

/-- The body of `handle_incoming_direct`, past the throttle and the gate. -/
def handleWireMessage (fromPeer : String) (message : WireMessage) : NodeM Unit :=
  match message with
  | .data message => handleData fromPeer message
  | .syncBloom bloom count => handleSyncBloom fromPeer bloom count
  | .syncIds ids => handleSyncIds fromPeer ids
  | .syncRequest ids => handleSyncRequest fromPeer ids
  | .syncData messages => handleSyncData messages
  | .peerInfo encPubkeyHex _ supportedScopes => handlePeerInfo fromPeer encPubkeyHex supportedScopes
  | .encryptedDirect toPeer senderEncPubkey encryptedPayload meshSignature hopCount maxHops =>
    handleEncryptedDirect fromPeer toPeer senderEncPubkey encryptedPayload meshSignature hopCount
      maxHops
  | .encryptedGroup _ _ => forwardWireToOthers fromPeer message
  | .scopeAnnounce scopes => handleScopeAnnounce fromPeer scopes

/-- Count what the gate refuses, continue with what it passes. -/
def afterGate (gate : HopGate) (handle : NodeM Unit) : NodeM Unit :=
  match gate with
  | .noSignature =>
    updateMetrics fun m => { m with messagesDroppedNoSig := m.messagesDroppedNoSig + 1 }
  | .unparseableSender => pure ()
  | .invalidSignature =>
    updateMetrics fun m =>
      { m with messagesDroppedInvalidSig := m.messagesDroppedInvalidSig + 1 }
  | .pass => handle

/-- `handle_incoming_direct`. -/
def handleIncomingDirect (fromPeer : String) (message : WireMessage) : NodeM Unit := do
  if ← isThrottled fromPeer then pure ()
  else afterGate (hopGate fromPeer message) (handleWireMessage fromPeer message)

/-! ## Gossip -/

/-- Check one gossip message against the guard, store it and deliver it. -/
def acceptGossip (fromPeer : String) (stored : DirectMessage) (now : UInt64) : NodeM Unit := do
  match ← guardCheck
      (IngestGuard.checkGossipMessage fromPeer stored.envelope.id stored.envelope.createdAtMs now) with
  | .error reason => recordIngestReject reason
  | .ok () =>
    if ← ingest stored false then emit (.deliver .gossip stored) else pure ()

/-- A gossip payload becomes an unsigned message under the given body. -/
def ingestGossip (fromPeer : String) (payload : Bytes) (body : String) (now : UInt64) :
    NodeM Unit := do
  let created ← nowMs
  acceptGossip fromPeer { envelope := .newUnsigned created fromPeer none payload, body } now

/-- The body under which a gossip payload is stored, if any. -/
def gossipBody [WireCodec] (scope : String) (payload : Bytes) : Option String :=
  if startsWith scope "mycelium/group/"
      && (match WireCodec.decode payload with
          | some (.encryptedGroup _ _) => true
          | _ => false) then some "[mycelium:group]"
  else if scope = "mycelium/appstore/v1" then some "[appstore]"
  else if scope = "mycelium/proximity/v1" then some "[proximity]"
  else if (asBytes "enc1:").isPrefixOf payload || (fromUtf8 payload).isNone then
    some ("[bulletin:" ++ scope ++ "]")
  else fromUtf8 payload

/-- The `ScopedReceived` branch. -/
def handleScopedReceived [WireCodec] (fromPeer scope : String) (payload : Bytes) : NodeM Unit := do
  let s ← get
  if s.subscribedScopes.any (scopeMatches scope) then
    let now ← nowMs
    match ← guardCheck (IngestGuard.checkGossipPayload fromPeer payload.length now) with
    | .error reason => recordIngestReject reason
    | .ok () =>
      match gossipBody scope payload with
      | some body => ingestGossip fromPeer payload body now
      | none => pure ()
  else pure ()

/-! ## Transport events -/

def handlePeerUp (peerId : String) : NodeM Unit := do
  if isRelayPeer peerId then pure ()
  else
    modify fun s => { s with peers := setInsert s.peers peerId }
    sendScopeAnnounce peerId
    sendPeerInfo peerId
    sendSyncBloom peerId

def handlePeerDown (peerId : String) : NodeM Unit :=
  modify fun s => { s with
    peers := s.peers.filter (· != peerId)
    peerScopes := s.peerScopes.erase peerId
    peerX25519 := s.peerX25519.erase peerId }

/-- `handle_transport_event`. -/
def handleTransportEvent [WireCodec] (event : TransportEvent) : NodeM Unit :=
  match event with
  | .listening address => modify fun s => { s with listenAddrs := setInsert s.listenAddrs address }
  | .peerUp peerId => handlePeerUp peerId
  | .peerDown peerId => handlePeerDown peerId
  | .directReceived fromPeer message => handleIncomingDirect fromPeer message
  | .scopedReceived fromPeer scope payload => handleScopedReceived fromPeer scope payload
  | .directAck _ _ => pure ()
  | .sendFailure _ _ => pure ()
  | .connectivityChanged _ => pure ()

/-! ## Commands -/

inductive NodeCommand where
  | sendDirect (toPeer body : String)
  | sendDirectPayload (toPeer body : String) (payload : Bytes)
  | broadcast (scope body : String)
  | broadcastPayload (scope body : String) (payload : Bytes)
  | sendWire (toPeer : String) (message : WireMessage)
  | addBootstrapPeer (multiaddr : String)
  | subscribeScope (scope : String)
  | unsubscribeScope (scope : String)
  | subscribeBulletinScope (scope : String)
  | unsubscribeBulletinScope (scope : String)
  | gcNow (reply : Bool)
  | storeStats (reply : Bool)
  | listPeers
  | setEnergyState (state : NodeState)
  | setRendezvousEnabled (enabled : Bool)
deriving DecidableEq, Repr

/-- A new message of this node, signed if it has a key (a failed signature is ignored). -/
def newMessage (toPeer : Option String) (body : String) (payload : Bytes) : NodeM DirectMessage := do
  let s ← get
  let now ← nowMs
  let envelope := Envelope.new now s.localPeerId toPeer payload
  let envelope := match s.keypair with
    | some keypair => (envelope.sign keypair).2
    | none => envelope
  return { envelope, body }

/-- `send_direct_internal`. -/
def sendDirectInternal (toPeer body : String) (payload : Bytes) : NodeM Unit := do
  let msg ← newMessage (some toPeer) body payload
  let _ ← ingest msg false
  let s ← get
  let peers := s.transport.knownPeers
  if toPeer ∈ peers then enqueue toPeer msg
  else if peers.isEmpty then pure ()
  else
    let peerStrikes : KvTree.Of String UInt8 :=
      s.peerReputations.entries.foldr (fun e t => t.insert e.1 e.2.strikes) ∅
    forM (selectRelayCandidates peers toPeer peerStrikes s.maxRelayFanout) fun peer =>
      enqueue peer msg

/-- `broadcast_scoped`: to the peers that announced the scope, else over gossip. -/
def broadcastScoped (scope body : String) (payload : Bytes) : NodeM Unit := do
  let s ← get
  let targets := targetsForScope s.peerScopes scope
  if targets.isEmpty then publishScoped scope payload
  else
    forM targets fun toPeer => do
      let msg ← newMessage none body payload
      let _ ← ingest msg false
      enqueue toPeer msg

/-- The signing step of `SendWire`. -/
def signWire (keypair : Option Keypair) (message : WireMessage) : Except String Unit × WireMessage :=
  match message, keypair with
  | .encryptedDirect .., some keypair => signEncryptedDirect message keypair
  | _, _ => (.ok (), message)

def handleSendWire (toPeer : String) (message : WireMessage) : NodeM Unit := do
  let s ← get
  match signWire s.keypair message with
  | (.error e, _) => throw e
  | (.ok (), message) => sendDirect toPeer message

/-- The gossip topic of a scope without a wildcard. -/
def subscribeTopic (scope : String) : NodeM Unit :=
  if scope.toList.contains '*' then pure () else emit (.subscribe scope)

def unsubscribeTopic (scope : String) : NodeM Unit :=
  if scope.toList.contains '*' then pure () else emit (.unsubscribe scope)

def handleSubscribeBulletin (scope : String) : NodeM Unit := do
  let scope := trim scope
  if scope = "" then pure ()
  else
    modify fun s => { s with
      bulletinSubscriptions := setInsert s.bulletinSubscriptions scope
      subscribedScopes := setInsert s.subscribedScopes scope }
    subscribeTopic scope

/-- `handle_command`. -/
def handleCommand (cmd : NodeCommand) : NodeM Unit :=
  match cmd with
  | .sendDirect toPeer body => sendDirectInternal toPeer body (asBytes body)
  | .sendDirectPayload toPeer body payload => sendDirectInternal toPeer body payload
  | .broadcast scope body => broadcastScoped scope body (asBytes body)
  | .broadcastPayload scope body payload => broadcastScoped scope body payload
  | .sendWire toPeer message => handleSendWire toPeer message
  | .addBootstrapPeer multiaddr => do
    emit (.persistDialPeer multiaddr)
    if ← worldCall fun n => World.dialOk n multiaddr then emit (.dial multiaddr)
    else throw "remember_and_dial failed"
  | .subscribeScope scope => do
    modify fun s => { s with subscribedScopes := setInsert s.subscribedScopes scope }
    subscribeTopic scope
  | .unsubscribeScope scope => do
    modify fun s => { s with subscribedScopes := s.subscribedScopes.erase scope }
    unsubscribeTopic scope
  | .subscribeBulletinScope scope => handleSubscribeBulletin scope
  | .unsubscribeBulletinScope scope => do
    modify fun s => { s with
      bulletinSubscriptions := s.bulletinSubscriptions.filter (· != scope)
      subscribedScopes := s.subscribedScopes.erase scope }
    unsubscribeTopic scope
  | .gcNow reply => do
    let deleted ← gcExpired
    if reply then emit (.gcReply deleted)
  | .storeStats reply => do
    let s ← get
    if reply then emit (.statsReply s.store.stats)
  | .listPeers => modify fun s => { s with peers := s.transport.knownPeers }
  | .setEnergyState state => modify fun s => { s with nodeState := state }
  | .setRendezvousEnabled enabled => modify fun s => { s with rendezvousEnabled := enabled }

/-! ## Ticks -/

/-- Send one queued entry, unless it expired or the energy state forbids it. -/
def forwardItem (state : NodeState) (item : PendingMessage) : NodeM Unit := do
  let now ← nowMs
  if item.message.isExpired now then pure ()
  else if !canForward state item.message.envelope.priority then pure ()
  else if ← trySendDirect item.toPeer (.data item.message) then
    updateMetrics fun m => { m with messagesForwarded := m.messagesForwarded + 1 }
  else pure ()

/-- The entries `forward_once` takes from the queue, at most `budget`. -/
def forwardPending : Nat → NodeM Unit
  | 0 => pure ()
  | budget + 1 => do
    let s ← get
    match s.pending with
    | [] => pure ()
    | item :: rest =>
      modify fun s => { s with pending := rest }
      forwardItem s.nodeState item
      forwardPending budget

/-- The queue budget of one tick. -/
def forwardBudget : NodeState → Nat
  | .active => 10
  | .intermittent => 4
  | .passive => 1

/-- `forward_once`. -/
def forwardOnce : NodeM Unit := do
  maybeRotateRelayKeypair
  evictExpired
  let s ← get
  forwardPending (forwardBudget s.nodeState)
  modify fun s => { s with metrics := { s.metrics with
    pendingQueueSize := s.pending.length
    seenCacheSize := s.seenCache.len
    connectedPeers := s.transport.connectedPeerCount
    maxPeers := s.transport.maxDirectPeers
    peerCapRejections := s.transport.peerCapRejections } }

/-- `sync_known_peers`. -/
def syncKnownPeers : NodeM Unit := do
  let s ← get
  forM s.transport.knownPeers sendSyncBloom

/-- `dial_rendezvous_list`. -/
def dialRendezvousList (remoteIds : List String) : NodeM Unit := do
  let s ← get
  let known := s.peers ++ s.transport.knownPeers
  forM remoteIds fun remote => do
    if remote = s.localPeerId ∨ remote = relayPeerId ∨ remote ∈ known then pure ()
    else
      match relayCircuitMultiaddr remote with
      | none => pure ()
      | some addr => if ← worldCall fun n => World.dialOk n addr then emit (.dial addr)

end

end Mycelium.Node
