import Mycelium.Lib.Hoare
import Mycelium.Core.Crypto
import Mycelium.Node.Forwarding
import Mycelium.Node.IngestGuard
import Mycelium.Node.Security
import Mycelium.Node.Storage

/-!
# Mycelium node — the runner's state and its primitive operations

Translation of the state of `NodeRunner` (`mycelium-node/src/node.rs`) and of the methods
its handlers are built from. A method is a program in `NodeM`: it reads and changes the
runner and may fail with the text of an `anyhow` error, which ends the event loop.

What the runner does not control is a parameter, `World`: the readings of the clocks, the
keys drawn, and the outcomes of transport calls, one for each call the node makes (`calls`
counts them). What it does to the outside is the list `out`: frames sent, messages handed
to the app over `incoming_tx`, messages put in the queue.

* `ingest` — the ingest pipeline: drop what is expired or known, store the rest;
* `enqueue` / `evictOne` — the bounded queue of messages to forward;
* `isThrottled` / `registerStrike` / `rewardPeer` — peer reputation.
-/

namespace Mycelium.Node

/-- `RELAY_KEY_ROTATION_SECS`. -/
def relayKeyRotationSecs : Nat := 86400

/-- `SYSTEM_SCOPES`. -/
def systemScopes : List String := ["mycelium/chat", "mycelium/coin/v1", "mycelium/appstore/v1"]

/-- `RELAY_PEER_ID`, the public bootstrap relay. -/
def relayPeerId : String := "12D3KooWSkVL5ThExB7paWskDKc2pUobKrV9yWVabMpUdw8hE2wj"

/-- `is_relay_peer`. -/
def isRelayPeer (peerId : String) : Bool := trim peerId == relayPeerId

/-- `relay_circuit_multiaddr`, over the first bootstrap address that is a TCP one. -/
def relayCircuitMultiaddr (remotePeerId : String) : Option String :=
  let remote := trim remotePeerId
  if remote = "" then none
  else some ("/ip4/149.248.194.198/tcp/4001/p2p/" ++ relayPeerId ++ "/p2p-circuit/p2p/" ++ remote)

/-! ## What the node does not control -/

/-- The outcome of the `n`-th call the node makes to its environment. -/
class World where
  /-- `now_ms()`. -/
  clock : Nat → UInt64
  /-- `Instant::now()`, in milliseconds. -/
  instant : Nat → Nat
  /-- `Keypair::generate_ed25519()`. -/
  generateKeypair : Nat → Keypair
  /-- Whether `transport.send_direct` to the peer returns `Ok`. -/
  sendOk : Nat → String → Bool
  /-- Whether `transport.publish_scoped` returns `Ok`. -/
  publishOk : Nat → String → Bool
  /-- Whether `transport.remember_and_dial` returns `Ok`. -/
  dialOk : Nat → String → Bool

/-- `bincode::deserialize::<WireMessage>`. -/
class WireCodec where
  decode : Bytes → Option WireMessage

/-! ## The state of the runner -/

/-- What the transport reports about itself during one step of the loop. -/
structure TransportView where
  knownPeers : List String := []
  connectedPeerCount : Nat := 0
  maxDirectPeers : Nat := 50
  peerCapRejections : Nat := 0

/-- `RelayIdentity`: the key pair under which relayed frames leave, and when it was made. -/
structure RelayIdentity where
  keypair : Keypair
  createdAt : Nat

structure NodeMetrics where
  messagesForwarded : Nat := 0
  messagesDroppedTtl : Nat := 0
  messagesDroppedHops : Nat := 0
  messagesDroppedQueue : Nat := 0
  messagesDroppedInvalidSig : Nat := 0
  messagesDroppedNoSig : Nat := 0
  messagesDroppedRateLimit : Nat := 0
  messagesDroppedReplay : Nat := 0
  messagesDroppedOversize : Nat := 0
  messagesDeliveredLocal : Nat := 0
  pendingQueueSize : Nat := 0
  seenCacheSize : Nat := 0
  connectedPeers : Nat := 0
  maxPeers : Nat := 0
  peerCapRejections : Nat := 0
deriving DecidableEq, Repr

/-- `PeerReputationSnapshot`. -/
structure PeerReputation where
  strikes : UInt8 := 0
  lastStrikeMs : UInt64 := 0
  throttledUntilMs : UInt64 := 0
deriving DecidableEq, Repr

/-- A peer quiet for ten minutes loses its strikes. -/
def PeerReputation.decayed (rep : PeerReputation) (now : UInt64) : PeerReputation :=
  if 10 * 60 * 1000 < U64.satSub now rep.lastStrikeMs then { rep with strikes := 0 } else rep

@[simp] theorem PeerReputation.decayed_throttledUntilMs (rep : PeerReputation) (now : UInt64) :
    (rep.decayed now).throttledUntilMs = rep.throttledUntilMs := by
  unfold decayed
  split <;> rfl

structure PendingMessage where
  toPeer : String
  message : DirectMessage
deriving DecidableEq, Repr

/-- Which branch of the node sent a message to `incoming_tx`. -/
inductive Via where
  | data
  | encrypted
  | gossip
deriving DecidableEq, Repr

/-- Something the node did. -/
inductive Output where
  | deliver (via : Via) (message : DirectMessage)
  | sendDirect (toPeer : String) (message : WireMessage)
  | enqueued (toPeer : String) (message : DirectMessage)
  | publish (scope : String) (payload : Bytes)
  | subscribe (scope : String)
  | unsubscribe (scope : String)
  | kadFindPeer (target : String)
  | persistDialPeer (multiaddr : String)
  | dial (multiaddr : String)
  | redialStoredTargets
  | gcReply (deleted : Nat)
  | statsReply (stats : StoreStats)
deriving DecidableEq, Repr

/-- `NodeRunner`, with the shared cells of `NodeHandle` in place. -/
structure NodeRunner where
  transport : TransportView
  keypair : Option Keypair
  localPeerId : String
  store : SledMessageStore
  seenCache : BasicSeenCache
  nodeState : NodeState
  pending : List PendingMessage
  pendingCap : Nat
  metrics : NodeMetrics
  peers : List String
  subscribedScopes : List String
  peerScopes : KvTree.Of String (List String)
  peerReputations : KvTree.Of String PeerReputation
  encKeypair : EncryptionKeypair
  displayName : Option String
  peerX25519 : KvTree.Of String X25519Key
  maxRelayFanout : Nat
  listenAddrs : List String
  rendezvousEnabled : Bool
  relayIdentity : RelayIdentity
  bulletinSubscriptions : List String
  ingestGuard : IngestGuard
  /-- Calls made to the `World` so far. -/
  calls : Nat
  /-- What the node did so far, oldest first. -/
  out : List Output

/-- A method of the runner. -/
abbrev NodeM := EStateM String NodeRunner

/-! ## Calls and effects -/

/-- Make one call to the environment and return its outcome. -/
def worldCall {α : Type} (f : Nat → α) : NodeM α :=
  modifyGet fun s => (f s.calls, { s with calls := s.calls + 1 })

/-- Record something the node does. -/
def emit (o : Output) : NodeM Unit := modify fun s => { s with out := s.out ++ [o] }

def updateMetrics (f : NodeMetrics → NodeMetrics) : NodeM Unit :=
  modify fun s => { s with metrics := f s.metrics }

section

variable [World]

/-- `now_ms()`. -/
def nowMs : NodeM UInt64 := worldCall World.clock

/-- `transport.send_direct`, with its `Result` as a `Bool`. -/
def trySendDirect (toPeer : String) (message : WireMessage) : NodeM Bool := do
  if ← worldCall fun n => World.sendOk n toPeer then do
    emit (.sendDirect toPeer message)
    return true
  else return false

/-- `transport.send_direct(..).await?`. -/
def sendDirect (toPeer : String) (message : WireMessage) : NodeM Unit := do
  if ← trySendDirect toPeer message then pure () else throw "send_direct failed"

/-- `transport.publish_scoped(..).await?`. -/
def publishScoped (scope : String) (payload : Bytes) : NodeM Unit := do
  if ← worldCall fun n => World.publishOk n scope then emit (.publish scope payload)
  else throw "publish_scoped failed"

/-! ## Reputation -/

/-- `is_throttled`. -/
def isThrottled (peer : String) : NodeM Bool := do
  let now ← nowMs
  let s ← get
  match s.peerReputations.lookup peer with
  | none => return false
  | some rep =>
    modify fun s => { s with peerReputations := s.peerReputations.insert peer (rep.decayed now) }
    return now < (rep.decayed now).throttledUntilMs

/-- `register_strike`; the third strike within a minute of each other throttles the peer. -/
def registerStrike (peer : String) : NodeM Unit := do
  let now ← nowMs
  modify fun s =>
    let rep := (s.peerReputations.lookup peer).getD {}
    let strikes := if 60 * 1000 < U64.satSub now rep.lastStrikeMs then 0 else rep.strikes
    let rep := { rep with strikes := U8.satAdd strikes 1, lastStrikeMs := now }
    let rep := if 3 ≤ rep.strikes then { rep with throttledUntilMs := now + 5 * 60 * 1000 }
      else rep
    { s with peerReputations := s.peerReputations.insert peer rep }

end

/-- `reward_peer`. -/
def rewardPeer (peer : String) : NodeM Unit :=
  modify fun s =>
    match s.peerReputations.lookup peer with
    | none => s
    | some rep => { s with
        peerReputations := s.peerReputations.insert peer { rep with strikes := rep.strikes / 2 } }

/-- `record_ingest_reject`; the source updates the counters from a spawned task. -/
def recordIngestReject (reason : IngestReject) : NodeM Unit :=
  updateMetrics fun m =>
    match reason with
    | .rateLimit => { m with messagesDroppedRateLimit := m.messagesDroppedRateLimit + 1 }
    | .replay => { m with messagesDroppedReplay := m.messagesDroppedReplay + 1 }
    | .stale => { m with messagesDroppedReplay := m.messagesDroppedReplay + 1 }
    | .oversize => { m with messagesDroppedOversize := m.messagesDroppedOversize + 1 }

/-- Run a check of the ingest guard and keep its new state. -/
def guardCheck (check : IngestGuard → Except IngestReject Unit × IngestGuard) :
    NodeM (Except IngestReject Unit) :=
  modifyGet fun s => ((check s.ingestGuard).1, { s with ingestGuard := (check s.ingestGuard).2 })

section

variable [World]

/-! ## The ingest pipeline -/

/-- The second half of `IngestPipeline::ingest`: unless the id is known, remember it and
persist the message. -/
def ingestUnseen (msg : DirectMessage) : NodeM Bool := do
  let s ← get
  if s.seenCache.contains msg.envelope.id || s.store.contains msg.envelope.id then return false
  else
    modify fun s => { s with seenCache := s.seenCache.insert msg.envelope.id }
    let ts ← nowMs
    modify fun s => { s with store := s.store.persist ts msg }
    return true

/-- `IngestPipeline::ingest`. -/
def ingest [Prims] (msg : DirectMessage) (verify : Bool) : NodeM Bool := do
  let now ← nowMs
  if msg.isExpired now then return false
  else if verify then
    match Prims.parsePeerId msg.envelope.signatureAuthorPeer with
    | none => return false
    | some peerId =>
      let now ← nowMs
      if msg.envelope.verifyOrTransition peerId now then ingestUnseen msg else return false
  else ingestUnseen msg

/-- `store.gc_expired()`. -/
def gcExpired : NodeM Nat := do
  let now ← nowMs
  modifyGet fun s => ((s.store.gcExpired now).1, { s with store := (s.store.gcExpired now).2 })

/-- `store.list_ids_window(Duration::from_secs(600))`. -/
def listIdsWindow : NodeM (List String) := do
  let now ← nowMs
  let s ← get
  return s.store.listIdsWindow now 600000

/-! ## The queue of messages to forward -/

/-- `evict_expired`. -/
def evictExpired : NodeM Unit := do
  let now ← nowMs
  modify fun s => { s with pending := s.pending.filter fun item => !item.message.isExpired now }

end

/-- `priority_rank`. -/
def priorityRank : Priority → UInt8
  | .low => 0
  | .normal => 1
  | .high => 2

/-- The search of `evict_one` for the first entry of least rank below `rank`, from index
`idx` on; `best` is what was found before. -/
def evictCandidate : List PendingMessage → Nat → UInt8 → Option Nat → Option Nat
  | [], _, _, best => best
  | item :: rest, idx, rank, best =>
    let r := priorityRank item.message.envelope.priority
    if r < rank then
      if r = 0 then some idx else evictCandidate rest (idx + 1) r (some idx)
    else evictCandidate rest (idx + 1) rank best

/-- What `evict_one` removes when nothing has expired. -/
def removeCandidate (pending : List PendingMessage) : List PendingMessage :=
  match evictCandidate pending 0 3 none with
  | some idx => pending.eraseIdx idx
  | none => pending.tail

section

variable [World]

/-- `evict_one`. -/
def evictOne : NodeM Unit := do
  evictExpired
  modify fun s =>
    if s.pending.length < s.pendingCap then s
    else { s with pending := removeCandidate s.pending }

/-- Make room for one entry, if the queue is full. -/
def makeRoom : NodeM Unit := do
  let s ← get
  if s.pendingCap ≤ s.pending.length then evictOne

/-- `enqueue`. -/
def enqueue (toPeer : String) (message : DirectMessage) : NodeM Unit := do
  let now ← nowMs
  -- an expired message is no error
  if message.isExpired now then pure ()
  else
    -- the queue may still be full of messages of higher priority
    makeRoom
    let s ← get
    if s.pendingCap ≤ s.pending.length then
      updateMetrics fun m => { m with messagesDroppedQueue := m.messagesDroppedQueue + 1 }
      throw "pending queue is full"
    else
      modify fun s =>
        { s with
          pending := s.pending ++ [{ toPeer, message }]
          metrics := { s.metrics with
            pendingQueueSize := s.pending.length + 1
            seenCacheSize := s.seenCache.len } }
      emit (.enqueued toPeer message)

/-! ## The relay identity -/

/-- `maybe_rotate_relay_keypair`. -/
def maybeRotateRelayKeypair : NodeM Unit := do
  let now ← worldCall World.instant
  let s ← get
  if relayKeyRotationSecs < (now - s.relayIdentity.createdAt) / 1000 then
    let keypair ← worldCall World.generateKeypair
    let createdAt ← worldCall World.instant
    modify fun s => { s with relayIdentity := { keypair, createdAt } }

end

/-- `apply_relay_forward_mask`: the relay's id replaces `from_peer`, the first relay records
the author. -/
def applyRelayForwardMask [Prims] (relay : RelayIdentity) (message : DirectMessage) :
    DirectMessage :=
  let e := message.envelope
  { message with envelope :=
      { e with
        authorPeer := if e.authorPeer.isNone then some e.fromPeer else e.authorPeer
        fromPeer := relay.keypair.peerIdString } }

/-- The copy of a message that leaves a relay: one more hop, then the mask. -/
def forwardCopy [Prims] (relay : RelayIdentity) (message : DirectMessage) : DirectMessage :=
  applyRelayForwardMask relay { message with
    envelope := { message.envelope with hopCount := U8.satAdd message.envelope.hopCount 1 } }

end Mycelium.Node
