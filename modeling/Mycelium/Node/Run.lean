import Mycelium.Node.Handlers

/-!
# Mycelium node — runs of the event loop

Translation of `NodeRunner::new_with_transport` and `NodeRunner::run`. The `select!` loop
handles one input at a time, in whatever order they become ready: a run is a list of
inputs, each with what the transport reports while it is handled. The first error leaves
the loop, so a failed run keeps the state and the outputs up to the failure.
-/

namespace Mycelium.Node

/-- What a runner is created from: the identity the transport loaded, the keys and the
message database found on disk, and the parts of `NodeConfig` the loop uses. -/
structure NodeConfig where
  keypair : Option Keypair
  localPeerId : String
  encKeypair : EncryptionKeypair
  relayIdentity : RelayIdentity
  db : KvTree.Of String DirectMessage := ∅
  displayName : Option String := none
  maxRelayFanout : Nat := 3
  rendezvousEnabled : Bool := true
  bulletinSubscriptions : List String := []

/-- `NodeRunner::new_with_transport`. -/
def NodeRunner.new (c : NodeConfig) : NodeRunner where
  transport := {}
  keypair := c.keypair
  localPeerId := c.localPeerId
  store := .openDb c.db
  seenCache := .new 16384
  nodeState := .active
  pending := []
  pendingCap := 1024
  metrics := {}
  peers := []
  subscribedScopes := systemScopes ++ ["mycelium/group/*"]
  peerScopes := ∅
  peerReputations := ∅
  encKeypair := c.encKeypair
  displayName := c.displayName
  peerX25519 := ∅
  maxRelayFanout := c.maxRelayFanout
  listenAddrs := []
  rendezvousEnabled := c.rendezvousEnabled
  relayIdentity := c.relayIdentity
  bulletinSubscriptions := c.bulletinSubscriptions
  ingestGuard := {}
  calls := 0
  out := []

/-- One branch of the `select!` becoming ready. -/
inductive Input where
  | transportEvent (event : TransportEvent)
  | transportError (reason : String)
  | command (cmd : NodeCommand)
  | rendezvous (remoteIds : List String)
  | forwardTick
  | syncTick
  | gcTick
  | dialTick
deriving DecidableEq, Repr

section

variable [Prims] [World] [WireCodec]

/-- The subscriptions `run` makes before its loop. -/
def startup : NodeM Unit := do
  forM systemScopes fun scope => emit (.subscribe scope)
  let s ← get
  forM s.bulletinSubscriptions fun scope => do
    emit (.subscribe scope)
    modify fun s => { s with subscribedScopes := setInsert s.subscribedScopes scope }
  emit .redialStoredTargets

/-- Handle one input. -/
def handleInput (input : Input) : NodeM Unit :=
  match input with
  | .transportEvent event => handleTransportEvent event
  | .transportError reason => throw reason
  | .command cmd => handleCommand cmd
  | .rendezvous remoteIds => dialRendezvousList remoteIds
  | .forwardTick => forwardOnce
  | .syncTick => syncKnownPeers
  | .gcTick => do
    let _ ← gcExpired
  | .dialTick => emit .redialStoredTargets

/-- Handle one input while the transport reports `view`. -/
def step (view : TransportView) (input : Input) : NodeM Unit := do
  modify fun s => { s with transport := view }
  handleInput input

/-- `NodeRunner::run` over a list of inputs. -/
def runLoop (inputs : List (TransportView × Input)) : NodeM Unit := do
  startup
  forM inputs fun i => step i.1 i.2

/-- The state of a runner that is still in its loop after `inputs`. -/
def Reachable (c : NodeConfig) (s : NodeRunner) : Prop :=
  ∃ inputs, runLoop inputs (.new c) = .ok () s

/-- Everything a run did, whether or not it failed at the end. -/
def outputs (c : NodeConfig) (inputs : List (TransportView × Input)) : List Output :=
  match runLoop inputs (.new c) with
  | .ok _ s => s.out
  | .error _ s => s.out

end

end Mycelium.Node
