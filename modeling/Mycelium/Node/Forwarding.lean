import Mycelium.Core.Transport

/-!
# Mycelium node — forwarding and energy policies

Translation of the policies of `mycelium-node/src/forwarding.rs` and of
`mycelium-core/src/energy.rs`. The ingest pipeline of the same file acts on the node's
store and seen cache and is in `Node.State`.
-/

namespace Mycelium.Node

inductive NodeState where
  | active
  | intermittent
  | passive
deriving DecidableEq, Repr

/-- The derived `Debug` text. -/
def NodeState.debug : NodeState → String
  | .active => "Active"
  | .intermittent => "Intermittent"
  | .passive => "Passive"

inductive ForwardDecision where
  | deliverLocal
  | forwardTo (targets : List String)
  | hold
  | drop (reason : String)
deriving DecidableEq, Repr

/-- `SimpleEnergyPolicy::can_forward`. -/
def canForward : NodeState → Priority → Bool
  | .active, _ => true
  | .intermittent, p => p != .low
  | .passive, p => p == .high

/-- `base_fanout`. -/
def baseFanout : NodeState → Priority → Nat
  | .active, .high => 4
  | .active, .normal => 3
  | .active, .low => 2
  | .intermittent, .high => 2
  | .intermittent, .normal => 1
  | .intermittent, .low => 0
  | .passive, .high => 1
  | .passive, _ => 0

/-- `should_forward_to`: a coin whose bias depends on the energy state, drawn from the hash
of the message id, the peer and the state. -/
def shouldForwardTo [Prims] (peer : String) (msg : DirectMessage) (state : NodeState) : Bool :=
  let h := Prims.blake3 (asBytes (msg.envelope.id ++ ":" ++ peer ++ ":" ++ state.debug))
  let r := (h[0].toNat + 256 * h[1].toNat) % 1000
  let threshold := match state with
    | .active => 850
    | .intermittent => 550
    | .passive => 250
  r < threshold

/-- `ProbabilisticForwardingPolicy::decide`, with the clock reading it makes. The selection
loop stops at the fanout. -/
def decideForward [Prims] (message : DirectMessage) (localPeer : String) (knownPeers : List String)
    (nodeState : NodeState) (now : UInt64) : ForwardDecision :=
  if message.envelope.toPeer = some localPeer then .deliverLocal
  else if message.isExpired now then .drop "expired"
  else
    let fanout := baseFanout nodeState message.envelope.priority
    if fanout = 0 || knownPeers.isEmpty then .hold
    else
      let selected := (knownPeers.filter (shouldForwardTo · message nodeState)).take fanout
      if selected.isEmpty then .hold else .forwardTo selected

/-- The policy chooses among the peers it is given. -/
theorem mem_of_mem_decideForward [Prims] {message : DirectMessage} {localPeer : String}
    {knownPeers targets : List String} {nodeState : NodeState} {now : UInt64}
    (h : decideForward message localPeer knownPeers nodeState now = .forwardTo targets) {p : String}
    (hp : p ∈ targets) : p ∈ knownPeers := by
  unfold decideForward at h
  simp only at h
  split at h
  · cases h
  · split at h
    · cases h
    · split at h
      · cases h
      · split at h
        · cases h
        · obtain rfl := ForwardDecision.forwardTo.inj h
          exact (List.mem_filter.mp (List.mem_of_mem_take hp)).1

end Mycelium.Node
