import Mycelium.Core.Symbolic
import Mycelium.Node.Run

/-!
# Mycelium node — a concrete environment

The counterpart of `Core.Symbolic` for the node: an environment in which the clock stands
still, every transport call succeeds and the keys drawn are the symbolic ones, together
with nodes and messages named after the byte of their key. Statements about `[World]` and
`[WireCodec]` are evaluated on it.
-/

namespace Mycelium.Node

/-- The clock stands at `now`, and the transport never fails. -/
@[reducible] def stillWorld (now : UInt64) : World where
  clock _ := now
  instant _ := 0
  generateKeypair n := symbolicKey (UInt8.ofNat n)
  sendOk _ _ := true
  publishOk _ _ := true
  dialOk _ _ := true

/-- No gossip payload decodes as a wire message. -/
@[reducible] def noCodec : WireCodec where
  decode _ := none

/-- The peer id of the key `b`, as text. -/
def symbolicPeer (b : UInt8) : String := hexEncode (symbolicKey b).secret.toList

/-- A node with identity key `b` and relay key `r`. -/
def symbolicConfig (b r : UInt8) : NodeConfig where
  keypair := some (symbolicKey b)
  localPeerId := symbolicPeer b
  encKeypair := { secret := Vector.replicate 32 b }
  relayIdentity := { keypair := symbolicKey r, createdAt := 0 }

/-- A message of `b`, made and signed at time `now` as `send_direct_internal` does. -/
def symbolicMessage (b : UInt8) (toPeer : String) (now : UInt64) : DirectMessage :=
  { envelope := (@Envelope.sign symbolicPrims
      (@Envelope.new symbolicPrims now (symbolicPeer b) (some toPeer) (asBytes "hi"))
      (symbolicKey b)).2
    body := "hi" }

/-- The node `symbolicConfig b r` when it has just entered its loop. -/
def symbolicNode (b r : UInt8) (now : UInt64) : NodeRunner :=
  match @runLoop symbolicPrims (stillWorld now) noCodec [] (.new (symbolicConfig b r)) with
  | .ok _ s => s
  | .error _ s => s

theorem symbolicNode_reachable (b r : UInt8) (now : UInt64) :
    @Reachable symbolicPrims (stillWorld now) noCodec (symbolicConfig b r) (symbolicNode b r now) :=
  ⟨[], rfl⟩

end Mycelium.Node
