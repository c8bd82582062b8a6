import Mycelium.Node.Traces

/-!
# Mycelium node — networks

A network is a family of nodes, each with its own environment. A run of it is a list of
events: one node handles one input. Nothing is assumed about links, delays or losses; what
makes it a run of *these* nodes is that a frame arrives only if the peer it comes from has
sent it, and no more often than that.
-/

namespace Mycelium.Node

/-- A node of a network, with the environment it runs in. -/
structure Host where
  world : World
  codec : WireCodec
  config : NodeConfig

/-- What the node calls itself. -/
abbrev Host.peerId (h : Host) : String := h.config.localPeerId

/-- The frame an input brings, and the peer it comes from. -/
def Input.received : Input → Option (String × WireMessage)
  | .transportEvent (.directReceived fromPeer w) => some (fromPeer, w)
  | _ => none

/-- One step of a network. -/
structure NetEvent (ι : Type) where
  node : ι
  view : TransportView
  input : Input

section

variable {ι : Type} [DecidableEq ι]

/-- The inputs of one node. -/
def inputsOf (events : List (NetEvent ι)) (i : ι) : List (TransportView × Input) :=
  (events.filter fun e => e.node = i).map fun e => (e.view, e.input)

variable [Prims]

/-- The run of one node, on the inputs it got. -/
def Host.run (h : Host) (inputs : List (TransportView × Input)) : EStateM.Result String NodeRunner Unit :=
  @runLoop _ h.world h.codec inputs (.new h.config)

def Host.outputs (h : Host) (inputs : List (TransportView × Input)) : List Output :=
  @Node.outputs _ h.world h.codec h.config inputs

def Host.Handles (h : Host) (inputs : List (TransportView × Input)) (s : NodeRunner)
    (input : Input) : Prop :=
  @Node.Handles _ h.world h.codec h.config inputs s input

def Host.inputOutputs (h : Host) (s : NodeRunner) (input : Input) : List Output :=
  @Node.inputOutputs _ h.world h.codec s input

/-- The event can happen after `events`: the frame that arrives was sent by the peer it comes
from, more often than it has arrived. -/
def Arrives (host : ι → Host) (events : List (NetEvent ι)) (e : NetEvent ι) : Prop :=
  ∀ f ∈ e.input.received, ∃ j, (host j).peerId = f.1
    ∧ (inputsOf events e.node).countP (fun i => i.2.received = some f)
      < ((host j).outputs (inputsOf events j)).count (.sendDirect (host e.node).peerId f.2)

instance [Fintype ι] (host : ι → Host) (events : List (NetEvent ι)) (e : NetEvent ι) :
    Decidable (Arrives host events e) :=
  inferInstanceAs (Decidable (∀ f ∈ e.input.received, ∃ j, (host j).peerId = f.1
    ∧ (inputsOf events e.node).countP (fun i => i.2.received = some f)
      < ((host j).outputs (inputsOf events j)).count (.sendDirect (host e.node).peerId f.2)))

/-- The events make up a run of the network. -/
inductive NetworkRun (host : ι → Host) : List (NetEvent ι) → Prop
  | nil : NetworkRun host []
  | append {events : List (NetEvent ι)} {e : NetEvent ι} : NetworkRun host events →
      Arrives host events e → NetworkRun host (events ++ [e])

/-- A run is one if each of its events can happen after the ones before. Induction on how many
are checked. -/
theorem networkRun_of_arrives {host : ι → Host} {events : List (NetEvent ι)}
    (h : ∀ k : Fin events.length, Arrives host (events.take k) events[k]) :
    NetworkRun host events := by
  have htake : ∀ k ≤ events.length, NetworkRun host (events.take k) := by
    intro k hk
    induction k with
    | zero => exact .nil
    | succ k ih =>
      rw [List.take_succ_eq_append_getElem hk]
      exact .append (ih (Nat.le_of_succ_le hk)) (h ⟨k, hk⟩)
  have hall := htake events.length le_rfl
  rwa [List.take_length] at hall

end

end Mycelium.Node
