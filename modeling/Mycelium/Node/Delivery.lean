import Mycelium.Node.DataFrames
import Mycelium.Node.Symbolic
import Mycelium.Node.Traces

/-!
# Mycelium node — what the app is handed

The `Data` branch sends a message to `incoming_tx` as soon as it is accepted, and only then
looks at `to_peer`: the app of a relay sees the traffic it relays. `delivery_confined_iff`
says when a run hands the app nothing that is for somebody else.

* `deliver_data_iff` — which input delivers which `Data` message.
-/

namespace Mycelium.Node

/-- The message is for everybody, or for this node. -/
def Addressed (localPeerId : String) (m : DirectMessage) : Prop :=
  m.envelope.toPeer = none ∨ m.envelope.toPeer = some localPeerId

section

variable [World] [Prims] [WireCodec]

/-- An accepted message is delivered before it is routed, and routing delivers nothing. -/
theorem inputOutputs_data (s : NodeRunner) (fromPeer : String) (m : DirectMessage) :
    ∃ rest, (∀ o ∈ rest, ∀ m', o ≠ .deliver .data m')
      ∧ inputOutputs s (.frame fromPeer (.data m))
        = if dataVerdict s fromPeer m = .accepted then .deliver .data m :: rest else [] := by
  unfold inputOutputs
  show ∃ rest, _ ∧ (finalState (handleIncomingDirect fromPeer (.data m) s)).out.drop _ = _
  rw [handleIncomingDirect_data]
  -- the delivery is the first output of an accepted frame, what the routing adds are no deliveries
  by_cases hv : dataVerdict s fromPeer m = .accepted
  · have hout : (afterData s fromPeer m).out = s.out ++ [.deliver .data m] := by
      unfold afterData
      rw [hv]
    have hsend : FrameInvariant (OutSince (afterData s fromPeer m) fun o => ∀ m', o ≠ .deliver .data m')
        True (fun o => ∀ m', o ≠ .deliver .data m') :=
      outSince_frame trivial (fun o ho m' hm' => by rw [hm'] at ho; exact ho)
    have hroute : Keeps _ True (routeData fromPeer m) :=
      hsend.send.routeData (fun _ _ _ _ => by simp)
    obtain ⟨rest, hrest, hnone⟩ := hroute.finalState outSince_refl
    refine ⟨rest, hnone, ?_⟩
    rw [if_pos hv, if_pos hv, hrest, hout, List.append_assoc, List.drop_left]
    rfl
  · refine ⟨[], by simp, ?_⟩
    have hout : (afterData s fromPeer m).out = s.out := by
      unfold afterData
      split <;> first | rfl | contradiction
    rw [if_neg hv, if_neg hv]
    show (afterData s fromPeer m).out.drop _ = _
    rw [hout, List.drop_length]

/-- **Which input delivers a `Data` message.** -/
theorem deliver_data_iff {s : NodeRunner} {input : Input} {m : DirectMessage} :
    .deliver .data m ∈ inputOutputs s input
      ↔ ∃ fromPeer, input = .frame fromPeer (.data m) ∧ Admits s fromPeer m := by
  by_cases hdata : ∃ fromPeer m', input = .frame fromPeer (.data m')
  · obtain ⟨fromPeer, m', rfl⟩ := hdata
    obtain ⟨rest, hnone, heq⟩ := inputOutputs_data s fromPeer m'
    rw [heq]
    constructor
    · intro hmem
      split at hmem
      · next hv =>
        rcases List.mem_cons.mp hmem with hhead | htail
        · obtain rfl : m = m' := by simpa using hhead
          exact ⟨fromPeer, rfl, dataVerdict_accepted_iff.mp hv⟩
        · exact absurd rfl (hnone _ htail m)
      · cases hmem
    · rintro ⟨fromPeer', hinput, hadmits⟩
      obtain ⟨rfl, rfl⟩ : fromPeer = fromPeer' ∧ m' = m := by simpa using hinput
      rw [if_pos (dataVerdict_accepted_iff.mpr hadmits)]
      exact List.mem_cons_self
  · -- no other input delivers a `Data` message
    have hquiet : QuietInvariant (OutSince s fun o => ∀ m', o ≠ .deliver .data m')
        (fun o => ∀ m', o ≠ .deliver .data m') := outSince_quiet fun _ ho => ho
    have hkeeps : Keeps _ True (handleInput input) :=
      hquiet.host.handleInput fun fromPeer msg hinput =>
        hquiet.frame fromPeer fun m' hm' _ _ => absurd ⟨fromPeer, m', hm' ▸ hinput⟩ hdata
    constructor
    · intro hmem
      exact absurd rfl ((hkeeps.finalState outSince_refl).drop.2 _ hmem m)
    · rintro ⟨fromPeer, hinput, -⟩
      exact absurd ⟨fromPeer, m, hinput⟩ hdata

/-- The startup delivers nothing. -/
theorem not_deliver_data_startup (c : NodeConfig) (m : DirectMessage) :
    .deliver .data m ∉ outputs c [] := by
  have hquiet : QuietInvariant (OutSince (.new c) fun o => ∀ m', o ≠ .deliver .data m')
      (fun o => ∀ m', o ≠ .deliver .data m') := outSince_quiet fun _ ho => ho
  have hrun : runLoop [] = startup >>= fun _ => (pure () : NodeM Unit) := rfl
  have hkeeps : Keeps _ True (runLoop []) := hrun ▸ Keeps.bind hquiet.host.startup fun _ => Keeps.pure
  rw [outputs_eq_finalState]
  intro hmem
  have hnew := (hkeeps.finalState outSince_refl).drop
  rw [hnew.1] at hmem
  rcases List.mem_append.mp hmem with hold | hnew'
  · exact absurd hold (by simp [NodeRunner.new])
  · exact hnew.2 _ hnew' m rfl

/-- **When a run hands the app only what is for this node.** The `Data` messages a run delivers
are all for this node or for everybody exactly when it accepts no others. -/
theorem delivery_confined_iff (c : NodeConfig) (inputs : List (TransportView × Input)) :
    (∀ m, .deliver .data m ∈ outputs c inputs → Addressed c.localPeerId m)
      ↔ ∀ s fromPeer m, Handles c inputs s (.frame fromPeer (.data m)) → Admits s fromPeer m →
          Addressed c.localPeerId m := by
  constructor
  · intro h s fromPeer m hhandles hadmits
    refine h m (mem_outputs_iff.mpr (.inr ⟨s, _, hhandles, ?_⟩))
    exact deliver_data_iff.mpr ⟨fromPeer, rfl, hadmits⟩
  · intro h m hmem
    rcases mem_outputs_iff.mp hmem with hstart | ⟨s, input, hhandles, hinput⟩
    · exact absurd hstart (not_deliver_data_startup c m)
    · obtain ⟨fromPeer, rfl, hadmits⟩ := deliver_data_iff.mp hinput
      exact h s fromPeer m hhandles hadmits

end

section

attribute [local instance] symbolicPrims noCodec

@[reducible] def transitWorld : World := stillWorld 5000000

attribute [local instance] transitWorld

/-- A message of peer 1 for peer 9 passes through the node of peer 2. -/
def transitRun : List (TransportView × Input) :=
  [({ knownPeers := [symbolicPeer 1, symbolicPeer 9] },
    .frame (symbolicPeer 1) (.data (symbolicMessage 1 (symbolicPeer 9) 5000000)))]

/-- The message is queued for peer 9, and the app of peer 2 is handed it too. -/
theorem transit_message_delivered :
    .deliver .data (symbolicMessage 1 (symbolicPeer 9) 5000000)
        ∈ outputs (symbolicConfig 2 3) transitRun
    ∧ .enqueued (symbolicPeer 9) (forwardCopy { keypair := symbolicKey 3, createdAt := 0 }
        (symbolicMessage 1 (symbolicPeer 9) 5000000)) ∈ outputs (symbolicConfig 2 3) transitRun
    ∧ ¬ Addressed (symbolicConfig 2 3).localPeerId (symbolicMessage 1 (symbolicPeer 9) 5000000) := by
  refine ⟨by decide +kernel, by decide +kernel, ?_⟩
  rintro (hnone | hlocal)
  · exact absurd hnone (by decide +kernel)
  · exact absurd hlocal (by decide +kernel)

end

end Mycelium.Node
