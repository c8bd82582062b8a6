import Mycelium.Node.Invariants

/-!
# Mycelium node — what one frame makes the node do

`frameOutputs` is everything a node does while it handles one frame: what it hands to the
app, what it queues and what it sends. `frameOutputs_fromFrame` says where each of these
comes from:

* an accepted `Data` message is delivered as it is and queued only as its `forwardCopy`;
* an `EncryptedDirect` frame that passed the gate is sent on only as `forwardEncrypted`;
* everything else is `Plain`.
-/

namespace Mycelium.Node

/-- The identity and the outputs of a runner, seen from an earlier state `s₀`: the same
identity, and new outputs that all satisfy `G`. -/
structure Since (s₀ : NodeRunner) (G : Output → Prop) (s : NodeRunner) : Prop where
  localPeerId : s.localPeerId = s₀.localPeerId
  relayIdentity : s.relayIdentity = s₀.relayIdentity
  out : ∃ new, s.out = s₀.out ++ new ∧ ∀ o ∈ new, G o

section

variable {s₀ : NodeRunner} {G : Output → Prop}

theorem since_core : CoreInvariant (Since s₀ G) where
  congr := by
    intro s s' hcore _ h
    have hlocal : s'.localPeerId = s.localPeerId := congrArg NodeCore.localPeerId hcore
    have hrelay : s'.relayIdentity = s.relayIdentity := congrArg NodeCore.relayIdentity hcore
    have hout : s'.out = s.out := congrArg NodeCore.out hcore
    exact ⟨hlocal.trans h.localPeerId, hrelay.trans h.relayIdentity, hout ▸ h.out⟩

theorem since_emit {E : Prop} {o : Output} (ho : G o) : Keeps (Since s₀ G) E (emit o) := by
  refine Keeps.modify fun s hs => ⟨hs.localPeerId, hs.relayIdentity, ?_⟩
  obtain ⟨new, hout, hnew⟩ := hs.out
  refine ⟨new ++ [o], by rw [hout, List.append_assoc], ?_⟩
  intro o' ho'
  rcases List.mem_append.mp ho' with hold | hlast
  · exact hnew o' hold
  · rw [List.mem_singleton.mp hlast]
    exact ho

variable [World]

theorem since_frame (hplain : ∀ o, o.Plain → G o) : FrameInvariant (Since s₀ G) True G where
  toCoreInvariant := since_core
  ingestUnseen _ := since_core.ingestUnseen_keeps fun _ hs _ =>
    ⟨hs.localPeerId, hs.relayIdentity, hs.out⟩
  enqueue _ _ hG := since_core.enqueue_of_pending
    (fun _ _ hs => ⟨hs.localPeerId, hs.relayIdentity, hs.out⟩) trivial (since_emit hG)
  emit _ hG := since_emit hG
  plain := hplain

variable [Prims]

/-- What the node did while it handled the frame, whether or not that failed. -/
def frameOutputs (s : NodeRunner) (fromPeer : String) (msg : WireMessage) : List Output :=
  match handleIncomingDirect fromPeer msg s with
  | .ok _ s' => s'.out.drop s.out.length
  | .error _ s' => s'.out.drop s.out.length

/-- Where an output of the frame `msg` from `fromPeer` comes from. -/
def FromFrame (s : NodeRunner) (fromPeer : String) (msg : WireMessage) : Output → Prop
  | .deliver .data m =>
    msg = .data m ∧ validateDataMessageSignature m = .ok ()
      ∧ m.envelope.hopCount < m.envelope.maxHops
  | .enqueued _ m' => ∃ m, msg = .data m ∧ validateDataMessageSignature m = .ok ()
      ∧ m.envelope.hopCount < m.envelope.maxHops ∧ m' = forwardCopy s.relayIdentity m
  | .sendDirect p w => (Output.sendDirect p w).Plain ∨ ∃ toPeer key payload sig hop maxHops,
      msg = .encryptedDirect toPeer key payload sig hop maxHops ∧ hopGate fromPeer msg = .pass
        ∧ toPeer ≠ s.localPeerId ∧ hop < maxHops
        ∧ w = forwardEncrypted s.relayIdentity toPeer key payload sig hop maxHops
  | _ => True

omit [World] in
theorem fromFrame_plain {s : NodeRunner} {fromPeer : String} {msg : WireMessage} {o : Output}
    (h : o.Plain) : FromFrame s fromPeer msg o := by
  cases o with
  | deliver via m =>
    cases via with
    | data => exact h.elim
    | encrypted => trivial
    | gossip => trivial
  | enqueued p m => exact h.elim
  | sendDirect p w => exact .inl h
  | _ => trivial

/-- **Where the outputs of a frame come from.** -/
theorem frameOutputs_fromFrame {s : NodeRunner} {fromPeer : String} {msg : WireMessage} :
    ∀ o ∈ frameOutputs s fromPeer msg, FromFrame s fromPeer msg o := by
  have hframe : FrameInvariant (Since s (FromFrame s fromPeer msg)) True
      (FromFrame s fromPeer msg) := since_frame fun _ => fromFrame_plain
  have hkeeps : Keeps (Since s (FromFrame s fromPeer msg)) True
      (handleIncomingDirect fromPeer msg) := by
    -- what is sent on is the frame's own message, of a Data or a sealed frame
    refine hframe.handleIncomingDirect (.inr trivial) ?_ ?_
    · intro m hm hok hhops
      refine hframe.ingestData ⟨hm, hok, hhops⟩ fun s' hs' p _ => ?_
      exact ⟨m, hm, hok, hhops, by rw [hs'.relayIdentity]⟩
    · intro toPeer key payload sig hop maxHops hmsg hgate
      refine hframe.handleEncryptedDirect (fun _ _ _ _ _ => trivial) fun s' hs' hother hlt p _ => ?_
      rw [hs'.localPeerId] at hother
      exact .inr ⟨toPeer, key, payload, sig, hop, maxHops, hmsg, hgate, hother, hlt,
        by rw [hs'.relayIdentity]⟩
  have hstate := hkeeps.state (s := s) ⟨rfl, rfl, [], by simp, by simp⟩
  unfold frameOutputs
  cases hrun : handleIncomingDirect fromPeer msg s with
  | ok u s' =>
    rw [hrun] at hstate
    obtain ⟨new, hout, hnew⟩ := hstate.out
    simp only [hout, List.drop_left]
    exact hnew
  | error e s' =>
    rw [hrun] at hstate
    obtain ⟨new, hout, hnew⟩ := hstate.out
    simp only [hout, List.drop_left]
    exact hnew

end

end Mycelium.Node
