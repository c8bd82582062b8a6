import Mycelium.Node.Delivery

/-!
# Mycelium node — the two ways of a broadcast

`broadcast_scoped` sends a payload as `Data` messages to the peers that announced the scope, and
if there are none publishes it on gossip. The messages carry the sender's body; a node that takes
the payload from gossip makes the body up itself, from the scope and the bytes.

* `broadcastPayload_outputs` — what the sender puts on the way;
* `scopedReceived_outputs` — what a receiver of gossip hands to its app;
* `ReachesApp` — both ends together, and `ReachesApp.cases`: under which body a payload comes in.
-/

namespace Mycelium.Node

section

variable [Prims] [World]

variable {s₀ : NodeRunner} {G : Output → Prop}

theorem outSince_ingest {E : Prop} (m : DirectMessage) :
    Keeps (OutSince s₀ G) E (ingest m false) := by
  refine Keeps.bind outSince_core.nowMs fun now => Keeps.ite (fun _ => Keeps.pure) fun _ => ?_
  exact Keeps.ite (fun h => absurd h (by simp))
    (fun _ => outSince_core.ingestUnseen_keeps fun _ hs _ => hs)

/-- What a broadcast puts on the way. -/
def Broadcasts (s : NodeRunner) (scope body : String) (payload : Bytes) (o : Output) : Prop :=
  (targetsForScope s.peerScopes scope = [] ∧ o = .publish scope payload)
  ∨ ∃ toPeer m, toPeer ∈ targetsForScope s.peerScopes scope ∧ o = .enqueued toPeer m
      ∧ m.body = body ∧ m.envelope.payload = payload

/-- Whether or not it is signed, a new message has the payload and the body it is made of. -/
theorem newMessage_triple {P : NodeRunner → Prop} (hP : CoreInvariant P) (toPeer : Option String)
    (body : String) (payload : Bytes) :
    Triple P (newMessage toPeer body payload)
      (fun m s => (m.body = body ∧ m.envelope.payload = payload) ∧ P s) (fun _ s => P s ∧ True) := by
  refine Triple.bind (R := fun _ s => P s) (Triple.get fun _ hs => hs) fun s => ?_
  refine Triple.bind (hP.nowMs (E := True)) fun now => Triple.pure fun s' hs' => ⟨⟨rfl, ?_⟩, hs'⟩
  cases s.keypair with
  | none => rfl
  | some keypair =>
    show ((Envelope.new now s.localPeerId toPeer payload).sign keypair).2.payload = payload
    unfold Envelope.sign
    simp only
    split <;> rfl

variable [WireCodec]

theorem broadcastPayload_outputs (s : NodeRunner) (scope body : String) (payload : Bytes) :
    ∀ o ∈ inputOutputs s (.command (.broadcastPayload scope body payload)),
      Broadcasts s scope body payload o := by
  have hkeeps : Keeps (OutSince s (Broadcasts s scope body payload)) True
      (if (targetsForScope s.peerScopes scope).isEmpty then publishScoped scope payload
        else forM (targetsForScope s.peerScopes scope) fun toPeer => do
          let msg ← newMessage none body payload
          let _ ← ingest msg false
          enqueue toPeer msg) := by
    refine Keeps.ite (fun hnone => ?_) (fun _ => Keeps.forM fun toPeer hmem => ?_)
    · refine Keeps.bind (outSince_core.worldCall _) fun ok =>
        Keeps.ite (fun _ => outSince_emit ?_) (fun _ => Keeps.throw trivial)
      exact .inl ⟨List.isEmpty_iff.mp hnone, rfl⟩
    · refine Triple.bind (newMessage_triple outSince_core none body payload) fun msg =>
        Triple.of_fact fun hmsg => Keeps.bind (outSince_ingest msg) fun _ => ?_
      exact outSince_core.enqueue_of_pending (fun _ _ hs => hs) trivial
        (outSince_emit (.inr ⟨toPeer, msg, hmem, rfl, hmsg⟩))
  exact (hkeeps.finalState outSince_refl).drop.2

/-- What the app gets of a gossip payload. -/
def FromGossip (fromPeer scope : String) (payload : Bytes) (o : Output) : Prop :=
  ∃ m, o = .deliver .gossip m ∧ gossipBody scope payload = some m.body
    ∧ m.envelope.payload = payload ∧ m.envelope.fromPeer = fromPeer

theorem scopedReceived_outputs (s : NodeRunner) (fromPeer scope : String) (payload : Bytes) :
    ∀ o ∈ inputOutputs s (.transportEvent (.scopedReceived fromPeer scope payload)),
      FromGossip fromPeer scope payload o := by
  have hkeeps : Keeps (OutSince s (FromGossip fromPeer scope payload)) True
      (handleScopedReceived fromPeer scope payload) := by
    refine Keeps.get_bind fun _ _ => Keeps.ite (fun _ => ?_) (fun _ => Keeps.pure)
    refine Keeps.bind outSince_core.nowMs fun now => Keeps.bind (outSince_core.guardCheck _) fun res => ?_
    cases res with
    | error reason => exact outSince_core.recordIngestReject reason
    | ok u =>
      cases hbody : gossipBody scope payload with
      | none => exact Keeps.pure
      | some body =>
        refine Keeps.bind outSince_core.nowMs fun created => Keeps.bind (outSince_core.guardCheck _)
          fun res => ?_
        cases res with
        | error reason => exact outSince_core.recordIngestReject reason
        | ok u =>
          refine Keeps.bind (outSince_ingest _) fun new =>
            Keeps.ite (fun _ => outSince_emit ?_) (fun _ => Keeps.pure)
          exact ⟨_, rfl, hbody, rfl, rfl⟩
  exact (hkeeps.finalState outSince_refl).drop.2

/-! ## Both ends -/

/-- The broadcast that the node in state `s` makes hands `m` to the app of the node in state `r`:
as a `Data` message that was queued for a peer, or through gossip. -/
inductive ReachesApp (s r : NodeRunner) (scope body : String) (payload : Bytes)
    (m : DirectMessage) : Prop where
  | direct (toPeer fromPeer : String)
      (hsent : .enqueued toPeer m ∈ inputOutputs s (.command (.broadcastPayload scope body payload)))
      (hgot : .deliver .data m ∈ inputOutputs r (.frame fromPeer (.data m)))
  | gossip (fromPeer : String)
      (hsent : .publish scope payload ∈ inputOutputs s (.command (.broadcastPayload scope body payload)))
      (hgot : .deliver .gossip m
        ∈ inputOutputs r (.transportEvent (.scopedReceived fromPeer scope payload)))

/-- **Under which body a payload comes in.** -/
theorem ReachesApp.cases {s r : NodeRunner} {scope body : String} {payload : Bytes}
    {m : DirectMessage} (h : ReachesApp s r scope body payload m) :
    m.envelope.payload = payload ∧
    ((targetsForScope s.peerScopes scope ≠ [] ∧ m.body = body)
    ∨ (targetsForScope s.peerScopes scope = [] ∧ gossipBody scope payload = some m.body)) := by
  cases h with
  | direct toPeer fromPeer hsent hgot =>
    obtain ⟨-, hpublish⟩ | ⟨toPeer', m', hmem, heq, hbody, hpayload⟩ :=
      broadcastPayload_outputs s scope body payload _ hsent
    · cases hpublish
    · obtain ⟨-, rfl⟩ : toPeer = toPeer' ∧ m = m' := by simpa using heq
      exact ⟨hpayload, .inl ⟨List.ne_nil_of_mem hmem, hbody⟩⟩
  | gossip fromPeer hsent hgot =>
    obtain ⟨htargets, -⟩ | ⟨toPeer', m', -, heq, -⟩ :=
      broadcastPayload_outputs s scope body payload _ hsent
    · obtain ⟨m', heq, hbody, hpayload, -⟩ :=
        scopedReceived_outputs r fromPeer scope payload _ hgot
      obtain rfl : m = m' := by simpa using heq
      exact ⟨hpayload, .inr ⟨htargets, hbody⟩⟩
    · cases heq

end

end Mycelium.Node
