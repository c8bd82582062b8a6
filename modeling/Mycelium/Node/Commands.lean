import Mycelium.Node.RemoteFrames
import Mycelium.Node.Symbolic
import Mycelium.Node.Traces

/-!
# Mycelium node — which local commands stop the node

The loop of `run` ends on the first error of `handle_command` too. Most commands log a
failing transport call; three pass it on with `?`: a broadcast that falls back to gossip, a
`SendWire`, and an `AddBootstrapPeer`.

* `CommandFails` — the failing calls, one by one;
* `command_ok_iff` — in every reachable state these and no others end the loop, and then
  nothing of the command is left in the queue, the subscriptions and the seen cache.
-/

namespace Mycelium.Node

section

variable [World] [Prims]

/-- The call of a command whose error leaves the loop, in the state the command is read in. -/
def CommandFails (s : NodeRunner) : NodeCommand → Prop
  | .broadcast scope _ =>
    targetsForScope s.peerScopes scope = [] ∧ World.publishOk s.calls scope = false
  | .broadcastPayload scope _ _ =>
    targetsForScope s.peerScopes scope = [] ∧ World.publishOk s.calls scope = false
  | .sendWire toPeer message =>
    (∃ e, (signWire s.keypair message).1 = .error e) ∨ World.sendOk s.calls toPeer = false
  | .addBootstrapPeer multiaddr => World.dialOk s.calls multiaddr = false
  | _ => False

/-! ## The calls that fail -/

omit [Prims] in
theorem publishScoped_run (scope : String) (payload : Bytes) (s : NodeRunner) :
    publishScoped scope payload s
      = if World.publishOk s.calls scope then
          .ok () { s with calls := s.calls + 1, out := s.out ++ [.publish scope payload] }
        else .error "publish_scoped failed" { s with calls := s.calls + 1 } := by
  have hcall : worldCall (fun n => World.publishOk n scope) s
      = .ok (World.publishOk s.calls scope) { s with calls := s.calls + 1 } := rfl
  unfold publishScoped
  rw [run_bind_of_ok hcall]
  cases World.publishOk s.calls scope <;> rfl

/-! ## The commands that queue messages -/

section

variable {l : String} {k : EncryptionKeypair} {E : Prop}

theorem serving_newMessage (toPeer : Option String) (body : String) (payload : Bytes) :
    Keeps (Serving l k) E (newMessage toPeer body payload) :=
  Keeps.get_bind fun _ _ => Keeps.bind serving_core.nowMs fun _ => Keeps.pure

/-- Queueing a message of this node does not fail. -/
theorem serving_sendDirectInternal (toPeer body : String) (payload : Bytes) :
    Keeps (Serving l k) E (sendDirectInternal toPeer body payload) := by
  refine Keeps.bind (serving_newMessage _ _ _) fun msg => ?_
  refine Keeps.bind (serving_frame.ingest msg) fun _ => Keeps.get_bind fun s _ => ?_
  refine Keeps.ite (fun _ => serving_enqueue _ _) fun _ => ?_
  exact Keeps.ite (fun _ => Keeps.pure) (fun _ => Keeps.forM fun _ _ => serving_enqueue _ _)

/-- A broadcast to peers that announced the scope is queued for each of them. -/
theorem serving_broadcastTargets (targets : List String) (body : String) (payload : Bytes) :
    Keeps (Serving l k) E (forM targets fun toPeer => do
      let msg ← newMessage none body payload
      let _ ← ingest msg false
      enqueue toPeer msg) :=
  Keeps.forM fun toPeer _ => Keeps.bind (serving_newMessage _ _ _) fun msg =>
    Keeps.bind (serving_frame.ingest msg) fun _ => serving_enqueue toPeer msg

end

/-! ## The tables a command may touch -/

/-- The queue, the subscriptions and the seen cache are the same. -/
structure SameTables (s s' : NodeRunner) : Prop where
  pending : s'.pending = s.pending
  subscribedScopes : s'.subscribedScopes = s.subscribedScopes
  bulletinSubscriptions : s'.bulletinSubscriptions = s.bulletinSubscriptions
  seenCache : s'.seenCache = s.seenCache

/-- What the loop should get from a command: it returns, or it does nothing and fails. -/
def Outcome (s : NodeRunner) (fails : Prop) (r : EStateM.Result String NodeRunner Unit) : Prop :=
  match r with
  | .ok _ _ => ¬ fails
  | .error _ s' => fails ∧ SameTables s s'

omit [World] [Prims] in
/-- A program that cannot fail. -/
theorem outcome_of_keeps {m : NodeM Unit} {s : NodeRunner} {fails : Prop} {I : NodeRunner → Prop}
    (h : Keeps I False m) (hs : I s) (hno : ¬ fails) : Outcome s fails (m s) := by
  obtain ⟨_, s', hrun⟩ := h.returns hs
  rw [hrun]
  exact hno

theorem outcome_broadcast {s : NodeRunner} (hs : QueueBounded s) (scope body : String)
    (payload : Bytes) :
    Outcome s (targetsForScope s.peerScopes scope = [] ∧ World.publishOk s.calls scope = false)
      (broadcastScoped scope body payload s) := by
  have hget : (get : NodeM NodeRunner) s = .ok s s := rfl
  unfold broadcastScoped
  rw [run_bind_of_ok hget]
  by_cases htargets : targetsForScope s.peerScopes scope = []
  · simp only [htargets, List.isEmpty_nil, if_true, true_and]
    rw [publishScoped_run]
    cases hok : World.publishOk s.calls scope with
    | true => exact Bool.noConfusion
    | false => exact ⟨rfl, rfl, rfl, rfl, rfl⟩
  · simp only [List.isEmpty_iff, htargets, if_false, false_and]
    exact outcome_of_keeps (serving_broadcastTargets _ _ _)
      (⟨hs, rfl, rfl⟩ : Serving s.localPeerId s.encKeypair s) id

theorem outcome_sendWire (s : NodeRunner) (toPeer : String) (message : WireMessage) :
    Outcome s ((∃ e, (signWire s.keypair message).1 = .error e) ∨ World.sendOk s.calls toPeer = false)
      (handleSendWire toPeer message s) := by
  have hget : (get : NodeM NodeRunner) s = .ok s s := rfl
  unfold handleSendWire
  rw [run_bind_of_ok hget]
  obtain ⟨res, message', hsign⟩ : ∃ res message', signWire s.keypair message = (res, message') :=
    ⟨_, _, Prod.mk.eta.symm⟩
  rw [hsign]
  cases res with
  | error e => exact ⟨.inl ⟨e, rfl⟩, rfl, rfl, rfl, rfl⟩
  | ok u =>
    show Outcome s _ (sendDirect toPeer message' s)
    rw [sendDirect_run]
    cases hok : World.sendOk s.calls toPeer with
    | true =>
      rintro (⟨e, he⟩ | hfalse)
      · cases he
      · cases hfalse
    | false => exact ⟨.inr rfl, rfl, rfl, rfl, rfl⟩

theorem outcome_addBootstrapPeer (s : NodeRunner) (multiaddr : String) :
    Outcome s (World.dialOk s.calls multiaddr = false)
      (handleCommand (.addBootstrapPeer multiaddr) s) := by
  have hemit : emit (.persistDialPeer multiaddr) s
      = .ok () { s with out := s.out ++ [.persistDialPeer multiaddr] } := rfl
  have hcall : worldCall (fun n => World.dialOk n multiaddr)
        { s with out := s.out ++ [.persistDialPeer multiaddr] }
      = .ok (World.dialOk s.calls multiaddr)
        { s with calls := s.calls + 1, out := s.out ++ [.persistDialPeer multiaddr] } := rfl
  show Outcome s _ ((emit (.persistDialPeer multiaddr) >>= fun _ =>
    worldCall (fun n => World.dialOk n multiaddr) >>= fun ok =>
      if ok = true then emit (.dial multiaddr) else throw "remember_and_dial failed") s)
  rw [run_bind_of_ok hemit, run_bind_of_ok hcall]
  cases hok : World.dialOk s.calls multiaddr with
  | true => exact Bool.noConfusion
  | false => exact ⟨rfl, rfl, rfl, rfl, rfl⟩

/-! ## The commands that make no fallible call -/

omit [World] [Prims] in
theorem subscribeTopic_returns (scope : String) :
    Keeps (fun _ => True) False (subscribeTopic scope) :=
  Keeps.ite (fun _ => Keeps.pure) (fun _ => Keeps.modify fun _ _ => trivial)

omit [World] [Prims] in
theorem unsubscribeTopic_returns (scope : String) :
    Keeps (fun _ => True) False (unsubscribeTopic scope) :=
  Keeps.ite (fun _ => Keeps.pure) (fun _ => Keeps.modify fun _ _ => trivial)

omit [World] [Prims] in
theorem handleSubscribeBulletin_returns (scope : String) :
    Keeps (fun _ => True) False (handleSubscribeBulletin scope) :=
  Keeps.ite (fun _ => Keeps.pure) fun _ =>
    Keeps.bind (Keeps.modify fun _ _ => trivial) fun _ => subscribeTopic_returns _

/-- The commands, one by one. -/
theorem outcome_handleCommand {s : NodeRunner} (hs : QueueBounded s) (cmd : NodeCommand) :
    Outcome s (CommandFails s cmd) (handleCommand cmd s) := by
  have hserving : Serving s.localPeerId s.encKeypair s := ⟨hs, rfl, rfl⟩
  -- only broadcasts, wires and dials may fail, the others keep the run going
  cases cmd with
  | sendDirect toPeer body =>
    exact outcome_of_keeps (serving_sendDirectInternal _ _ _) hserving id
  | sendDirectPayload toPeer body payload =>
    exact outcome_of_keeps (serving_sendDirectInternal _ _ _) hserving id
  | broadcast scope body => exact outcome_broadcast hs scope body _
  | broadcastPayload scope body payload => exact outcome_broadcast hs scope body payload
  | sendWire toPeer message => exact outcome_sendWire s toPeer message
  | addBootstrapPeer multiaddr => exact outcome_addBootstrapPeer s multiaddr
  | subscribeScope scope =>
    exact outcome_of_keeps (Keeps.bind (Keeps.modify fun _ _ => trivial) fun _ =>
      subscribeTopic_returns scope) trivial id
  | unsubscribeScope scope =>
    exact outcome_of_keeps (Keeps.bind (Keeps.modify fun _ _ => trivial) fun _ =>
      unsubscribeTopic_returns scope) trivial id
  | subscribeBulletinScope scope =>
    exact outcome_of_keeps (handleSubscribeBulletin_returns scope) trivial id
  | unsubscribeBulletinScope scope =>
    exact outcome_of_keeps (Keeps.bind (Keeps.modify fun _ _ => trivial) fun _ =>
      unsubscribeTopic_returns scope) trivial id
  | gcNow reply =>
    have hgc : Keeps (fun _ => True) False gcExpired :=
      Keeps.bind (Keeps.modifyGet fun _ _ => trivial) fun _ => Keeps.modifyGet fun _ _ => trivial
    exact outcome_of_keeps (Keeps.bind hgc fun _ =>
      Keeps.ite (fun _ => Keeps.modify fun _ _ => trivial) (fun _ => Keeps.pure)) trivial id
  | storeStats reply =>
    exact outcome_of_keeps (I := fun _ => True) (Keeps.get_bind fun _ _ =>
      Keeps.ite (fun _ => Keeps.modify fun _ _ => trivial) (fun _ => Keeps.pure)) trivial id
  | listPeers => exact id
  | setEnergyState state => exact id
  | setRendezvousEnabled enabled => exact id

variable [WireCodec]

/-- **Which local commands stop the node.** In every reachable state a command is executed and
the loop goes on exactly when none of its propagated calls fails; a command that fails leaves
the queue, the subscriptions and the seen cache as they were. -/
theorem command_ok_iff {c : NodeConfig} {s : NodeRunner} (hs : Reachable c s)
    (view : TransportView) (cmd : NodeCommand) :
    ((∃ s', step view (.command cmd) s = .ok () s' ∧ Reachable c s') ↔ ¬ CommandFails s cmd)
    ∧ (CommandFails s cmd → SameTables s (finalState (step view (.command cmd) s))) := by
  have hqueue : QueueBounded { s with transport := view } :=
    ⟨(serving_reachable hs).queue.capPos, (serving_reachable hs).queue.bound⟩
  have houtcome := outcome_handleCommand hqueue cmd
  have hfails : CommandFails { s with transport := view } cmd ↔ CommandFails s cmd := by
    cases cmd <;> exact Iff.rfl
  have hstep : step view (.command cmd) s = handleCommand cmd { s with transport := view } := rfl
  rw [hfails] at houtcome
  rw [hstep]
  cases hrun : handleCommand cmd { s with transport := view } with
  | ok u s' =>
    rw [hrun] at houtcome
    refine ⟨⟨fun _ => houtcome, fun _ => ⟨s', rfl, ?_⟩⟩, fun hfail => absurd hfail houtcome⟩
    exact hs.step (hstep.trans hrun)
  | error e s' =>
    rw [hrun] at houtcome
    obtain ⟨hfail, hsame⟩ := houtcome
    refine ⟨⟨?_, fun hno => absurd hfail hno⟩, fun _ => ?_⟩
    · rintro ⟨s'', hok, -⟩
      cases hok
    · exact ⟨hsame.pending, hsame.subscribedScopes, hsame.bulletinSubscriptions, hsame.seenCache⟩

end

section

attribute [local instance] symbolicPrims noCodec

/-- The clock stands still and gossip has no peers to publish to. -/
@[reducible] def aloneWorld : World := { stillWorld 5000000 with publishOk := fun _ _ => false }

attribute [local instance] aloneWorld

/-- A node alone on the network, when it has just entered its loop. -/
def aloneNode : NodeRunner := finalState (runLoop [] (.new (symbolicConfig 2 3)))

theorem aloneNode_reachable : Reachable (symbolicConfig 2 3) aloneNode :=
  ⟨[], eq_ok_of_succeeded (by decide +kernel)⟩

/-- A dial that succeeds is executed. -/
theorem command_ok_dial :
    Reachable (symbolicConfig 2 3) aloneNode
    ∧ ∃ s', step {} (.command (.addBootstrapPeer "/ip4/127.0.0.1/tcp/4001")) aloneNode = .ok () s'
      ∧ Reachable (symbolicConfig 2 3) s' := by
  refine ⟨aloneNode_reachable, (command_ok_iff aloneNode_reachable {}
    (.addBootstrapPeer "/ip4/127.0.0.1/tcp/4001")).1.mpr ?_⟩
  exact Bool.noConfusion

/-- A broadcast of a node that is alone on the network ends its loop. -/
theorem broadcast_alone_stops_node :
    Reachable (symbolicConfig 2 3) aloneNode
    ∧ ¬ ∃ s', step {} (.command (.broadcast "mycelium/chat" "hi")) aloneNode = .ok () s' := by
  refine ⟨aloneNode_reachable, ?_⟩
  rintro ⟨s', hok⟩
  have hfailed : succeeded (step {} (.command (.broadcast "mycelium/chat" "hi")) aloneNode)
      = false := by decide +kernel
  rw [hok] at hfailed
  cases hfailed

end

end Mycelium.Node
