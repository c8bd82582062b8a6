import Mycelium.Node.Invariants
import Mycelium.Node.PendingQueue

/-!
# Mycelium node — which remote frames stop the node

The loop of `NodeRunner::run` ends at the first error, so an error that a frame can cause
is a remote stop. There are three fallible calls on the way of a frame: sending the answer
back, queueing a message to forward, and decrypting an `EncryptedDirect` payload.

* `QueueBounded` — the queue never exceeds its capacity, so `enqueue` always finds room
  (`queueBounded_loop` over runs, `enqueue_frame` for the call);
* `remote_frame_ok_iff` — a frame is handled without error unless it is an accepted
  `EncryptedDirect` for this node whose payload does not decrypt.
-/

namespace Mycelium.Node

/-! ## The queue always finds room -/

/-- The queue is within its capacity, which is not zero. -/
structure QueueBounded (s : NodeRunner) : Prop where
  capPos : 0 < s.pendingCap
  bound : s.pending.length ≤ s.pendingCap

/-- A bounded queue, and the identity under which frames are read. -/
structure Serving (localPeerId : String) (encKeypair : EncryptionKeypair) (s : NodeRunner) :
    Prop where
  queue : QueueBounded s
  localPeerId : s.localPeerId = localPeerId
  encKeypair : s.encKeypair = encKeypair

section

variable {l : String} {k : EncryptionKeypair}

theorem serving_core : CoreInvariant (Serving l k) where
  congr := by
    intro s s' hcore _ h
    have hpending : s'.pending = s.pending := congrArg NodeCore.pending hcore
    have hcap : s'.pendingCap = s.pendingCap := congrArg NodeCore.pendingCap hcore
    have hlocal : s'.localPeerId = s.localPeerId := congrArg NodeCore.localPeerId hcore
    have henc : s'.encKeypair = s.encKeypair := congrArg NodeCore.encKeypair hcore
    refine ⟨⟨by rw [hcap]; exact h.queue.capPos, ?_⟩, hlocal.trans h.localPeerId,
      henc.trans h.encKeypair⟩
    rw [hpending, hcap]
    exact h.queue.bound

/-- A queue that is still within the capacity. -/
theorem Serving.setPending {s : NodeRunner} (h : Serving l k s) {pending : List PendingMessage}
    (hle : pending.length ≤ s.pendingCap) : Serving l k { s with pending } :=
  ⟨⟨h.queue.capPos, hle⟩, h.localPeerId, h.encKeypair⟩

theorem serving_emit {E : Prop} (o : Output) : Keeps (Serving l k) E (emit o) :=
  Keeps.modify fun _ hs => ⟨⟨hs.queue.capPos, hs.queue.bound⟩, hs.localPeerId, hs.encKeypair⟩

variable [World]

theorem serving_evictExpired {E : Prop} : Keeps (Serving l k) E evictExpired :=
  Keeps.bind serving_core.nowMs fun _ => Keeps.modify fun _ hs =>
    hs.setPending ((List.length_filter_le _ _).trans hs.queue.bound)

theorem makeRoom_room {E : Prop} : Triple (Serving l k) makeRoom
    (fun _ s => Serving l k s ∧ s.pending.length < s.pendingCap) (fun _ s => Serving l k s ∧ E) := by
  refine ⟨fun s hs => ?_⟩
  obtain ⟨calls, kept, hrun, hkept⟩ := makeRoom_run hs.queue.capPos hs.queue.bound
  rw [hrun]
  exact ⟨⟨⟨hs.queue.capPos, hkept.room.le⟩, hs.localPeerId, hs.encKeypair⟩, hkept.room⟩

/-- **`enqueue` does not fail.** -/
theorem serving_enqueue {E : Prop} (toPeer : String) (m : DirectMessage) :
    Keeps (Serving l k) E (enqueue toPeer m) := by
  refine Keeps.bind serving_core.nowMs fun now => Keeps.ite (fun _ => Keeps.pure) fun _ => ?_
  refine Triple.bind makeRoom_room fun _ => Triple.get_bind fun s hs => ?_
  obtain ⟨hserving, hroom⟩ := hs
  refine Triple.ite (fun hfull => ?_) (fun _ => ?_)
  · omega
  · refine Triple.bind (R := fun _ => Serving l k) (Triple.modify ?_) fun _ => serving_emit _
    rintro s' rfl
    have hlen : (s'.pending ++ [({ toPeer, message := m } : PendingMessage)]).length
        ≤ s'.pendingCap := by
      rw [List.length_append, List.length_singleton]
      omega
    exact serving_core.congr { s' with pending := s'.pending ++ [{ toPeer, message := m }] } _ rfl
      (Nat.le_refl _) (hserving.setPending hlen)

/-! ## Whole runs -/

theorem serving_frame {E : Prop} : FrameInvariant (Serving l k) E (fun _ => True) where
  toCoreInvariant := serving_core
  ingestUnseen _ := serving_core.ingestUnseen_keeps fun _ hs _ =>
    ⟨⟨hs.queue.capPos, hs.queue.bound⟩, hs.localPeerId, hs.encKeypair⟩
  enqueue toPeer m _ := serving_enqueue toPeer m
  emit o _ := serving_emit o
  plain _ _ := trivial

theorem serving_loop [Prims] : LoopInvariant (Serving l k) (fun _ => True) where
  toFrameInvariant := serving_frame
  gcExpired := Keeps.bind serving_core.nowMs fun _ => Keeps.modifyGet fun _ hs =>
    ⟨⟨hs.queue.capPos, hs.queue.bound⟩, hs.localPeerId, hs.encKeypair⟩
  evictExpired := serving_evictExpired
  pop s item rest hp hs := hs.setPending (by
    have hbound := hs.queue.bound
    rw [hp, List.length_cons] at hbound
    omega)
  rotate _ _ hs := ⟨⟨hs.queue.capPos, hs.queue.bound⟩, hs.localPeerId, hs.encKeypair⟩
  view _ _ hs := ⟨⟨hs.queue.capPos, hs.queue.bound⟩, hs.localPeerId, hs.encKeypair⟩
  other _ _ := trivial
  data fromPeer m := serving_frame.ingestData trivial (fun _ _ _ _ => trivial)

/-- Every reachable runner serves the identity it was created with. -/
theorem serving_reachable [Prims] [WireCodec] {c : NodeConfig} {s : NodeRunner}
    (hs : Reachable c s) : Serving c.localPeerId c.encKeypair s :=
  serving_loop.reachable ⟨⟨Nat.succ_pos 1023, Nat.zero_le _⟩, rfl, rfl⟩ hs

/-! ## One frame -/

/-- The peer is throttled at `now`: the verdict of `is_throttled`. -/
def throttledAt (s : NodeRunner) (peer : String) (now : UInt64) : Bool :=
  match s.peerReputations.lookup peer with
  | none => false
  | some rep => now < rep.throttledUntilMs

/-- The message is an `EncryptedDirect` for this node whose payload does not decrypt. -/
def Undecryptable [Prims] (s : NodeRunner) : WireMessage → Prop
  | .encryptedDirect toPeer _ payload _ _ _ =>
    toPeer = s.localPeerId ∧ ∃ e, decryptWith payload s.encKeypair = .error e
  | _ => False

/-- The throttle: its verdict, and only bookkeeping done. -/
theorem isThrottled_triple (peer : String) (s : NodeRunner) {F : String → NodeRunner → Prop} :
    Triple (· = s) (isThrottled peer)
      (fun b s' => b = throttledAt s peer (World.clock s.calls) ∧ s'.core = s.core) F := by
  refine Triple.bind (R := fun now s' => now = World.clock s.calls
    ∧ s' = { s with calls := s.calls + 1 }) (Triple.modifyGet ?_) fun now => ?_
  · rintro _ rfl
    exact ⟨rfl, rfl⟩
  · refine Triple.get_bind fun s' hs' => ?_
    obtain ⟨rfl, rfl⟩ := hs'
    unfold throttledAt
    simp only
    cases s.peerReputations.lookup peer with
    | none =>
      refine Triple.pure ?_
      rintro _ rfl
      exact ⟨rfl, rfl⟩
    | some rep =>
      refine Triple.bind (R := fun _ s' => s'.core = s.core) (Triple.modify ?_) fun _ => ?_
      · rintro _ rfl
        rfl
      · refine Triple.pure fun s' hs' => ⟨?_, hs'⟩
        rw [PeerReputation.decayed_throttledUntilMs]

section

variable [Prims]

/-- The frame makes the node leave its loop: it passes the throttle and the gate, is for this
node, and does not decrypt. -/
def StopsNode (s : NodeRunner) (fromPeer : String) (msg : WireMessage) : Prop :=
  throttledAt s fromPeer (World.clock s.calls) = false ∧ hopGate fromPeer msg = .pass
    ∧ Undecryptable s msg

/-- A throttled frame is dropped. -/
theorem handleIncomingDirect_of_throttled {s : NodeRunner} {fromPeer : String} (msg : WireMessage)
    (h : throttledAt s fromPeer (World.clock s.calls) = true) :
    ∃ s', handleIncomingDirect fromPeer msg s = .ok () s' := by
  have htriple : Triple (· = s) (handleIncomingDirect fromPeer msg) (fun _ _ => True)
      (fun _ _ => False) := by
    refine Triple.bind (isThrottled_triple fromPeer s) fun b => Triple.of_fact fun hb => ?_
    refine Triple.ite (fun _ => Triple.pure fun _ _ => trivial) fun hfree => ?_
    exact absurd (hb.trans h) hfree
  have hrun := htriple.run s rfl
  cases hres : handleIncomingDirect fromPeer msg s with
  | ok u s' => exact ⟨s', rfl⟩
  | error e s' =>
    rw [hres] at hrun
    exact hrun.elim

/-- A frame that is not an undecryptable one behind the gate is handled. -/
theorem handleIncomingDirect_of_not_undecryptable {s : NodeRunner} {fromPeer : String}
    {msg : WireMessage} (hs : QueueBounded s) (hsend : ∀ n, World.sendOk n fromPeer = true)
    (h : ¬ (hopGate fromPeer msg = .pass ∧ Undecryptable s msg)) :
    ∃ s', handleIncomingDirect fromPeer msg s = .ok () s' := by
  have hkeeps : Keeps (Serving s.localPeerId s.encKeypair) False
      (handleIncomingDirect fromPeer msg) := by
    refine serving_frame.handleIncomingDirect (.inl hsend)
      (fun m _ _ _ => serving_frame.ingestData trivial fun _ _ _ _ => trivial) ?_
    rintro toPeer key payload sig hop maxHops rfl hgate
    refine serving_frame.handleEncryptedDirect ?_ (fun _ _ _ _ _ _ => trivial)
    intro s' e hs' hlocal herr
    rw [hs'.localPeerId] at hlocal
    rw [hs'.encKeypair] at herr
    exact h ⟨hgate, hlocal, e, herr⟩
  obtain ⟨_, s', hrun⟩ := hkeeps.returns (s := s) ⟨hs, rfl, rfl⟩
  exact ⟨s', hrun⟩

/-- A frame that passes and does not decrypt leaves the loop through `?`. -/
theorem handleIncomingDirect_of_stops {s : NodeRunner} {fromPeer : String} {msg : WireMessage}
    (h : StopsNode s fromPeer msg) (s' : NodeRunner) :
    handleIncomingDirect fromPeer msg s ≠ .ok () s' := by
  obtain ⟨hfree, hgate, hund⟩ := h
  have htriple : Triple (· = s) (handleIncomingDirect fromPeer msg) (fun _ _ => False)
      (fun _ _ => True) := by
    refine Triple.bind (isThrottled_triple fromPeer s) fun b => Triple.of_fact fun hb => ?_
    refine Triple.ite (fun ht => absurd (ht.symm.trans (hb.trans hfree)) (by decide)) fun _ => ?_
    rw [hgate]
    cases msg with
    | encryptedDirect toPeer key payload sig hop maxHops =>
      obtain ⟨hlocal, e, herr⟩ := hund
      -- the throttle left the identity alone, so the payload still does not decrypt
      refine Triple.get_bind fun s' hcore => ?_
      have hlocal' : toPeer = s'.localPeerId :=
        hlocal.trans (congrArg NodeCore.localPeerId hcore).symm
      have henc : s'.encKeypair = s.encKeypair := congrArg NodeCore.encKeypair hcore
      rw [if_pos hlocal', henc, herr]
      exact Triple.throw fun _ _ => trivial
    | _ => exact hund.elim
  intro hok
  have hrun := htriple.run s rfl
  rw [hok] at hrun
  exact hrun

variable [WireCodec]

/-- A step taken from the loop leads to a state of the loop. -/
theorem Reachable.step {c : NodeConfig} {s s' : NodeRunner} (hs : Reachable c s)
    {view : TransportView} {input : Input} (h : Node.step view input s = .ok () s') :
    Reachable c s' := by
  obtain ⟨inputs, hrun⟩ := hs
  have happend : runLoop (inputs ++ [(view, input)])
      = runLoop inputs >>= fun _ => Node.step view input := by
    simp only [runLoop, List.forM_append, List.forM_cons, List.forM_nil, bind_assoc, bind_pure_unit]
  refine ⟨inputs ++ [(view, input)], ?_⟩
  rw [happend]
  show EStateM.bind (runLoop inputs) _ _ = _
  rw [EStateM.bind, hrun]
  exact h

/-- **Which remote frames stop the node.** In every reachable state, while sends to the peer
succeed, every frame of every peer is handled and leaves the node in its loop, except an
accepted `EncryptedDirect` for this node whose payload does not decrypt. -/
theorem remote_frame_ok_iff {c : NodeConfig} {s : NodeRunner} (hs : Reachable c s)
    (view : TransportView) (fromPeer : String) (msg : WireMessage)
    (hsend : ∀ n, World.sendOk n fromPeer = true) :
    (∃ s', step view (.transportEvent (.directReceived fromPeer msg)) s = .ok () s'
        ∧ Reachable c s')
      ↔ ¬ StopsNode s fromPeer msg := by
  have hstep : ∀ s', step view (.transportEvent (.directReceived fromPeer msg)) s = .ok () s'
      ↔ handleIncomingDirect fromPeer msg { s with transport := view } = .ok () s' :=
    fun _ => Iff.rfl
  constructor
  · rintro ⟨s', hok, -⟩ hstops
    exact handleIncomingDirect_of_stops (s := { s with transport := view }) hstops s'
      ((hstep s').mp hok)
  · intro hnot
    have hok : ∃ s', handleIncomingDirect fromPeer msg { s with transport := view } = .ok () s' := by
      by_cases hthrottled : throttledAt s fromPeer (World.clock s.calls) = true
      · exact handleIncomingDirect_of_throttled (s := { s with transport := view }) msg hthrottled
      · refine handleIncomingDirect_of_not_undecryptable (s := { s with transport := view })
          ⟨(serving_reachable hs).queue.capPos, (serving_reachable hs).queue.bound⟩ hsend ?_
        rintro ⟨hgate, hund⟩
        exact hnot ⟨by simpa using hthrottled, hgate, hund⟩
    obtain ⟨s', hrun⟩ := hok
    exact ⟨s', (hstep s').mpr hrun, hs.step ((hstep s').mpr hrun)⟩

end

end

section

attribute [local instance] symbolicPrims noCodec

@[reducible] def servingWorld : World := stillWorld 5000000

attribute [local instance] servingWorld

/-- A node that has just entered its loop. -/
def startedNode : NodeRunner := symbolicNode 2 3 5000000

theorem startedNode_reachable : Reachable (symbolicConfig 2 3) startedNode :=
  symbolicNode_reachable 2 3 5000000

/-- An `EncryptedDirect` from peer 1 to peer 2, signed by peer 1 for this hop. -/
def encryptedFrame (payload : Bytes) : WireMessage :=
  (signEncryptedDirect (.encryptedDirect (symbolicPeer 2) "" payload none 0 8) (symbolicKey 1)).2

/-- A payload that peer 2 can decrypt: ephemeral key, nonce, then key and text. -/
def decryptablePayload : Bytes :=
  List.replicate 32 1 ++ List.replicate 12 0 ++ List.replicate 32 3 ++ asBytes "hi"

/-- A payload that decrypts is handled. -/
theorem remote_frame_ok_decryptable :
    Reachable (symbolicConfig 2 3) startedNode
    ∧ ∃ s', step {} (.transportEvent (.directReceived (symbolicPeer 1)
        (encryptedFrame decryptablePayload))) startedNode = .ok () s'
      ∧ Reachable (symbolicConfig 2 3) s' := by
  refine ⟨startedNode_reachable, (remote_frame_ok_iff startedNode_reachable {} (symbolicPeer 1)
    (encryptedFrame decryptablePayload) (fun _ => rfl)).mpr ?_⟩
  rintro ⟨-, -, -, e, herr⟩
  have hok : decryptWith decryptablePayload startedNode.encKeypair = .ok (asBytes "hi") := by
    decide +kernel
  cases hok.symm.trans herr

/-- Peer 1 signs an empty payload for peer 2 correctly, and the node of peer 2 stops. -/
theorem remote_frame_stops_node :
    Reachable (symbolicConfig 2 3) startedNode
    ∧ (∀ n, World.sendOk n (symbolicPeer 1) = true)
    ∧ verifyEncryptedDirect (encryptedFrame []) (Prims.toPeerId (Prims.identity.pub (symbolicKey 1)))
        = true
    ∧ ¬ ∃ s', step {} (.transportEvent (.directReceived (symbolicPeer 1) (encryptedFrame [])))
        startedNode = .ok () s' := by
  refine ⟨startedNode_reachable, fun _ => rfl, by decide +kernel, ?_⟩
  rintro ⟨s', hok⟩
  have hstops : StopsNode { startedNode with transport := {} } (symbolicPeer 1)
      (encryptedFrame []) :=
    ⟨by decide +kernel, by decide +kernel, by decide +kernel, "ciphertext too short", rfl⟩
  exact handleIncomingDirect_of_stops hstops s' hok

end

end Mycelium.Node
