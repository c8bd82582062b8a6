import Mycelium.Node.DataFrames
import Mycelium.Node.Traces

/-!
# Mycelium node — keys and sealed payloads

Two frames carry the encryption keys of peers: `PeerInfo`, and `EncryptedDirect` with a payload
that is sealed for one peer. This module walks through the handlers once more and keeps track of
these frames, and of the payloads that are opened and handed to the app.

* `SignalInvariant` — an invariant that every other output keeps;
* `Signals` / `signal_outputs` — where the frames and the opened payloads come from.
-/

namespace Mycelium.Node

/-- The output is a frame with a key, or an opened payload. -/
def Output.isSignal : Output → Bool
  | .deliver .encrypted _ => true
  | .sendDirect _ (.peerInfo ..) => true
  | .sendDirect _ (.encryptedDirect ..) => true
  | _ => false

section

variable [World]

/-- `I` speaks about the identity of the runner and its outputs, and survives those that are no
signals. -/
structure SignalInvariant (I : NodeRunner → Prop) : Prop extends CoreInvariant I where
  queue : ∀ s pending, I s → I { s with pending }
  store : ∀ s calls store, I s → I { s with calls, store }
  relay : ∀ s relayIdentity, I s → I { s with relayIdentity }
  emit : ∀ o, o.isSignal = false → Keeps I True (emit o)

namespace SignalInvariant

variable {I : NodeRunner → Prop} (hI : SignalInvariant I)

include hI

/-! ## Sending and queueing -/

/-- A frame that is no signal, whether or not the transport takes it. -/
theorem trySendDirect {toPeer : String} {w : WireMessage}
    (h : (Output.sendDirect toPeer w).isSignal = false) : Keeps I True (trySendDirect toPeer w) :=
  Keeps.bind (hI.worldCall _) fun _ =>
    Keeps.ite (fun _ => Keeps.bind (hI.emit _ h) fun _ => Keeps.pure) (fun _ => Keeps.pure)

/-- The same where a failure ends the program. -/
theorem sendDirect {toPeer : String} {w : WireMessage}
    (h : (Output.sendDirect toPeer w).isSignal = false) : Keeps I True (sendDirect toPeer w) :=
  Keeps.bind (hI.trySendDirect h) fun _ =>
    Keeps.ite (fun _ => Keeps.pure) (fun _ => Keeps.throw trivial)

/-- A group frame is sent on as it came, which is no signal. -/
theorem forwardWireToOthers (fromPeer groupId : String) (payload : Bytes) :
    Keeps I True (forwardWireToOthers fromPeer (.encryptedGroup groupId payload)) :=
  Keeps.get_bind fun _ _ => Keeps.forM fun _ _ =>
    Keeps.bind (hI.trySendDirect rfl) fun _ => Keeps.pure

/-- Queueing a message is no signal. -/
theorem enqueue (toPeer : String) (m : DirectMessage) : Keeps I True (enqueue toPeer m) :=
  hI.enqueue_of_pending hI.queue trivial (hI.emit _ rfl)

/-- The pipeline stores, and sends nothing. -/
theorem ingest [Prims] (m : DirectMessage) : Keeps I True (ingest m false) :=
  Keeps.bind hI.nowMs fun _ => Keeps.ite (fun _ => Keeps.pure) fun _ =>
    hI.ingestUnseen_keeps fun s hs _ => hI.store s _ _ hs

/-- Nor does the cleaning of the store. -/
theorem gcExpired : Keeps I True gcExpired :=
  Keeps.bind hI.nowMs fun _ => Keeps.modifyGet fun s hs => hI.store s s.calls _ hs

omit [World] in
/-- A key is stored in a table of its own. -/
theorem storeEncKey (peer key : String) : Keeps I True (storeEncKey peer key) := by
  unfold Node.storeEncKey
  split
  · exact hI.bookkeeping (fun _ => rfl) (fun _ => rfl)
  · exact Keeps.pure

omit [World] in
/-- So are scopes. -/
theorem storePeerScopes (peer : String) (scopes : List String) :
    Keeps I True (storePeerScopes peer scopes) :=
  Keeps.ite (fun _ => Keeps.pure) (fun _ => hI.bookkeeping (fun _ => rfl) (fun _ => rfl))

variable [Prims]

/-! ## Frames -/

/-- The policy only queues. -/
theorem forwardByPolicy (m : DirectMessage) (peers : List String) :
    Keeps I True (forwardByPolicy m peers) := by
  refine Keeps.get_bind fun s _ => Keeps.bind hI.nowMs fun now => ?_
  split
  · exact Keeps.forM fun _ _ => Keeps.get_bind fun _ _ => hI.enqueue _ _
  · exact Keeps.pure

/-- What is routed is queued. -/
theorem routeData (fromPeer : String) (m : DirectMessage) : Keeps I True (routeData fromPeer m) := by
  refine Keeps.get_bind fun s _ => Keeps.ite (fun _ => hI.updateMetrics _) fun _ => ?_
  refine Keeps.bind hI.nowMs fun now => Keeps.ite (fun _ => hI.updateMetrics _) fun _ => ?_
  refine Keeps.ite (fun _ => Keeps.pure) fun _ => ?_
  split
  · refine Keeps.ite (fun _ => hI.enqueue _ _) fun _ => ?_
    exact Keeps.bind (hI.emit _ rfl) fun _ => hI.forwardByPolicy m _
  · exact hI.forwardByPolicy m _

/-- A `Data` frame is delivered and queued, and neither is a signal. -/
theorem handleData (fromPeer : String) (m : DirectMessage) : Keeps I True (handleData fromPeer m) := by
  have hingest : Keeps I True (ingestData fromPeer m) := by
    refine Keeps.bind hI.nowMs fun now => Keeps.bind (hI.guardCheck _) fun res => ?_
    cases res with
    | error reason =>
      refine Keeps.bind (hI.recordIngestReject reason) fun _ => ?_
      exact Keeps.ite (fun _ => hI.registerStrike _) (fun _ => Keeps.pure)
    | ok u =>
      refine Keeps.bind (hI.ingest m) fun new => Keeps.ite (fun _ => ?_) (fun _ => hI.registerStrike _)
      refine Keeps.bind (hI.rewardPeer _) fun _ => Keeps.bind (hI.emit _ rfl) fun _ => ?_
      exact hI.routeData fromPeer m
  refine Keeps.bind hI.nowMs fun _ => ?_
  split
  · exact Keeps.bind (hI.updateMetrics _) fun _ => hI.registerStrike _
  · exact hI.updateMetrics _
  · exact Keeps.ite (fun _ => hI.updateMetrics _) (fun _ => hingest)

/-- A filter is answered with anti-entropy frames. -/
theorem handleSyncBloom (fromPeer : String) (bloom : Bytes) (count : UInt64) :
    Keeps I True (handleSyncBloom fromPeer bloom count) := by
  unfold Node.handleSyncBloom handleSyncBloomBy
  split
  · exact Keeps.pure
  · refine Keeps.bind hI.listIdsWindow fun ids => Keeps.ite (fun _ => hI.sendDirect rfl) fun _ => ?_
    exact Keeps.ite (fun _ => hI.sendDirect rfl) (fun _ => Keeps.pure)

/-- Every frame but those that are sealed for one peer. -/
theorem handleWireMessage {fromPeer : String} {w : WireMessage}
    (hsealed : ∀ toPeer key payload sig hop maxHops,
      w ≠ .encryptedDirect toPeer key payload sig hop maxHops) :
    Keeps I True (handleWireMessage fromPeer w) := by
  cases w with
  | data m => exact hI.handleData fromPeer m
  | syncBloom bloom count => exact hI.handleSyncBloom fromPeer bloom count
  | syncIds ids =>
    exact Keeps.get_bind fun _ _ => Keeps.ite (fun _ => Keeps.pure) (fun _ => hI.sendDirect rfl)
  | syncRequest ids =>
    exact Keeps.get_bind fun _ _ => Keeps.ite (fun _ => Keeps.pure) (fun _ => hI.sendDirect rfl)
  | syncData messages =>
    exact Keeps.forM fun m _ => Keeps.bind (hI.ingest m) fun _ => Keeps.pure
  | peerInfo key name scopes =>
    exact Keeps.bind (hI.storeEncKey _ _) fun _ => hI.storePeerScopes _ _
  | encryptedDirect toPeer key payload sig hop maxHops =>
    exact absurd rfl (hsealed toPeer key payload sig hop maxHops)
  | encryptedGroup groupId payload => exact hI.forwardWireToOthers fromPeer groupId payload
  | scopeAnnounce scopes =>
    exact Keeps.get_bind fun _ _ => Keeps.ite (fun _ => hI.storePeerScopes _ _) (fun _ => Keeps.pure)

/-- Every frame but those that are sealed for one peer, past the throttle and the gate. -/
theorem handleIncomingDirect {fromPeer : String} {w : WireMessage}
    (hsealed : ∀ toPeer key payload sig hop maxHops,
      w ≠ .encryptedDirect toPeer key payload sig hop maxHops) :
    Keeps I True (handleIncomingDirect fromPeer w) := by
  refine Keeps.bind (hI.isThrottled fromPeer) fun _ => Keeps.ite (fun _ => Keeps.pure) fun _ => ?_
  unfold afterGate
  split
  · exact hI.updateMetrics _
  · exact Keeps.pure
  · exact hI.updateMetrics _
  · exact hI.handleWireMessage hsealed

/-- Gossip is delivered to the app only. -/
theorem handleScopedReceived [WireCodec] (fromPeer scope : String) (payload : Bytes) :
    Keeps I True (handleScopedReceived fromPeer scope payload) := by
  refine Keeps.get_bind fun s _ => Keeps.ite (fun _ => ?_) (fun _ => Keeps.pure)
  refine Keeps.bind hI.nowMs fun now => Keeps.bind (hI.guardCheck _) fun res => ?_
  cases res with
  | error reason => exact hI.recordIngestReject reason
  | ok u =>
    dsimp only
    split
    · refine Keeps.bind hI.nowMs fun created => Keeps.bind (hI.guardCheck _) fun res => ?_
      cases res with
      | error reason => exact hI.recordIngestReject reason
      | ok u =>
        exact Keeps.bind (hI.ingest _) fun _ =>
          Keeps.ite (fun _ => hI.emit _ rfl) (fun _ => Keeps.pure)
    · exact Keeps.pure

/-! ## Commands and ticks -/

/-- A filter of the own ids is no signal. -/
theorem sendSyncBloom (peer : String) : Keeps I True (sendSyncBloom peer) :=
  Keeps.bind hI.listIdsWindow fun _ => Keeps.ite (fun _ => Keeps.pure) (fun _ => hI.sendDirect rfl)

/-- An own message is made, not yet sent. -/
theorem newMessage (toPeer : Option String) (body : String) (payload : Bytes) :
    Keeps I True (newMessage toPeer body payload) :=
  Keeps.get_bind fun _ _ => Keeps.bind hI.nowMs fun _ => Keeps.pure

/-- A message for one peer waits in the queue. -/
theorem sendDirectInternal (toPeer body : String) (payload : Bytes) :
    Keeps I True (sendDirectInternal toPeer body payload) := by
  refine Keeps.bind (hI.newMessage _ _ _) fun msg => Keeps.bind (hI.ingest msg) fun _ => ?_
  refine Keeps.get_bind fun s _ => Keeps.ite (fun _ => hI.enqueue _ _) fun _ => ?_
  exact Keeps.ite (fun _ => Keeps.pure) (fun _ => Keeps.forM fun _ _ => hI.enqueue _ _)

/-- A broadcast is queued or published, as `Data` or as gossip. -/
theorem broadcastScoped (scope body : String) (payload : Bytes) :
    Keeps I True (broadcastScoped scope body payload) := by
  refine Keeps.get_bind fun s _ => Keeps.ite (fun _ => ?_) (fun _ => Keeps.forM fun toPeer _ => ?_)
  · exact Keeps.bind (hI.worldCall _) fun _ =>
      Keeps.ite (fun _ => hI.emit _ rfl) (fun _ => Keeps.throw trivial)
  · exact Keeps.bind (hI.newMessage _ _ _) fun msg => Keeps.bind (hI.ingest msg) fun _ =>
      hI.enqueue _ _

omit [Prims] [World] in
/-- A topic is subscribed or left, unless the scope has a wildcard. -/
theorem topic {scope : String} {o : Output} (ho : o.isSignal = false) :
    Keeps I True (if scope.toList.contains '*' then pure () else Node.emit o) :=
  Keeps.ite (fun _ => Keeps.pure) (fun _ => hI.emit _ ho)

/-- Every command but `SendWire`, which sends what the app gives it. -/
theorem handleCommand {cmd : NodeCommand} (hwire : ∀ toPeer w, cmd ≠ .sendWire toPeer w) :
    Keeps I True (handleCommand cmd) := by
  -- the arms that write only book-keeping fields
  have hbook : ∀ {f : NodeRunner → NodeRunner}, (∀ s, (f s).core = s.core) →
      (∀ s, (f s).calls = s.calls) → Keeps I True (modify f : NodeM Unit) :=
    fun hcore hcalls => hI.bookkeeping hcore hcalls
  cases cmd with
  | sendDirect toPeer body => exact hI.sendDirectInternal _ _ _
  | sendDirectPayload toPeer body payload => exact hI.sendDirectInternal _ _ _
  | broadcast scope body => exact hI.broadcastScoped _ _ _
  | broadcastPayload scope body payload => exact hI.broadcastScoped _ _ _
  | sendWire toPeer w => exact absurd rfl (hwire toPeer w)
  | addBootstrapPeer multiaddr =>
    exact Keeps.bind (hI.emit _ rfl) fun _ => Keeps.bind (hI.worldCall _) fun _ =>
      Keeps.ite (fun _ => hI.emit _ rfl) (fun _ => Keeps.throw trivial)
  | subscribeScope scope =>
    exact Keeps.bind (hbook (fun _ => rfl) (fun _ => rfl)) fun _ => hI.topic rfl
  | unsubscribeScope scope =>
    exact Keeps.bind (hbook (fun _ => rfl) (fun _ => rfl)) fun _ => hI.topic rfl
  | subscribeBulletinScope scope =>
    exact Keeps.ite (fun _ => Keeps.pure) fun _ =>
      Keeps.bind (hbook (fun _ => rfl) (fun _ => rfl)) fun _ => hI.topic rfl
  | unsubscribeBulletinScope scope =>
    exact Keeps.bind (hbook (fun _ => rfl) (fun _ => rfl)) fun _ => hI.topic rfl
  | gcNow reply =>
    exact Keeps.bind hI.gcExpired fun _ =>
      Keeps.ite (fun _ => hI.emit _ rfl) (fun _ => Keeps.pure)
  | storeStats reply =>
    exact Keeps.get_bind fun _ _ => Keeps.ite (fun _ => hI.emit _ rfl) (fun _ => Keeps.pure)
  | listPeers => exact hbook (fun _ => rfl) (fun _ => rfl)
  | setEnergyState state => exact hbook (fun _ => rfl) (fun _ => rfl)
  | setRendezvousEnabled enabled => exact hbook (fun _ => rfl) (fun _ => rfl)

omit [Prims] in
/-- The queue holds `Data` frames. -/
theorem forwardOnce : Keeps I True forwardOnce := by
  refine forwardOnce_keeps hI.worldCall hI.relay
    (fun s _ hs => hI.congr s _ rfl (Nat.le_refl _) hs) (hI.evictExpired_of_pending hI.queue) ?_
  intro s item rest _ hs
  have hitem : Keeps I True (forwardItem s.nodeState item) := by
    refine Keeps.bind hI.nowMs fun now => Keeps.ite (fun _ => Keeps.pure) fun _ => ?_
    refine Keeps.ite (fun _ => Keeps.pure) fun _ => Keeps.bind (hI.trySendDirect rfl) fun _ => ?_
    exact Keeps.ite (fun _ => hI.updateMetrics _) (fun _ => Keeps.pure)
  exact hitem.imp (fun _ h => h ▸ hI.queue s rest hs) (fun _ _ h => h) (fun _ _ h => h)

end SignalInvariant

/-! ## What becomes of an input -/

/-- Outputs that are no signals, or satisfy `G`, and the same identity. -/
structure SignalsSince (s₀ : NodeRunner) (G : Output → Prop) (s : NodeRunner) : Prop where
  localPeerId : s.localPeerId = s₀.localPeerId
  encKeypair : s.encKeypair = s₀.encKeypair
  out : OutSince s₀ (fun o => o.isSignal = true → G o) s

section

variable {s₀ : NodeRunner} {G : Output → Prop}

omit [World] in
/-- Nothing has happened yet. -/
theorem SignalsSince.refl : SignalsSince s₀ G s₀ := ⟨rfl, rfl, outSince_refl⟩

omit [World] in
/-- One more output, allowed if it is a signal. -/
theorem signalsSince_emit {o : Output} (ho : o.isSignal = true → G o) :
    Keeps (SignalsSince s₀ G) True (emit o) :=
  Keeps.modify fun s hs =>
    ⟨hs.localPeerId, hs.encKeypair, (outSince_emit (E := True) ho).run s hs.out⟩

omit [World] in
/-- Looking back at where the outputs began is an invariant. -/
theorem signalsSince : SignalInvariant (SignalsSince s₀ G) where
  congr := by
    intro s s' hcore _ h
    have hlocal : s'.localPeerId = s.localPeerId := congrArg NodeCore.localPeerId hcore
    have henc : s'.encKeypair = s.encKeypair := congrArg NodeCore.encKeypair hcore
    have hout : s'.out = s.out := congrArg NodeCore.out hcore
    exact ⟨hlocal.trans h.localPeerId, henc.trans h.encKeypair, h.out.congr hout⟩
  queue _ _ h := ⟨h.localPeerId, h.encKeypair, h.out⟩
  store _ _ _ h := ⟨h.localPeerId, h.encKeypair, h.out⟩
  relay _ _ h := ⟨h.localPeerId, h.encKeypair, h.out⟩
  emit o ho := signalsSince_emit fun h => by rw [ho] at h; cases h

end

variable [Prims]

/-- Where a signal comes from. -/
inductive Signals (s : NodeRunner) : Input → Output → Prop
  /-- To a new peer the node announces its own key. -/
  | announced (peer : String) (name : Option String) (scopes : List String) :
      Signals s (.transportEvent (.peerUp peer))
        (.sendDirect peer (.peerInfo s.encKeypair.publicHex name scopes))
  /-- A command puts a sealed frame on its way. -/
  | commanded (toPeer dest key : String) (payload : Bytes) (sig sig' : Option Bytes)
      (hop maxHops : UInt8) :
      Signals s (.command (.sendWire toPeer (.encryptedDirect dest key payload sig hop maxHops)))
        (.sendDirect toPeer (.encryptedDirect dest key payload sig' hop maxHops))
  /-- A command sends a key. -/
  | commandedKey (toPeer key : String) (name : Option String) (scopes : List String) :
      Signals s (.command (.sendWire toPeer (.peerInfo key name scopes)))
        (.sendDirect toPeer (.peerInfo key name scopes))
  /-- A sealed frame for another node is sent on. -/
  | relayed (fromPeer toPeer dest key : String) (payload : Bytes) (sig sig' : Option Bytes)
      (hop maxHops : UInt8) (hdest : dest ≠ s.localPeerId) :
      Signals s (.frame fromPeer (.encryptedDirect dest key payload sig hop maxHops))
        (.sendDirect toPeer (.encryptedDirect dest key payload sig' (U8.satAdd hop 1) maxHops))
  /-- A sealed frame for this node is opened. -/
  | opened (fromPeer key : String) (payload : Bytes) (sig : Option Bytes) (hop maxHops : UInt8)
      (plain : Bytes) (m : DirectMessage) (hplain : decryptWith payload s.encKeypair = .ok plain)
      (hbody : m.body = "[encrypted]")
      (hinner : (m.envelope.fromPeer, m.envelope.payload) = unwrapInner plain fromPeer) :
      Signals s (.frame fromPeer (.encryptedDirect s.localPeerId key payload sig hop maxHops))
        (.deliver .encrypted m)

section

variable {s : NodeRunner}

/-- A new peer is announced the scopes and the key of the node, in this order. -/
theorem signals_peerUp (peer : String) :
    Keeps (SignalsSince s (Signals s (.transportEvent (.peerUp peer)))) True
      (handlePeerUp peer) := by
  have hI : SignalInvariant (SignalsSince s (Signals s (.transportEvent (.peerUp peer)))) :=
    signalsSince
  unfold handlePeerUp
  refine Keeps.ite (fun _ => Keeps.pure) fun _ => ?_
  refine Keeps.bind (hI.bookkeeping (fun _ => rfl) (fun _ => rfl)) fun _ => ?_
  refine Keeps.bind (Keeps.get_bind fun _ _ => hI.sendDirect rfl) fun _ => ?_
  refine Keeps.bind (Keeps.get_bind fun s' hs' => ?_) fun _ => hI.sendSyncBloom peer
  -- the key is the one the node has had all along
  rw [hs'.encKeypair]
  refine Keeps.bind (Keeps.bind (hI.worldCall _) fun _ => Keeps.ite (fun _ => ?_) fun _ => Keeps.pure)
    fun _ => Keeps.ite (fun _ => Keeps.pure) (fun _ => Keeps.throw trivial)
  exact Keeps.bind (signalsSince_emit fun _ => .announced peer _ _) fun _ => Keeps.pure

omit [World] in
/-- Signing changes the signature. -/
theorem signWire_encryptedDirect {keypair : Option Keypair} {dest key : String} {payload : Bytes}
    {sig : Option Bytes} {hop maxHops : UInt8} {w : WireMessage}
    (h : signWire keypair (.encryptedDirect dest key payload sig hop maxHops) = (.ok (), w)) :
    ∃ sig', w = .encryptedDirect dest key payload sig' hop maxHops := by
  cases keypair with
  | none => exact ⟨sig, (Prod.mk.inj h).2.symm⟩
  | some keypair =>
    have hsign : signEncryptedDirect (.encryptedDirect dest key payload sig hop maxHops) keypair
        = (.ok (), w) := h
    unfold signEncryptedDirect at hsign
    dsimp only at hsign
    split at hsign
    · cases hsign
    · exact ⟨_, (Prod.mk.inj hsign).2.symm⟩

/-- `SendWire` sends the frame it was given, signed if it is a sealed one. -/
theorem signals_sendWire (toPeer : String) (w : WireMessage) :
    Keeps (SignalsSince s (Signals s (.command (.sendWire toPeer w)))) True
      (handleSendWire toPeer w) := by
  have hI : SignalInvariant (SignalsSince s (Signals s (.command (.sendWire toPeer w)))) :=
    signalsSince
  have hsend : ∀ w', (∀ p, (Output.sendDirect p w').isSignal = true →
      Signals s (.command (.sendWire toPeer w)) (.sendDirect toPeer w')) →
      Keeps (SignalsSince s (Signals s (.command (.sendWire toPeer w)))) True
        (sendDirect toPeer w') := by
    intro w' hw'
    refine Keeps.bind (Keeps.bind (hI.worldCall _) fun _ => Keeps.ite (fun _ => ?_) fun _ => Keeps.pure)
      fun _ => Keeps.ite (fun _ => Keeps.pure) (fun _ => Keeps.throw trivial)
    exact Keeps.bind (signalsSince_emit fun h => hw' toPeer h) fun _ => Keeps.pure
  unfold handleSendWire
  refine Keeps.get_bind fun s' _ => ?_
  -- signing fails or gives the frame with a signature
  split
  · exact Keeps.throw trivial
  · next w' hsign =>
    refine hsend w' fun p hp => ?_
    cases w with
    | encryptedDirect dest key payload sig hop maxHops =>
      obtain ⟨sig', rfl⟩ := signWire_encryptedDirect hsign
      exact .commanded ..
    | peerInfo key name scopes =>
      cases hsign
      exact .commandedKey ..
    | _ =>
      cases hsign
      cases hp

/-- A sealed frame is opened, or goes on to the other peers, and nothing else is signalled. -/
theorem signals_sealed (fromPeer dest key : String) (payload : Bytes) (sig : Option Bytes)
    (hop maxHops : UInt8) :
    SignalsSince s
      (Signals s (.frame fromPeer (.encryptedDirect dest key payload sig hop maxHops)))
      (finalState (handleIncomingDirect fromPeer
        (.encryptedDirect dest key payload sig hop maxHops) s)) := by
  have hI : SignalInvariant (SignalsSince s
      (Signals s (.frame fromPeer (.encryptedDirect dest key payload sig hop maxHops)))) :=
    signalsSince
  refine Keeps.finalState (E := True) ?_ .refl
  -- throttled, refused at the gate, or for this node, or for another one
  refine Keeps.bind (hI.isThrottled fromPeer) fun _ => Keeps.ite (fun _ => Keeps.pure) fun _ => ?_
  unfold afterGate
  split
  · exact hI.updateMetrics _
  · exact Keeps.pure
  · exact hI.updateMetrics _
  · refine Keeps.get_bind fun s' hs' => Keeps.ite (fun hlocal => ?_) fun hother =>
      Keeps.ite (fun _ => ?_) (fun _ => hI.updateMetrics _)
    · rw [hs'.localPeerId] at hlocal
      subst hlocal
      -- for this node: the payload opens and is the signal, or the run ends with an error
      split
      · exact Keeps.throw trivial
      · next plain hplain =>
        rw [hs'.encKeypair] at hplain
        refine Keeps.bind (hI.storeEncKey _ _) fun _ => Keeps.get_bind fun _ _ =>
          Keeps.bind hI.nowMs fun _ => Keeps.bind (signalsSince_emit fun _ => ?_) fun _ =>
            hI.updateMetrics _
        exact .opened _ _ _ _ _ _ plain _ hplain rfl rfl
    · rw [hs'.localPeerId] at hother
      -- for another node: it is passed on with the hop count raised, signed or not
      refine Keeps.get_bind fun _ _ => Keeps.forM fun p _ => Keeps.bind ?_ fun _ => Keeps.pure
      refine Keeps.bind (hI.worldCall _) fun _ =>
        Keeps.ite (fun _ => Keeps.bind (signalsSince_emit fun _ => ?_) fun _ => Keeps.pure)
          (fun _ => Keeps.pure)
      unfold forwardEncrypted signEncryptedDirect
      dsimp only
      split
      · exact .relayed _ _ _ _ _ _ _ _ _ hother
      · exact .relayed _ _ _ _ _ _ _ _ _ hother

end

variable [WireCodec]

/-- **Where keys and opened payloads come from.** -/
theorem signal_outputs {s : NodeRunner} {input : Input} {o : Output}
    (ho : o ∈ inputOutputs s input) (hsignal : o.isSignal = true) : Signals s input o := by
  have hI : SignalInvariant (SignalsSince s (Signals s input)) := signalsSince
  suffices hend : SignalsSince s (Signals s input) (finalState (handleInput input s)) from
    hend.out.drop.2 o ho hsignal
  have hkeeps : Keeps (SignalsSince s (Signals s input)) True (handleInput input) →
      SignalsSince s (Signals s input) (finalState (handleInput input s)) :=
    fun h => h.finalState .refl
  -- by the input; only frames, a new peer and the two wires of a command make signals
  cases input with
  | transportEvent event =>
    cases event with
    | listening address => exact hkeeps (hI.bookkeeping (fun _ => rfl) (fun _ => rfl))
    | peerUp peer => exact hkeeps (signals_peerUp peer)
    | peerDown peer => exact hkeeps (hI.bookkeeping (fun _ => rfl) (fun _ => rfl))
    | directReceived fromPeer w =>
      cases w with
      | encryptedDirect dest key payload sig hop maxHops => exact signals_sealed ..
      | _ => exact hkeeps (hI.handleIncomingDirect (by simp))
    | scopedReceived fromPeer scope payload =>
      exact hkeeps (hI.handleScopedReceived fromPeer scope payload)
    | _ => exact hkeeps Keeps.pure
  | transportError reason => exact hkeeps (Keeps.throw trivial)
  | command cmd =>
    by_cases hwire : ∃ toPeer w, cmd = .sendWire toPeer w
    · obtain ⟨toPeer, w, rfl⟩ := hwire
      exact hkeeps (signals_sendWire toPeer w)
    · exact hkeeps (hI.handleCommand fun toPeer w h => hwire ⟨toPeer, w, h⟩)
  | rendezvous remoteIds =>
    refine hkeeps (Keeps.get_bind fun _ _ => Keeps.forM fun remote _ =>
      Keeps.ite (fun _ => Keeps.pure) fun _ => ?_)
    split
    · exact Keeps.pure
    · exact Keeps.bind (hI.worldCall _) fun _ =>
        Keeps.ite (fun _ => hI.emit _ rfl) (fun _ => Keeps.pure)
  | forwardTick => exact hkeeps hI.forwardOnce
  | syncTick => exact hkeeps (Keeps.get_bind fun _ _ => Keeps.forM fun p _ => hI.sendSyncBloom p)
  | gcTick => exact hkeeps (Keeps.bind hI.gcExpired fun _ => Keeps.pure)
  | dialTick => exact hkeeps (hI.emit _ rfl)

omit [WireCodec] in
/-- Starting up gives no signal. -/
theorem signal_startup [WireCodec] {c : NodeConfig} {o : Output} (ho : o ∈ outputs c []) :
    o.isSignal = false := by
  have hI : SignalInvariant (SignalsSince (.new c) fun _ => False) := signalsSince
  have hkeeps : Keeps (SignalsSince (.new c) fun _ => False) True startup := by
    refine Keeps.bind (Keeps.forM fun _ _ => hI.emit _ rfl) fun _ => ?_
    refine Keeps.get_bind fun s _ => Keeps.bind (Keeps.forM fun _ _ => ?_) fun _ => hI.emit _ rfl
    exact Keeps.bind (hI.emit _ rfl) fun _ => hI.bookkeeping (fun _ => rfl) (fun _ => rfl)
  rw [outputs_eq_finalState] at ho
  have hrun : runLoop [] = startup >>= fun _ => pure () := rfl
  rw [hrun, bind_pure_unit] at ho
  cases hsignal : o.isSignal with
  | false => rfl
  | true => exact ((hkeeps.finalState .refl).out.drop.2 o ho hsignal).elim

end

end Mycelium.Node
