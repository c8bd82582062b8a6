import Mycelium.Node.Run

/-!
# Mycelium node — one walk through the handlers

Every result about the node is an invariant: of the queue, of the store, of the peer tables,
of what the node has sent. This module walks through the handlers *once*, for an arbitrary
invariant `I`, in terms of the primitive operations the handlers are built from:

* `WireInvariant I E G` — `I` survives calls, outputs that satisfy `G` and queueing, and programs
  fail only if `E`. That is enough for the frames that store nothing, past the throttle
  (`WireInvariant.handleGatedWith`, with the other frames as hypotheses);
* `OutInvariant I E G` — `I` also survives the announcements of scopes;
* `SendInvariant I E G` — `I` also survives the throttle (`SendInvariant.handleIncomingDirect`);
* `IdleInvariant I G` / `StoringInvariant I G` — `I` also survives events and ticks, and storing
  messages;
* `GossipInvariant I G` / `ActingInvariant I G` — `I` also survives gossip, or what the node does of
  its own accord. Neither asks for the throttle or for the collection of what is old, and both
  together leave frames and collection (`GrowthInvariant.handleInput`);
* `EventInvariant I G` / `OwnInvariant I G` / `HostInvariant I G` — `I` survives throttle and
  collection too, so that only frames are left (`HostInvariant.handleInput`).
-/

namespace Mycelium.Node

/-- Outputs that no result of this development restricts: everything but the delivery and
the queueing of `Data` messages and the sending of `Data` and `EncryptedDirect` frames. -/
def Output.Plain : Output → Prop
  | .deliver .data _ => False
  | .enqueued _ _ => False
  | .sendDirect _ (.data _) => False
  | .sendDirect _ (.encryptedDirect ..) => False
  | _ => True

section

variable [World]

/-! ## Sending -/

/-- Sending is one call to the transport; the frame is out if the call succeeds. -/
theorem trySendDirect_run (toPeer : String) (message : WireMessage) (s : NodeRunner) :
    trySendDirect toPeer message s = .ok (World.sendOk s.calls toPeer) { s with
      calls := s.calls + 1
      out := if World.sendOk s.calls toPeer then s.out ++ [.sendDirect toPeer message] else s.out } := by
  have hcall : worldCall (fun n => World.sendOk n toPeer) s
      = .ok (World.sendOk s.calls toPeer) { s with calls := s.calls + 1 } := rfl
  unfold trySendDirect
  rw [run_bind_of_ok hcall]
  cases World.sendOk s.calls toPeer <;> rfl

/-- With the `?` of the source, a failed call ends the program. -/
theorem sendDirect_run (toPeer : String) (message : WireMessage) (s : NodeRunner) :
    sendDirect toPeer message s
      = if World.sendOk s.calls toPeer then
          .ok () { s with calls := s.calls + 1, out := s.out ++ [.sendDirect toPeer message] }
        else .error "send_direct failed" { s with calls := s.calls + 1 } := by
  unfold sendDirect
  rw [run_bind_of_ok (trySendDirect_run toPeer message s)]
  cases World.sendOk s.calls toPeer <;> rfl

/-! ## The queue -/

omit [World] in
/-- The entry to evict is one of the queue. -/
theorem removeCandidate_subset (pending : List PendingMessage) : removeCandidate pending ⊆ pending := by
  unfold removeCandidate
  split
  · exact List.eraseIdx_subset
  · exact List.tail_subset pending

section Queue

variable {I : NodeRunner → Prop} {E : Prop}
  (hcall : ∀ {α : Type} (f : Nat → α), Keeps I E (worldCall f))

section Drop

variable (hdrop : ∀ s pending, pending ⊆ s.pending → I s → I { s with pending })

include hcall hdrop

/-- Leaving out what has expired is a change of the queue only. -/
theorem evictExpired_keeps : Keeps I E evictExpired :=
  Keeps.bind (hcall _) fun _ => Keeps.modify fun s hs => hdrop s _ (List.filter_subset_self _) hs

/-- Making room takes entries away. -/
theorem makeRoom_keeps : Keeps I E makeRoom := by
  refine Keeps.get_bind fun s _ => Keeps.ite (fun _ => ?_) (fun _ => Keeps.pure)
  refine Keeps.bind (evictExpired_keeps hcall hdrop) fun _ => Keeps.modify fun s hs => ?_
  split
  · exact hs
  · exact hdrop s _ (removeCandidate_subset _) hs

/-- An entry is queued and announced in one go. -/
theorem enqueue_push_keeps (hmetrics : ∀ s metrics, I s → I { s with metrics }) (hE : E)
    {toPeer : String} {m : DirectMessage}
    (hpush : ∀ s, I s → I { s with
      pending := s.pending ++ [{ toPeer, message := m }]
      out := s.out ++ [.enqueued toPeer m] }) :
    Keeps I E (enqueue toPeer m) := by
  refine Keeps.bind (hcall _) fun now => Keeps.ite (fun _ => Keeps.pure) fun _ => ?_
  refine Keeps.bind (makeRoom_keeps hcall hdrop) fun _ => Keeps.get_bind fun s _ => ?_
  refine Keeps.ite (fun _ => ?_) (fun _ => ⟨fun s hs => ?_⟩)
  · exact Keeps.bind (Keeps.modify fun s hs => hmetrics s _ hs) fun _ => Keeps.throw hE
  · exact hmetrics _ _ (hpush s hs)

end Drop

include hcall

/-- For invariants that do not look at the queue. -/
theorem enqueue_keeps (hpending : ∀ s pending, I s → I { s with pending })
    (hmetrics : ∀ s metrics, I s → I { s with metrics }) (hE : E) {toPeer : String}
    {m : DirectMessage} (hemit : Keeps I E (emit (.enqueued toPeer m))) :
    Keeps I E (enqueue toPeer m) :=
  enqueue_push_keeps hcall (fun s pending _ => hpending s pending) hmetrics hE fun s hs =>
    hemit.run { s with pending := s.pending ++ [{ toPeer, message := m }] } (hpending s _ hs)

omit hcall in
/-- An empty queue ends the loop. -/
theorem forwardPending_nil {s : NodeRunner} (h : s.pending = []) (budget : Nat) :
    forwardPending budget s = .ok () s := by
  cases budget with
  | zero => rfl
  | succ budget =>
    rw [forwardPending, run_bind_of_ok run_get, h]
    rfl

omit hcall in
/-- One round: the oldest entry leaves the queue, whatever becomes of it. -/
theorem forwardPending_cons {s : NodeRunner} {item : PendingMessage} {rest : List PendingMessage}
    (h : s.pending = item :: rest) (budget : Nat) :
    forwardPending (budget + 1) s
      = (forwardItem s.nodeState item >>= fun _ => forwardPending budget)
          { s with pending := rest } := by
  rw [forwardPending, run_bind_of_ok run_get, h]
  rfl

omit hcall in
/-- The forward tick, given what sending the first entry of the queue does. Induction on the
budget. -/
theorem forwardPending_keeps
    (hitem : ∀ s item rest, s.pending = item :: rest → I s →
      Triple (· = { s with pending := rest }) (forwardItem s.nodeState item) (fun _ s => I s)
        (fun _ s => I s ∧ E))
    (budget : Nat) : Keeps I E (forwardPending budget) := by
  induction budget with
  | zero => exact Keeps.pure
  | succ budget ih =>
    refine ⟨fun s hs => ?_⟩
    cases hp : s.pending with
    | nil =>
      rw [forwardPending_nil hp]
      exact hs
    | cons item rest =>
      rw [forwardPending_cons hp]
      exact (Triple.bind (hitem s item rest hp hs) fun _ => ih).run _ rfl

/-- The key pair is replaced once a day, and nothing else. -/
theorem maybeRotateRelayKeypair_keeps (hrotate : ∀ s relayIdentity, I s → I { s with relayIdentity }) :
    Keeps I E maybeRotateRelayKeypair := by
  refine Keeps.bind (hcall _) fun now => Keeps.get_bind fun s _ => ?_
  refine Keeps.ite (fun _ => ?_) (fun _ => Keeps.pure)
  refine Keeps.bind (hcall _) fun keypair => Keeps.bind (hcall _) fun createdAt => ?_
  exact Keeps.modify fun s hs => hrotate s _ hs

/-- One tick: it is enough to know what each entry of the queue does. -/
theorem forwardOnce_keeps (hrotate : ∀ s relayIdentity, I s → I { s with relayIdentity })
    (hmetrics : ∀ s metrics, I s → I { s with metrics }) (hevict : Keeps I E evictExpired)
    (hitem : ∀ s item rest, s.pending = item :: rest → I s →
      Triple (· = { s with pending := rest }) (forwardItem s.nodeState item) (fun _ s => I s)
        (fun _ s => I s ∧ E)) :
    Keeps I E forwardOnce := by
  refine Keeps.bind (maybeRotateRelayKeypair_keeps hcall hrotate) fun _ =>
    Keeps.bind hevict fun _ => ?_
  refine Keeps.get_bind fun s _ => Keeps.bind (forwardPending_keeps hitem _) fun _ => ?_
  exact Keeps.modify fun s hs => hmetrics s _ hs

end Queue

/-! ## Sending and receiving -/

/-- `I` survives sending and queueing; programs fail only if `E`, and outputs satisfy `G`. -/
structure WireInvariant (I : NodeRunner → Prop) (E : Prop) (G : Output → Prop) : Prop where
  worldCall : ∀ {α : Type} (f : Nat → α), Keeps I E (worldCall f)
  updateMetrics : ∀ f, Keeps I E (updateMetrics f)
  enqueue : ∀ toPeer m, G (.enqueued toPeer m) → Keeps I E (enqueue toPeer m)
  emit : ∀ o, G o → Keeps I E (emit o)
  plain : ∀ o, o.Plain → G o

/-- `I` also survives the announcements of scopes. -/
structure OutInvariant (I : NodeRunner → Prop) (E : Prop) (G : Output → Prop) : Prop
    extends WireInvariant I E G where
  storePeerScopes : ∀ peer validated, Keeps I E (storePeerScopes peer validated)

namespace WireInvariant

variable {I : NodeRunner → Prop} {E : Prop} {G : Output → Prop} (hI : WireInvariant I E G)

include hI

/-! ## Sending -/

/-- Reading the clock. -/
theorem nowMs : Keeps I E nowMs := hI.worldCall _

/-- The ids of the last minutes, for a filter. -/
theorem listIdsWindow : Keeps I E listIdsWindow :=
  Keeps.bind hI.nowMs fun _ => Keeps.bind Keeps.get fun _ => Keeps.pure

/-- A refusal is counted. -/
theorem recordIngestReject (reason : IngestReject) : Keeps I E (recordIngestReject reason) :=
  hI.updateMetrics _

/-- Outputs that no invariant looks at. -/
theorem emitPlain {o : Output} (h : o.Plain) : Keeps I E (Node.emit o) := hI.emit o (hI.plain o h)

/-- Sending a frame that may be sent. -/
theorem trySendDirect {toPeer : String} {m : WireMessage} (h : G (.sendDirect toPeer m)) :
    Keeps I E (trySendDirect toPeer m) :=
  Keeps.bind (hI.worldCall _) fun _ =>
    Keeps.ite (fun _ => Keeps.bind (hI.emit _ h) fun _ => Keeps.pure) (fun _ => Keeps.pure)

/-- Sending keeps `I`; it fails only if the transport does. -/
theorem sendDirect {toPeer : String} {m : WireMessage} (h : G (.sendDirect toPeer m))
    (hok : (∀ n, World.sendOk n toPeer = true) ∨ E) : Keeps I E (sendDirect toPeer m) := by
  rcases hok with hok | hE
  · -- the transport call succeeds, so the `Result` is `Ok`
    refine ⟨fun s hs => ?_⟩
    have hcalled : I { s with calls := s.calls + 1 } :=
      (hI.worldCall fun n => World.sendOk n toPeer).run s hs
    have hemit := (hI.emit _ h).run _ hcalled
    have hrun : Node.sendDirect toPeer m s
        = Node.emit (.sendDirect toPeer m) { s with calls := s.calls + 1 } := by
      rw [sendDirect_run, hok, if_pos rfl]
      rfl
    rw [hrun]
    exact hemit
  · exact Keeps.bind (hI.trySendDirect h) fun ok =>
      Keeps.ite (fun _ => Keeps.pure) (fun _ => Keeps.throw hE)

/-- Frames go to every known peer but the one they came from. -/
theorem forwardWireToOthers {fromPeer : String} {m : WireMessage}
    (h : ∀ p, p ≠ fromPeer → G (.sendDirect p m)) : Keeps I E (forwardWireToOthers fromPeer m) := by
  refine Keeps.get_bind fun s _ => Keeps.forM fun p hp => ?_
  have hne : p ≠ fromPeer := by simpa using (List.mem_filter.mp hp).2
  exact Keeps.bind (hI.trySendDirect (h p hne)) fun _ => Keeps.pure

/-! ## `Data` frames -/

section Data

variable [Prims] {fromPeer : String} {m : DirectMessage}

/-- The policy chooses among the peers it is given. -/
theorem forwardByPolicy {peers : List String}
    (hfwd : ∀ s, I s → ∀ p ∈ peers, G (.enqueued p (forwardCopy s.relayIdentity m))) :
    Keeps I E (forwardByPolicy m peers) := by
  refine Keeps.get_bind fun s _ => Keeps.bind hI.nowMs fun now => ?_
  split
  · next targets htargets =>
    refine Keeps.forM fun p hp => Keeps.get_bind fun s hs => ?_
    exact hI.enqueue _ _ (hfwd s hs p (mem_of_mem_decideForward htargets hp))
  · exact Keeps.pure

/-- An accepted message is queued for others only as a copy of a relay. -/
theorem routeData
    (hfwd : ∀ s, I s → ∀ p, p ≠ fromPeer → G (.enqueued p (forwardCopy s.relayIdentity m))) :
    Keeps I E (routeData fromPeer m) := by
  refine Keeps.get_bind fun s hs => Keeps.ite (fun _ => hI.updateMetrics _) fun _ => ?_
  refine Keeps.bind hI.nowMs fun now => Keeps.ite (fun _ => hI.updateMetrics _) fun _ => ?_
  refine Keeps.ite (fun _ => Keeps.pure) fun _ => ?_
  have hothers : ∀ p ∈ s.transport.knownPeers.filter (· != fromPeer), p ≠ fromPeer := by
    intro p hp
    simpa using (List.mem_filter.mp hp).2
  split
  · next target _ =>
    refine Keeps.ite (fun htarget => hI.enqueue _ _ (hfwd s hs target (hothers target htarget)))
      fun _ => ?_
    exact Keeps.bind (hI.emitPlain trivial) fun _ =>
      hI.forwardByPolicy fun s' hs' p hp => hfwd s' hs' p (hothers p hp)
  · exact hI.forwardByPolicy fun s' hs' p hp => hfwd s' hs' p (hothers p hp)

/-- The guarded part of the `Data` branch, from what it is made of. -/
theorem ingestData
    (hguard : ∀ now, Keeps I E
      (guardCheck (IngestGuard.allowDirect m.envelope.signatureAuthorPeer m now)))
    (hingest : Keeps I E (ingest m false)) (hstrike : Keeps I E (registerStrike fromPeer))
    (hreward : Keeps I E (rewardPeer fromPeer)) (hdeliver : G (.deliver .data m))
    (hfwd : ∀ s, I s → ∀ p, p ≠ fromPeer → G (.enqueued p (forwardCopy s.relayIdentity m))) :
    Keeps I E (ingestData fromPeer m) := by
  refine Keeps.bind hI.nowMs fun now => Keeps.bind (hguard _) fun res => ?_
  cases res with
  | error reason =>
    refine Keeps.bind (hI.recordIngestReject reason) fun _ => ?_
    exact Keeps.ite (fun _ => hstrike) (fun _ => Keeps.pure)
  | ok u =>
    refine Keeps.bind hingest fun new => Keeps.ite (fun _ => ?_) (fun _ => hstrike)
    refine Keeps.bind hreward fun _ => Keeps.bind (hI.emit _ hdeliver) fun _ => ?_
    exact hI.routeData hfwd

/-- The `Data` branch only adds the signature gate and the hop limit in front. -/
theorem handleData (hstrike : Keeps I E (registerStrike fromPeer))
    (hdata : validateDataMessageSignature m = .ok () →
      m.envelope.hopCount < m.envelope.maxHops → Keeps I E (Node.ingestData fromPeer m)) :
    Keeps I E (handleData fromPeer m) := by
  refine Keeps.bind hI.nowMs fun _ => ?_
  split
  · exact Keeps.bind (hI.updateMetrics _) fun _ => hstrike
  · exact hI.updateMetrics _
  · next hok =>
    refine Keeps.ite (fun _ => hI.updateMetrics _) fun hhops => ?_
    exact hdata hok (UInt8.not_le.mp hhops)

end Data

/-! ## The other frames -/

section Frames

variable {fromPeer : String}

/-- Asking for ids that are missing. -/
theorem handleSyncIds (hsend : (∀ n, World.sendOk n fromPeer = true) ∨ E) (ids : List String) :
    Keeps I E (handleSyncIds fromPeer ids) :=
  Keeps.get_bind fun _ _ =>
    Keeps.ite (fun _ => Keeps.pure) (fun _ => hI.sendDirect (hI.plain _ trivial) hsend)

/-- Sending what was asked for. -/
theorem handleSyncRequest (hsend : (∀ n, World.sendOk n fromPeer = true) ∨ E)
    (ids : List String) : Keeps I E (handleSyncRequest fromPeer ids) :=
  Keeps.get_bind fun _ _ =>
    Keeps.ite (fun _ => Keeps.pure) (fun _ => hI.sendDirect (hI.plain _ trivial) hsend)

/-- Past the gate, or counted. -/
theorem afterGate {gate : HopGate} {handle : NodeM Unit} (h : gate = .pass → Keeps I E handle) :
    Keeps I E (afterGate gate handle) := by
  unfold Node.afterGate
  cases gate with
  | noSignature => exact hI.updateMetrics _
  | unparseableSender => exact Keeps.pure
  | invalidSignature => exact hI.updateMetrics _
  | pass => exact h rfl

variable [Prims]

/-- Answering a filter. -/
theorem handleSyncBloom (hsend : (∀ n, World.sendOk n fromPeer = true) ∨ E) (bloom : Bytes)
    (count : UInt64) : Keeps I E (handleSyncBloom fromPeer bloom count) := by
  unfold Node.handleSyncBloom handleSyncBloomBy
  split
  · exact Keeps.pure
  · refine Keeps.bind hI.listIdsWindow fun ids => ?_
    refine Keeps.ite (fun _ => hI.sendDirect (hI.plain _ trivial) hsend) fun _ => ?_
    exact Keeps.ite (fun _ => hI.sendDirect (hI.plain _ trivial) hsend) (fun _ => Keeps.pure)

/-- A payload for this node: its author's key is stored, and the app gets it. -/
theorem deliverEncrypted {key : String} {plain : Bytes}
    (hkey : Keeps I E (storeEncKey (unwrapInner plain fromPeer).1 key)) :
    Keeps I E (deliverEncrypted fromPeer key plain) :=
  Keeps.bind hkey fun _ => Keeps.bind Keeps.get fun _ =>
    Keeps.bind hI.nowMs fun _ => Keeps.bind (hI.emitPlain trivial) fun _ => hI.updateMetrics _

/-- A sealed frame is for this node, or travels on, or has too many hops. -/
theorem handleEncryptedDirect {toPeer key : String} {payload : Bytes} {sig : Option Bytes}
    {hop maxHops : UInt8}
    (hdec : ∀ s e, I s → toPeer = s.localPeerId → decryptWith payload s.encKeypair = .error e → E)
    (hkey : ∀ s plain, I s → toPeer = s.localPeerId → decryptWith payload s.encKeypair = .ok plain →
      Keeps I E (storeEncKey (unwrapInner plain fromPeer).1 key))
    (hfwd : ∀ s, I s → toPeer ≠ s.localPeerId → hop < maxHops → ∀ p, p ≠ fromPeer →
      G (.sendDirect p (forwardEncrypted s.relayIdentity toPeer key payload sig hop maxHops))) :
    Keeps I E (handleEncryptedDirect fromPeer toPeer key payload sig hop maxHops) := by
  refine Keeps.get_bind fun s hs => Keeps.ite (fun hlocal => ?_) fun hother =>
    Keeps.ite (fun hlt => hI.forwardWireToOthers (hfwd s hs hother hlt))
      (fun _ => hI.updateMetrics _)
  split
  · next e he => exact Keeps.throw (hdec s e hs hlocal he)
  · next plain hplain => exact hI.deliverEncrypted (hkey s plain hs hlocal hplain)

/-- **What a frame can do to an invariant**, past the throttle. What is left to show concerns
`Data` and `SyncData` frames, which store messages, announced keys and scopes, and
`EncryptedDirect` frames behind the gate. -/
theorem handleGatedWith {msg : WireMessage} (hsend : (∀ n, World.sendOk n fromPeer = true) ∨ E)
    (hdata : ∀ m, msg = .data m → Keeps I E (Node.handleData fromPeer m))
    (hsync : ∀ messages, msg = .syncData messages → Keeps I E (Node.handleSyncData messages))
    (hinfo : ∀ key displayName scopes, msg = .peerInfo key displayName scopes →
      Keeps I E (Node.handlePeerInfo fromPeer key scopes))
    (hannounce : ∀ scopes, msg = .scopeAnnounce scopes →
      Keeps I E (Node.handleScopeAnnounce fromPeer scopes))
    (henc : ∀ toPeer key payload sig hop maxHops,
      msg = .encryptedDirect toPeer key payload sig hop maxHops → hopGate fromPeer msg = .pass →
      Keeps I E (Node.handleEncryptedDirect fromPeer toPeer key payload sig hop maxHops)) :
    Keeps I E (Node.afterGate (hopGate fromPeer msg) (handleWireMessage fromPeer msg)) := by
  refine hI.afterGate fun hgate => ?_
  cases msg with
  | data m => exact hdata m rfl
  | syncBloom bloom count => exact hI.handleSyncBloom hsend bloom count
  | syncIds ids => exact hI.handleSyncIds hsend ids
  | syncRequest ids => exact hI.handleSyncRequest hsend ids
  | syncData messages => exact hsync messages rfl
  | scopeAnnounce scopes => exact hannounce scopes rfl
  | encryptedDirect toPeer key payload sig hop maxHops =>
    exact henc toPeer key payload sig hop maxHops rfl hgate
  | encryptedGroup groupId payload => exact hI.forwardWireToOthers fun p _ => hI.plain _ trivial
  | peerInfo key displayName scopes => exact hinfo key displayName scopes rfl

end Frames

end WireInvariant

/-- The frames, when scopes may be stored. -/
theorem OutInvariant.handleGated [Prims] {I : NodeRunner → Prop} {E : Prop} {G : Output → Prop}
    (hI : OutInvariant I E G) {fromPeer : String} {msg : WireMessage}
    (hsend : (∀ n, World.sendOk n fromPeer = true) ∨ E)
    (hdata : ∀ m, msg = .data m → Keeps I E (Node.handleData fromPeer m))
    (hsync : ∀ messages, msg = .syncData messages → Keeps I E (Node.handleSyncData messages))
    (hinfo : ∀ key displayName scopes, msg = .peerInfo key displayName scopes →
      Keeps I E (storeEncKey fromPeer key))
    (henc : ∀ toPeer key payload sig hop maxHops,
      msg = .encryptedDirect toPeer key payload sig hop maxHops → hopGate fromPeer msg = .pass →
      Keeps I E (Node.handleEncryptedDirect fromPeer toPeer key payload sig hop maxHops)) :
    Keeps I E (Node.afterGate (hopGate fromPeer msg) (handleWireMessage fromPeer msg)) := by
  refine hI.handleGatedWith hsend hdata hsync ?_ ?_ henc
  · intro key displayName scopes hmsg
    exact Keeps.bind (hinfo key displayName scopes hmsg) fun _ => hI.storePeerScopes _ _
  · intro scopes _
    exact Keeps.get_bind fun _ _ =>
      Keeps.ite (fun _ => hI.storePeerScopes _ _) (fun _ => Keeps.pure)

/-- `I` also survives the throttle, hence frames. -/
structure SendInvariant (I : NodeRunner → Prop) (E : Prop) (G : Output → Prop) : Prop
    extends OutInvariant I E G where
  isThrottled : ∀ peer, Keeps I E (isThrottled peer)

/-- A frame that is not throttled goes through the gate. -/
theorem SendInvariant.handleIncomingDirect [Prims] {I : NodeRunner → Prop} {E : Prop}
    {G : Output → Prop} (hI : SendInvariant I E G) {fromPeer : String} {msg : WireMessage}
    (hsend : (∀ n, World.sendOk n fromPeer = true) ∨ E)
    (hdata : ∀ m, msg = .data m → Keeps I E (Node.handleData fromPeer m))
    (hsync : ∀ messages, msg = .syncData messages → Keeps I E (Node.handleSyncData messages))
    (hinfo : ∀ key displayName scopes, msg = .peerInfo key displayName scopes →
      Keeps I E (storeEncKey fromPeer key))
    (henc : ∀ toPeer key payload sig hop maxHops,
      msg = .encryptedDirect toPeer key payload sig hop maxHops → hopGate fromPeer msg = .pass →
      Keeps I E (Node.handleEncryptedDirect fromPeer toPeer key payload sig hop maxHops)) :
    Keeps I E (Node.handleIncomingDirect fromPeer msg) :=
  Keeps.bind (hI.isThrottled _) fun _ => Keeps.ite (fun _ => Keeps.pure) fun _ =>
    hI.handleGated hsend hdata hsync hinfo henc

/-! ## The rest of the loop -/

/-- `I` also survives events and ticks that neither check nor store a message. -/
structure IdleInvariant (I : NodeRunner → Prop) (G : Output → Prop) : Prop
    extends OutInvariant I True G where
  peerDown : ∀ peerId, Keeps I True (handlePeerDown peerId)
  peers : ∀ s peers, I s → I { s with peers }
  listenAddrs : ∀ s listenAddrs, I s → I { s with listenAddrs }

namespace IdleInvariant

variable [Prims] {I : NodeRunner → Prop} {G : Output → Prop} (hI : IdleInvariant I G)

include hI

omit [Prims] in
/-- A frame that no invariant looks at. -/
theorem sendPlain {toPeer : String} {m : WireMessage} (h : (Output.sendDirect toPeer m).Plain) :
    Keeps I True (sendDirect toPeer m) :=
  hI.sendDirect (hI.plain _ h) (.inr trivial)

/-- A filter of the own ids. -/
theorem sendSyncBloom (peerId : String) : Keeps I True (sendSyncBloom peerId) :=
  Keeps.bind hI.listIdsWindow fun _ =>
    Keeps.ite (fun _ => Keeps.pure) (fun _ => hI.sendPlain trivial)

/-- A new peer is sent the scopes, the own key and a filter. -/
theorem handlePeerUp (peerId : String) : Keeps I True (handlePeerUp peerId) := by
  unfold Node.handlePeerUp
  refine Keeps.ite (fun _ => Keeps.pure) fun _ => ?_
  refine Keeps.bind (Keeps.modify fun s hs => hI.peers s _ hs) fun _ => ?_
  refine Keeps.bind (Keeps.get_bind fun _ _ => hI.sendPlain trivial) fun _ => ?_
  refine Keeps.bind (Keeps.get_bind fun _ _ => hI.sendPlain trivial) fun _ => ?_
  exact hI.sendSyncBloom peerId

omit [Prims] in
/-- Relay addresses are dialled for peers that are not known. -/
theorem dialRendezvousList (remoteIds : List String) :
    Keeps I True (dialRendezvousList remoteIds) := by
  refine Keeps.get_bind fun s _ => Keeps.forM fun remote _ => ?_
  refine Keeps.ite (fun _ => Keeps.pure) fun _ => ?_
  split
  · exact Keeps.pure
  · exact Keeps.bind (hI.worldCall _) fun _ =>
      Keeps.ite (fun _ => hI.emitPlain trivial) (fun _ => Keeps.pure)

/-- Of the events of the transport only frames and gossip need an argument. -/
theorem handleTransportEvent [WireCodec] {event : TransportEvent}
    (hframe : ∀ fromPeer msg, event = .directReceived fromPeer msg →
      Keeps I True (handleIncomingDirect fromPeer msg))
    (hscoped : ∀ fromPeer scope payload, event = .scopedReceived fromPeer scope payload →
      Keeps I True (handleScopedReceived fromPeer scope payload)) :
    Keeps I True (handleTransportEvent event) := by
  cases event with
  | listening address => exact Keeps.modify fun s hs => hI.listenAddrs s _ hs
  | peerUp peerId => exact hI.handlePeerUp peerId
  | peerDown peerId => exact hI.peerDown peerId
  | directReceived fromPeer msg => exact hframe fromPeer msg rfl
  | scopedReceived fromPeer scope payload => exact hscoped fromPeer scope payload rfl
  | directAck fromPeer ack => exact Keeps.pure
  | sendFailure toPeer reason => exact Keeps.pure
  | connectivityChanged mode => exact Keeps.pure

/-- One input, given what the others do. -/
theorem handleInput [WireCodec] {input : Input}
    (hframe : ∀ fromPeer msg, input = .transportEvent (.directReceived fromPeer msg) →
      Keeps I True (handleIncomingDirect fromPeer msg))
    (hscoped : ∀ fromPeer scope payload,
      input = .transportEvent (.scopedReceived fromPeer scope payload) →
      Keeps I True (handleScopedReceived fromPeer scope payload))
    (hcommand : ∀ cmd, input = .command cmd → Keeps I True (handleCommand cmd))
    (htick : input = .forwardTick → Keeps I True forwardOnce)
    (hgc : input = .gcTick → Keeps I True gcExpired) : Keeps I True (handleInput input) := by
  cases input with
  | transportEvent event =>
    refine hI.handleTransportEvent (fun fromPeer msg hevent => hframe fromPeer msg ?_)
      fun fromPeer scope payload hevent => hscoped fromPeer scope payload ?_
    · rw [hevent]
    · rw [hevent]
  | transportError reason => exact Keeps.throw trivial
  | command cmd => exact hcommand cmd rfl
  | rendezvous remoteIds => exact hI.dialRendezvousList remoteIds
  | forwardTick => exact htick rfl
  | syncTick => exact Keeps.get_bind fun _ _ => Keeps.forM fun p _ => hI.sendSyncBloom p
  | gcTick => exact Keeps.bind (hgc rfl) fun _ => Keeps.pure
  | dialTick => exact hI.emitPlain trivial

end IdleInvariant

/-- `I` also survives storing messages, failures included. -/
structure StoringInvariant (I : NodeRunner → Prop) (G : Output → Prop) : Prop
    extends IdleInvariant I G where
  ingestUnseen : ∀ m, Keeps I True (ingestUnseen m)
  scopes : ∀ s subscribedScopes bulletinSubscriptions, I s →
    I { s with subscribedScopes, bulletinSubscriptions }

namespace StoringInvariant

variable {I : NodeRunner → Prop} {G : Output → Prop} (hI : StoringInvariant I G)

include hI

/-- The pipeline, with or without its own check of the signature. -/
theorem ingest [Prims] (m : DirectMessage) (verify : Bool) : Keeps I True (ingest m verify) := by
  refine Keeps.bind hI.nowMs fun now => Keeps.ite (fun _ => Keeps.pure) fun _ =>
    Keeps.ite (fun _ => ?_) (fun _ => hI.ingestUnseen m)
  split
  · exact Keeps.pure
  · exact Keeps.bind hI.nowMs fun _ =>
      Keeps.ite (fun _ => hI.ingestUnseen m) (fun _ => Keeps.pure)

/-- The subscriptions before the loop. -/
theorem startup : Keeps I True startup := by
  refine Keeps.bind (Keeps.forM fun _ _ => hI.emitPlain trivial) fun _ => ?_
  refine Keeps.get_bind fun s _ => Keeps.bind (Keeps.forM fun _ _ => ?_) fun _ =>
    hI.emitPlain trivial
  exact Keeps.bind (hI.emitPlain trivial) fun _ => Keeps.modify fun s hs => hI.scopes s _ _ hs

end StoringInvariant

/-- `I` also survives the guard, hence gossip. -/
structure GossipInvariant (I : NodeRunner → Prop) (G : Output → Prop) : Prop
    extends StoringInvariant I G where
  guardCheck : ∀ check, Keeps I True (guardCheck check)

namespace GossipInvariant

variable [Prims] {I : NodeRunner → Prop} {G : Output → Prop} (hI : GossipInvariant I G)

include hI

/-- A gossip message is checked, stored and delivered. -/
theorem acceptGossip (fromPeer : String) (stored : DirectMessage) (now : UInt64) :
    Keeps I True (acceptGossip fromPeer stored now) := by
  refine Keeps.bind (hI.guardCheck _) fun res => ?_
  cases res with
  | error reason => exact hI.recordIngestReject reason
  | ok u =>
    exact Keeps.bind (hI.ingest stored false) fun _ =>
      Keeps.ite (fun _ => hI.emitPlain trivial) (fun _ => Keeps.pure)

/-- Its envelope is made on arrival. -/
theorem ingestGossip (fromPeer : String) (payload : Bytes) (body : String) (now : UInt64) :
    Keeps I True (ingestGossip fromPeer payload body now) :=
  Keeps.bind hI.nowMs fun _ => hI.acceptGossip _ _ _

/-- Gossip on a scope that is subscribed. -/
theorem handleScopedReceived [WireCodec] (fromPeer scope : String) (payload : Bytes) :
    Keeps I True (handleScopedReceived fromPeer scope payload) := by
  refine Keeps.get_bind fun s _ => Keeps.ite (fun _ => ?_) (fun _ => Keeps.pure)
  refine Keeps.bind hI.nowMs fun now => Keeps.bind (hI.guardCheck _) fun res => ?_
  cases res with
  | error reason => exact hI.recordIngestReject reason
  | ok u =>
    simp only
    split
    · exact hI.ingestGossip _ _ _ _
    · exact Keeps.pure

end GossipInvariant

/-- `I` also survives what the node does of its own accord: commands and the forward tick. -/
structure ActingInvariant (I : NodeRunner → Prop) (G : Output → Prop) : Prop
    extends StoringInvariant I G where
  evictExpired : Keeps I True evictExpired
  pop : ∀ s item rest, s.pending = item :: rest → I s → I { s with pending := rest }
  rotate : ∀ s relayIdentity, I s → I { s with relayIdentity }
  view : ∀ s transport, I s → I { s with transport }
  settings : ∀ s nodeState rendezvousEnabled, I s → I { s with nodeState, rendezvousEnabled }
  other : ∀ o, (∀ m, o ≠ .deliver .data m) → G o

namespace ActingInvariant

variable [Prims] {I : NodeRunner → Prop} {G : Output → Prop} (hI : ActingInvariant I G)

include hI

omit [Prims] in
/-- Every message may be queued. -/
theorem enqueueAny (toPeer : String) (m : DirectMessage) : Keeps I True (enqueue toPeer m) :=
  hI.enqueue toPeer m (hI.other _ (by simp))

/-! ### Commands -/

/-- An own message is made and signed. -/
theorem newMessage (toPeer : Option String) (body : String) (payload : Bytes) :
    Keeps I True (newMessage toPeer body payload) :=
  Keeps.get_bind fun _ _ => Keeps.bind hI.nowMs fun _ => Keeps.pure

/-- A message for one peer is stored and queued, for the peer or for relays. -/
theorem sendDirectInternal (toPeer body : String) (payload : Bytes) :
    Keeps I True (sendDirectInternal toPeer body payload) := by
  refine Keeps.bind (hI.newMessage _ _ _) fun msg => Keeps.bind (hI.ingest msg false) fun _ => ?_
  refine Keeps.get_bind fun s _ => Keeps.ite (fun _ => hI.enqueueAny _ _) fun _ => ?_
  exact Keeps.ite (fun _ => Keeps.pure) (fun _ => Keeps.forM fun _ _ => hI.enqueueAny _ _)

/-- A broadcast goes to the peers of the scope, or over gossip. -/
theorem broadcastScoped (scope body : String) (payload : Bytes) :
    Keeps I True (broadcastScoped scope body payload) := by
  refine Keeps.get_bind fun s _ => Keeps.ite (fun _ => ?_) (fun _ => Keeps.forM fun toPeer _ => ?_)
  · exact Keeps.bind (hI.worldCall _) fun _ =>
      Keeps.ite (fun _ => hI.emitPlain trivial) (fun _ => Keeps.throw trivial)
  · exact Keeps.bind (hI.newMessage _ _ _) fun msg => Keeps.bind (hI.ingest msg false) fun _ =>
      hI.enqueueAny _ _

/-- A frame of the app, signed if it must be. -/
theorem handleSendWire (toPeer : String) (m : WireMessage) :
    Keeps I True (handleSendWire toPeer m) := by
  refine Keeps.get_bind fun s _ => ?_
  split
  · exact Keeps.throw trivial
  · exact hI.sendDirect (hI.other _ (by simp)) (.inr trivial)

omit [Prims] in
/-- A scope with a wildcard has no topic. -/
theorem subscribeTopic (scope : String) : Keeps I True (subscribeTopic scope) :=
  Keeps.ite (fun _ => Keeps.pure) (fun _ => hI.emitPlain trivial)

omit [Prims] in
/-- The same when it is left. -/
theorem unsubscribeTopic (scope : String) : Keeps I True (unsubscribeTopic scope) :=
  Keeps.ite (fun _ => Keeps.pure) (fun _ => hI.emitPlain trivial)

/-- All commands, given what a collection does. -/
theorem handleCommand {cmd : NodeCommand}
    (hgc : ∀ reply, cmd = .gcNow reply → Keeps I True gcExpired) :
    Keeps I True (handleCommand cmd) := by
  -- one case for each command, closed by the rule of the function it calls
  cases cmd with
  | sendDirect toPeer body => exact hI.sendDirectInternal _ _ _
  | sendDirectPayload toPeer body payload => exact hI.sendDirectInternal _ _ _
  | broadcast scope body => exact hI.broadcastScoped _ _ _
  | broadcastPayload scope body payload => exact hI.broadcastScoped _ _ _
  | sendWire toPeer m => exact hI.handleSendWire toPeer m
  | addBootstrapPeer multiaddr =>
    exact Keeps.bind (hI.emitPlain trivial) fun _ => Keeps.bind (hI.worldCall _) fun _ =>
      Keeps.ite (fun _ => hI.emitPlain trivial) (fun _ => Keeps.throw trivial)
  | subscribeScope scope =>
    exact Keeps.bind (Keeps.modify fun s hs => hI.scopes s _ _ hs) fun _ => hI.subscribeTopic _
  | unsubscribeScope scope =>
    exact Keeps.bind (Keeps.modify fun s hs => hI.scopes s _ _ hs) fun _ => hI.unsubscribeTopic _
  | subscribeBulletinScope scope =>
    exact Keeps.ite (fun _ => Keeps.pure) fun _ =>
      Keeps.bind (Keeps.modify fun s hs => hI.scopes s _ _ hs) fun _ => hI.subscribeTopic _
  | unsubscribeBulletinScope scope =>
    exact Keeps.bind (Keeps.modify fun s hs => hI.scopes s _ _ hs) fun _ => hI.unsubscribeTopic _
  | gcNow reply =>
    exact Keeps.bind (hgc reply rfl) fun _ =>
      Keeps.ite (fun _ => hI.emitPlain trivial) (fun _ => Keeps.pure)
  | storeStats reply =>
    exact Keeps.get_bind fun _ _ => Keeps.ite (fun _ => hI.emitPlain trivial) (fun _ => Keeps.pure)
  | listPeers => exact Keeps.modify fun s hs => hI.peers s _ hs
  | setEnergyState state => exact Keeps.modify fun s hs => hI.settings s _ _ hs
  | setRendezvousEnabled enabled => exact Keeps.modify fun s hs => hI.settings s _ _ hs

/-! ### Ticks -/

omit [Prims] in
/-- One entry of the queue is sent if it may be. -/
theorem forwardItem (state : NodeState) (item : PendingMessage) :
    Keeps I True (forwardItem state item) := by
  refine Keeps.bind hI.nowMs fun now => Keeps.ite (fun _ => Keeps.pure) fun _ => ?_
  refine Keeps.ite (fun _ => Keeps.pure) fun _ => ?_
  exact Keeps.bind (hI.trySendDirect (hI.other _ (by simp))) fun _ =>
    Keeps.ite (fun _ => hI.updateMetrics _) (fun _ => Keeps.pure)

omit [Prims] in
/-- One tick of the queue. -/
theorem forwardOnce : Keeps I True forwardOnce := by
  refine forwardOnce_keeps hI.worldCall hI.rotate (fun s _ hs => (hI.updateMetrics fun _ => _).run s hs)
    hI.evictExpired fun s item rest hp hs => ?_
  exact (hI.forwardItem _ _).imp (fun _ hs' => hs' ▸ hI.pop s item rest hp hs) (fun _ _ h => h)
    fun _ _ h => h

end ActingInvariant

/-- `I` survives everything but frames and the collection of what is old. -/
structure GrowthInvariant (I : NodeRunner → Prop) (G : Output → Prop) : Prop
    extends GossipInvariant I G, ActingInvariant I G

/-- One input, given what a frame and a collection do. -/
theorem GrowthInvariant.handleInput [Prims] [WireCodec] {I : NodeRunner → Prop} {G : Output → Prop}
    (hI : GrowthInvariant I G) {input : Input}
    (hframe : ∀ fromPeer msg, input = .transportEvent (.directReceived fromPeer msg) →
      Keeps I True (handleIncomingDirect fromPeer msg))
    (hgc : input = .gcTick ∨ (∃ reply, input = .command (.gcNow reply)) → Keeps I True gcExpired) :
    Keeps I True (Node.handleInput input) := by
  refine hI.toIdleInvariant.handleInput hframe (fun _ _ _ _ => hI.handleScopedReceived _ _ _) ?_
    (fun _ => hI.forwardOnce) fun htick => hgc (.inl htick)
  intro cmd hcmd
  exact hI.handleCommand fun reply hreply => hgc (.inr ⟨reply, by rw [hcmd, hreply]⟩)

/-- `I` survives storing, collecting and the throttle. -/
structure StoreInvariant (I : NodeRunner → Prop) (G : Output → Prop) : Prop
    extends SendInvariant I True G, StoringInvariant I G where
  gcExpired : Keeps I True gcExpired

/-- `I` also survives the guard, hence all events and ticks. -/
structure EventInvariant (I : NodeRunner → Prop) (G : Output → Prop) : Prop
    extends StoreInvariant I G, GossipInvariant I G

/-- One input, given what a frame, a command and the forward tick do. -/
theorem EventInvariant.handleInput [Prims] [WireCodec] {I : NodeRunner → Prop} {G : Output → Prop}
    (hI : EventInvariant I G) {input : Input}
    (hframe : ∀ fromPeer msg, input = .transportEvent (.directReceived fromPeer msg) →
      Keeps I True (handleIncomingDirect fromPeer msg))
    (hcommand : ∀ cmd, input = .command cmd → Keeps I True (handleCommand cmd))
    (htick : input = .forwardTick → Keeps I True forwardOnce) : Keeps I True (Node.handleInput input) :=
  hI.toIdleInvariant.handleInput hframe (fun _ _ _ _ => hI.handleScopedReceived _ _ _) hcommand
    htick fun _ => hI.gcExpired

/-- `I` survives what the node does of its own accord, throttle and collection included. -/
structure OwnInvariant (I : NodeRunner → Prop) (G : Output → Prop) : Prop
    extends StoreInvariant I G, ActingInvariant I G

/-- One input, given what a frame and gossip do. -/
theorem OwnInvariant.handleInput [Prims] [WireCodec] {I : NodeRunner → Prop} {G : Output → Prop}
    (hI : OwnInvariant I G) {input : Input}
    (hframe : ∀ fromPeer msg, input = .transportEvent (.directReceived fromPeer msg) →
      Keeps I True (handleIncomingDirect fromPeer msg))
    (hscoped : ∀ fromPeer scope payload,
      input = .transportEvent (.scopedReceived fromPeer scope payload) →
      Keeps I True (handleScopedReceived fromPeer scope payload)) :
    Keeps I True (Node.handleInput input) :=
  hI.toIdleInvariant.handleInput hframe hscoped
    (fun _ _ => hI.toActingInvariant.handleCommand fun _ _ => hI.gcExpired)
    (fun _ => hI.toActingInvariant.forwardOnce) fun _ => hI.gcExpired

/-- `I` survives everything but frames. -/
structure HostInvariant (I : NodeRunner → Prop) (G : Output → Prop) : Prop
    extends EventInvariant I G, OwnInvariant I G

/-- One input, given what a frame does. -/
theorem HostInvariant.handleInput [Prims] [WireCodec] {I : NodeRunner → Prop} {G : Output → Prop}
    (hI : HostInvariant I G) {input : Input}
    (hframe : ∀ fromPeer msg, input = .transportEvent (.directReceived fromPeer msg) →
      Keeps I True (handleIncomingDirect fromPeer msg)) : Keeps I True (Node.handleInput input) :=
  hI.toOwnInvariant.handleInput hframe fun _ _ _ _ => hI.handleScopedReceived _ _ _

end

end Mycelium.Node
