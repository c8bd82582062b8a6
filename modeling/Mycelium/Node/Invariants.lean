import Mycelium.Node.Walk

/-!
# Mycelium node — invariants of the core

Most invariants do not look at the bookkeeping of the runner: metrics, reputations, peer
tables, subscriptions, caches. The rest is the `NodeCore`, and an invariant that speaks only
about it survives bookkeeping for free.

* `CoreInvariant I` — `I` speaks about the core, and about the clock only from now on;
* `FrameInvariant I E G` — it also survives the ingest pipeline, the queue and outputs that
  satisfy `G`, hence every frame (`FrameInvariant.handleIncomingDirect`);
* `QuietInvariant` / `LoopInvariant` — it also survives what the rest of the loop does, and
  holds along whole runs (`LoopInvariant.runLoop`).
-/

namespace Mycelium.Node

/-- The part of the runner that invariants speak about. -/
structure NodeCore where
  transport : TransportView
  localPeerId : String
  store : SledMessageStore
  pending : List PendingMessage
  pendingCap : Nat
  encKeypair : EncryptionKeypair
  relayIdentity : RelayIdentity
  out : List Output

def NodeRunner.core (s : NodeRunner) : NodeCore where
  transport := s.transport
  localPeerId := s.localPeerId
  store := s.store
  pending := s.pending
  pendingCap := s.pendingCap
  encKeypair := s.encKeypair
  relayIdentity := s.relayIdentity
  out := s.out

section

variable [World]

/-- `I` speaks about the core of the runner, and about the clock only from now on. -/
structure CoreInvariant (I : NodeRunner → Prop) : Prop where
  congr : ∀ s s' : NodeRunner, s'.core = s.core → s.calls ≤ s'.calls → I s → I s'

namespace CoreInvariant

variable {I : NodeRunner → Prop} {E : Prop} (hI : CoreInvariant I)

include hI

/-! ## Primitive operations -/

omit [World] in
/-- A change of bookkeeping fields. -/
theorem bookkeeping {f : NodeRunner → NodeRunner} (hcore : ∀ s, (f s).core = s.core)
    (hcalls : ∀ s, (f s).calls = s.calls) : Keeps I E (modify f : NodeM Unit) :=
  Keeps.modify fun s hs => hI.congr s _ (hcore s) (by rw [hcalls]) hs

omit [World] in
/-- The clock moves on, and nothing of the core with it. -/
theorem worldCall {α : Type} (f : Nat → α) : Keeps I E (worldCall f) :=
  Keeps.modifyGet fun s hs => hI.congr s _ rfl (Nat.le_succ _) hs

/-- So a reading is free. -/
theorem nowMs : Keeps I E nowMs := hI.worldCall _

omit [World] in
/-- Metrics are bookkeeping. -/
theorem updateMetrics (f : NodeMetrics → NodeMetrics) : Keeps I E (updateMetrics f) :=
  hI.bookkeeping (fun _ => rfl) (fun _ => rfl)

omit [World] hI in
/-- The result of a guard check and the guard it leaves. -/
theorem guardCheck_triple {check : IngestGuard → Except IngestReject Unit × IngestGuard}
    {Q : Except IngestReject Unit → NodeRunner → Prop} {F : String → NodeRunner → Prop}
    (h : ∀ s, I s →
      Q (check s.ingestGuard).1 { s with ingestGuard := (check s.ingestGuard).2 }) :
    Triple I (Node.guardCheck check) Q F :=
  Triple.modifyGet h

omit [World] in
/-- Stated for any guard, so that the checks are never run to compare two states. -/
theorem setGuard {s : NodeRunner} (hs : I s) (ingestGuard : IngestGuard) :
    I { s with ingestGuard } :=
  hI.congr s _ rfl (Nat.le_refl _) hs

omit [World] in
/-- The guard is bookkeeping. -/
theorem guardCheck (check : IngestGuard → Except IngestReject Unit × IngestGuard) :
    Keeps I E (guardCheck check) :=
  guardCheck_triple fun _ hs => hI.setGuard hs _

omit [World] in
/-- A refusal is counted. -/
theorem recordIngestReject (reason : IngestReject) : Keeps I E (recordIngestReject reason) :=
  hI.updateMetrics _

/-- An entry that decays is bookkeeping. -/
theorem isThrottled (peer : String) : Keeps I E (isThrottled peer) := by
  refine Keeps.bind hI.nowMs fun now => Keeps.get_bind fun s _ => ?_
  split
  · exact Keeps.pure
  · exact Keeps.bind (hI.bookkeeping (fun _ => rfl) (fun _ => rfl)) fun _ => Keeps.pure

/-- So is a strike. -/
theorem registerStrike (peer : String) : Keeps I E (registerStrike peer) :=
  Keeps.bind hI.nowMs fun _ => hI.bookkeeping (fun _ => rfl) (fun _ => rfl)

omit [World] in
/-- So is a reward. -/
theorem rewardPeer (peer : String) : Keeps I E (rewardPeer peer) := by
  refine hI.bookkeeping (fun s => ?_) (fun s => ?_) <;> split <;> rfl

/-- Listing ids reads the clock and the store. -/
theorem listIdsWindow : Keeps I E listIdsWindow :=
  Keeps.bind hI.nowMs fun _ => Keeps.bind Keeps.get fun _ => Keeps.pure

/-! ## The ingest pipeline -/

omit hI in
/-- What `ingestUnseen` does: nothing to a known message, and one entry in the cache and in
the store for a new one. -/
theorem ingestUnseen_run (m : DirectMessage) (s : NodeRunner) :
    ingestUnseen m s
      = if s.seenCache.contains m.envelope.id || s.store.contains m.envelope.id then .ok false s
        else .ok true { s with
          seenCache := s.seenCache.insert m.envelope.id
          calls := s.calls + 1
          store := s.store.persist (World.clock s.calls) m } := by
  unfold ingestUnseen
  rw [run_bind_of_ok run_get]
  split <;> rfl

omit hI in
/-- It is enough to know what storing a message with a new id does. -/
theorem ingestUnseen_triple {Q : NodeRunner → Prop} {F : String → NodeRunner → Prop}
    {m : DirectMessage}
    (hstore : ∀ s, I s → m.envelope.id ∉ s.store.db →
      Q { s with calls := s.calls + 1, store := s.store.persist (World.clock s.calls) m })
    (hQ : CoreInvariant Q) :
    Triple I (ingestUnseen m) (fun new s => if new then Q s else I s) F := by
  refine ⟨fun s hs => ?_⟩
  rw [ingestUnseen_run]
  by_cases hknown : (s.seenCache.contains m.envelope.id || s.store.contains m.envelope.id) = true
  · rw [if_pos hknown]
    exact hs
  · rw [if_neg hknown]
    simp only [Bool.or_eq_true, not_or, SledMessageStore.contains_iff] at hknown
    refine hQ.congr _ _ ?_ ?_ (hstore s hs hknown.2)
    · rfl
    · exact Nat.le_refl _

/-- The same, for an invariant. -/
theorem ingestUnseen_keeps {m : DirectMessage}
    (hstore : ∀ s, I s → m.envelope.id ∉ s.store.db →
      I { s with calls := s.calls + 1, store := s.store.persist (World.clock s.calls) m }) :
    Keeps I E (ingestUnseen m) := by
  refine (ingestUnseen_triple hstore hI).imp (fun _ h => h) (fun new s h => ?_)
    (fun _ _ h => h)
  split at h <;> exact h

/-! ## Invariants that do not look at the queue -/

section Queue

variable (hpending : ∀ s pending, I s → I { s with pending })

include hpending

/-- What has expired may leave the queue. -/
theorem evictExpired_of_pending : Keeps I E evictExpired :=
  evictExpired_keeps hI.worldCall fun s pending _ => hpending s pending

/-- A message may be queued, and another one evicted for it. -/
theorem enqueue_of_pending (hE : E) {toPeer : String} {m : DirectMessage}
    (hemit : Keeps I E (emit (.enqueued toPeer m))) : Keeps I E (enqueue toPeer m) :=
  enqueue_keeps hI.worldCall hpending (fun s _ hs => hI.congr s _ rfl (Nat.le_refl _) hs) hE hemit

end Queue

/-- An invariant of the core survives sending, if outputs and queueing do not break it. -/
theorem send {G : Output → Prop}
    (henqueue : ∀ toPeer m, G (.enqueued toPeer m) → Keeps I E (Node.enqueue toPeer m))
    (hemit : ∀ o, G o → Keeps I E (Node.emit o)) (hplain : ∀ o, o.Plain → G o) :
    SendInvariant I E G where
  worldCall f := hI.worldCall f
  updateMetrics f := hI.updateMetrics f
  isThrottled peer := hI.isThrottled peer
  storePeerScopes _ _ :=
    Keeps.ite (fun _ => Keeps.pure) (fun _ => hI.bookkeeping (fun _ => rfl) (fun _ => rfl))
  enqueue := henqueue
  emit := hemit
  plain := hplain

end CoreInvariant

/-- `I` survives what frames make the node do; programs fail only if `E`, and outputs
satisfy `G`. -/
structure FrameInvariant (I : NodeRunner → Prop) (E : Prop) (G : Output → Prop) : Prop
    extends CoreInvariant I where
  ingestUnseen : ∀ m, Keeps I E (ingestUnseen m)
  enqueue : ∀ toPeer m, G (.enqueued toPeer m) → Keeps I E (enqueue toPeer m)
  emit : ∀ o, G o → Keeps I E (emit o)
  plain : ∀ o, o.Plain → G o

namespace FrameInvariant

variable {I : NodeRunner → Prop} {E : Prop} {G : Output → Prop} (hI : FrameInvariant I E G)

include hI

/-- An invariant of frames is one of sending. -/
theorem send : SendInvariant I E G :=
  hI.toCoreInvariant.send hI.enqueue hI.emit hI.plain

/-- A stored key is bookkeeping. -/
theorem storeEncKey (peer key : String) : Keeps I E (storeEncKey peer key) := by
  unfold Node.storeEncKey
  split
  · exact hI.bookkeeping (fun _ => rfl) (fun _ => rfl)
  · exact Keeps.pure

section

variable [Prims] {fromPeer : String}

/-- The pipeline, as all handlers use it. -/
theorem ingest (m : DirectMessage) : Keeps I E (ingest m false) :=
  Keeps.bind hI.nowMs fun _ => Keeps.ite (fun _ => Keeps.pure) fun _ => hI.ingestUnseen m

/-- The accepting part of the `Data` branch, for an invariant that allows the delivery. -/
theorem ingestData {m : DirectMessage} (hdeliver : G (.deliver .data m))
    (hfwd : ∀ s, I s → ∀ p, p ≠ fromPeer → G (.enqueued p (forwardCopy s.relayIdentity m))) :
    Keeps I E (ingestData fromPeer m) :=
  hI.send.ingestData (fun _ => hI.guardCheck _) (hI.ingest m) (hI.registerStrike _) (hI.rewardPeer _) hdeliver
    hfwd

/-- A frame of messages to store. Each goes through the pipeline. -/
theorem handleSyncData (messages : List DirectMessage) : Keeps I E (handleSyncData messages) :=
  Keeps.forM fun m _ => Keeps.bind (hI.ingest m) fun _ => Keeps.pure

/-- A sealed frame, when what it is opened to or sent on as is allowed. -/
theorem handleEncryptedDirect {toPeer key : String} {payload : Bytes} {sig : Option Bytes}
    {hop maxHops : UInt8}
    (hdec : ∀ s e, I s → toPeer = s.localPeerId → decryptWith payload s.encKeypair = .error e → E)
    (hfwd : ∀ s, I s → toPeer ≠ s.localPeerId → hop < maxHops → ∀ p, p ≠ fromPeer →
      G (.sendDirect p (forwardEncrypted s.relayIdentity toPeer key payload sig hop maxHops))) :
    Keeps I E (handleEncryptedDirect fromPeer toPeer key payload sig hop maxHops) :=
  hI.send.handleEncryptedDirect hdec (fun _ _ _ _ _ => hI.storeEncKey _ _) hfwd

/-- **What a frame can do to an invariant of the core.** What is left to show concerns the
accepted `Data` messages and `EncryptedDirect` frames. -/
theorem handleIncomingDirect {msg : WireMessage}
    (hsend : (∀ n, World.sendOk n fromPeer = true) ∨ E)
    (hdata : ∀ m, msg = .data m → validateDataMessageSignature m = .ok () →
      m.envelope.hopCount < m.envelope.maxHops → Keeps I E (Node.ingestData fromPeer m))
    (henc : ∀ toPeer key payload sig hop maxHops,
      msg = .encryptedDirect toPeer key payload sig hop maxHops → hopGate fromPeer msg = .pass →
      Keeps I E (Node.handleEncryptedDirect fromPeer toPeer key payload sig hop maxHops)) :
    Keeps I E (handleIncomingDirect fromPeer msg) :=
  hI.send.handleIncomingDirect hsend
    (fun m hm => hI.send.handleData (hI.registerStrike _) (hdata m hm))
    (fun messages _ => hI.handleSyncData messages) (fun _ _ _ _ => hI.storeEncKey _ _) henc

end

end FrameInvariant

/-! ## The whole loop -/

/-- An invariant that also survives the rest of the loop, failures included, as long as no
`Data` message is accepted. -/
structure QuietInvariant [Prims] (I : NodeRunner → Prop) (G : Output → Prop) : Prop
    extends FrameInvariant I True G where
  gcExpired : Keeps I True gcExpired
  evictExpired : Keeps I True evictExpired
  pop : ∀ s item rest, s.pending = item :: rest → I s → I { s with pending := rest }
  rotate : ∀ s relayIdentity, I s → I { s with relayIdentity }
  view : ∀ s transport, I s → I { s with transport }
  other : ∀ o, (∀ m, o ≠ .deliver .data m) → G o

/-- An invariant that survives everything the loop does. -/
structure LoopInvariant [Prims] (I : NodeRunner → Prop) (G : Output → Prop) : Prop
    extends QuietInvariant I G where
  data : ∀ fromPeer m, Keeps I True (ingestData fromPeer m)

namespace QuietInvariant

variable [Prims] {I : NodeRunner → Prop} {G : Output → Prop} (hI : QuietInvariant I G)

include hI

/-- An invariant that survives frames and bookkeeping is one of the host. -/
theorem host : HostInvariant I G where
  toSendInvariant := hI.send
  ingestUnseen := hI.ingestUnseen
  guardCheck := hI.guardCheck
  gcExpired := hI.gcExpired
  evictExpired := hI.evictExpired
  peerDown _ := hI.bookkeeping (fun _ => rfl) (fun _ => rfl)
  pop := hI.pop
  rotate := hI.rotate
  view := hI.view
  peers s _ hs := hI.congr s _ rfl (Nat.le_refl _) hs
  listenAddrs s _ hs := hI.congr s _ rfl (Nat.le_refl _) hs
  scopes s _ _ hs := hI.congr s _ rfl (Nat.le_refl _) hs
  settings s _ _ hs := hI.congr s _ rfl (Nat.le_refl _) hs
  other := hI.other

/-- A frame, given what accepting its `Data` message does. -/
theorem frame (fromPeer : String) {msg : WireMessage}
    (hdata : ∀ m, msg = .data m → validateDataMessageSignature m = .ok () →
      m.envelope.hopCount < m.envelope.maxHops → Keeps I True (ingestData fromPeer m)) :
    Keeps I True (handleIncomingDirect fromPeer msg) :=
  hI.handleIncomingDirect (.inr trivial) hdata
    (fun _ _ _ _ _ _ _ _ => hI.handleEncryptedDirect (fun _ _ _ _ _ => trivial)
      (fun _ _ _ _ _ _ => hI.other _ (by simp)))

end QuietInvariant

namespace LoopInvariant

variable [Prims] {I : NodeRunner → Prop} {G : Output → Prop} (hI : LoopInvariant I G)

include hI

/-- One step of the loop keeps the invariant. -/
theorem step [WireCodec] (view : TransportView) (input : Input) :
    Keeps I True (step view input) :=
  Keeps.bind (Keeps.modify fun s hs => hI.view s view hs) fun _ =>
    hI.host.handleInput fun fromPeer _ _ => hI.frame fromPeer fun m _ _ _ => hI.data fromPeer m

/-- **Every run keeps the invariant.** -/
theorem runLoop [WireCodec] (inputs : List (TransportView × Input)) :
    Keeps I True (runLoop inputs) :=
  Keeps.bind hI.host.startup fun _ => Keeps.forM fun i _ => hI.step i.1 i.2

/-- The invariant in every reachable state, if it holds at the start. -/
theorem reachable [WireCodec] {c : NodeConfig} (h0 : I (.new c)) {s : NodeRunner}
    (hs : Reachable c s) : I s := by
  obtain ⟨inputs, hrun⟩ := hs
  have h := (hI.runLoop inputs).state h0
  rw [hrun] at h
  exact h

end LoopInvariant

end

end Mycelium.Node
