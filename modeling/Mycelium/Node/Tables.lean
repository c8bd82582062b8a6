import Mycelium.Node.Walk

/-!
# Mycelium node — invariants of the tables

The counterpart of the core: the tables in which the runner keeps what it knows about
messages, authors and peers. An invariant that speaks only about them survives queueing,
sending, metrics and settings for free (`TablesInvariant.host`), and what is left to show
concerns the programs that write a table.
-/

namespace Mycelium.Node

/-- What the runner is and what it has learned. -/
structure NodeTables where
  localPeerId : String
  encKeypair : EncryptionKeypair
  store : SledMessageStore
  seenCache : BasicSeenCache
  peerReputations : KvTree.Of String PeerReputation
  peerX25519 : KvTree.Of String X25519Key
  ingestGuard : IngestGuard

def NodeRunner.tables (s : NodeRunner) : NodeTables where
  localPeerId := s.localPeerId
  encKeypair := s.encKeypair
  store := s.store
  seenCache := s.seenCache
  peerReputations := s.peerReputations
  peerX25519 := s.peerX25519
  ingestGuard := s.ingestGuard

/-- `I` speaks about the tables only. -/
structure TablesInvariant (I : NodeRunner → Prop) : Prop where
  congr : ∀ s s' : NodeRunner, s'.tables = s.tables → I s → I s'

namespace TablesInvariant

variable [World] {I : NodeRunner → Prop} {E : Prop} (hI : TablesInvariant I)

include hI

omit [World] in
theorem other {f : NodeRunner → NodeRunner} (hf : ∀ s, (f s).tables = s.tables) :
    Keeps I E (modify f : NodeM Unit) :=
  Keeps.modify fun s hs => hI.congr s _ (hf s) hs

omit [World] in
theorem worldCall {α : Type} (f : Nat → α) : Keeps I E (worldCall f) :=
  Keeps.modifyGet fun s hs => hI.congr s _ rfl hs

/-- Sending and queueing leave the tables alone. -/
theorem out (hE : E) : OutInvariant I E (fun _ => True) where
  worldCall := hI.worldCall
  updateMetrics _ := hI.other fun _ => rfl
  storePeerScopes _ _ := Keeps.ite (fun _ => Keeps.pure) (fun _ => hI.other fun _ => rfl)
  enqueue _ _ _ := enqueue_keeps hI.worldCall (fun s _ hs => hI.congr s _ rfl hs)
    (fun s _ hs => hI.congr s _ rfl hs) hE (hI.other fun _ => rfl)
  emit _ _ := hI.other fun _ => rfl
  plain _ _ := trivial

/-- The throttle may write the reputations. -/
theorem send (hE : E) (hthrottle : ∀ peer, Keeps I E (isThrottled peer)) :
    SendInvariant I E (fun _ => True) where
  toOutInvariant := hI.out hE
  isThrottled := hthrottle

/-- What the node does of its own accord, given what storing does to the tables. -/
theorem acting (hingest : ∀ m, Keeps I True (ingestUnseen m))
    (hdown : ∀ s peerId, I s → I { s with peerX25519 := s.peerX25519.erase peerId }) :
    ActingInvariant I (fun _ => True) where
  toOutInvariant := hI.out trivial
  ingestUnseen := hingest
  evictExpired := evictExpired_keeps hI.worldCall fun s _ _ hs => hI.congr s _ rfl hs
  peerDown peerId := Keeps.modify fun s hs =>
    hI.congr { s with peerX25519 := s.peerX25519.erase peerId } _ rfl (hdown s peerId hs)
  pop s _ _ _ hs := hI.congr s _ rfl hs
  rotate s _ hs := hI.congr s _ rfl hs
  view s _ hs := hI.congr s _ rfl hs
  peers s _ hs := hI.congr s _ rfl hs
  listenAddrs s _ hs := hI.congr s _ rfl hs
  scopes s _ _ hs := hI.congr s _ rfl hs
  settings s _ _ hs := hI.congr s _ rfl hs
  other _ _ := trivial

/-- The rest of the loop but for collections, given what storing and checking do. -/
theorem growth (hingest : ∀ m, Keeps I True (ingestUnseen m))
    (hguard : ∀ check, Keeps I True (guardCheck check))
    (hdown : ∀ s peerId, I s → I { s with peerX25519 := s.peerX25519.erase peerId }) :
    GrowthInvariant I (fun _ => True) :=
  { hI.acting hingest hdown with guardCheck := hguard }

/-- What the node does of its own accord, with what collecting does to the tables. -/
theorem own (hthrottle : ∀ peer, Keeps I True (isThrottled peer))
    (hingest : ∀ m, Keeps I True (ingestUnseen m)) (hgc : Keeps I True gcExpired)
    (hdown : ∀ s peerId, I s → I { s with peerX25519 := s.peerX25519.erase peerId }) :
    OwnInvariant I (fun _ => True) :=
  { hI.acting hingest hdown with isThrottled := hthrottle, gcExpired := hgc }

/-- The rest of the loop, given what storing, checking and collecting do to the tables. -/
theorem host (hthrottle : ∀ peer, Keeps I True (isThrottled peer))
    (hingest : ∀ m, Keeps I True (ingestUnseen m)) (hguard : ∀ check, Keeps I True (guardCheck check))
    (hgc : Keeps I True gcExpired)
    (hdown : ∀ s peerId, I s → I { s with peerX25519 := s.peerX25519.erase peerId }) :
    HostInvariant I (fun _ => True) :=
  { hI.own hthrottle hingest hgc hdown with guardCheck := hguard }

end TablesInvariant

/-- `I` does not look at the messages: store, seen cache and guard may change freely. -/
structure PeerInvariant (I : NodeRunner → Prop) : Prop extends TablesInvariant I where
  messages : ∀ s store seenCache ingestGuard, I s → I { s with store, seenCache, ingestGuard }

namespace PeerInvariant

variable [World] {I : NodeRunner → Prop} (hI : PeerInvariant I)

include hI

/-- An invariant of the peer tables survives the rest of the loop. -/
theorem peerHost (hthrottle : ∀ peer, Keeps I True (isThrottled peer))
    (hdown : ∀ s peerId, I s → I { s with peerX25519 := s.peerX25519.erase peerId }) :
    HostInvariant I (fun _ => True) := by
  refine hI.host hthrottle (fun m => ?_) (fun _ => ?_) ?_ hdown
  · refine Keeps.get_bind fun s _ => Keeps.ite (fun _ => Keeps.pure) fun _ => ?_
    refine Keeps.bind (Keeps.modify fun s hs => hI.messages s _ _ _ hs) fun _ => ?_
    refine Keeps.bind (hI.worldCall _) fun _ => ?_
    exact Keeps.bind (Keeps.modify fun s hs => hI.messages s _ _ _ hs) fun _ => Keeps.pure
  · exact Keeps.modifyGet fun s hs => hI.messages s _ _ _ hs
  · exact Keeps.bind (hI.worldCall _) fun _ => Keeps.modifyGet fun s hs => hI.messages s _ _ _ hs

end PeerInvariant

end Mycelium.Node
