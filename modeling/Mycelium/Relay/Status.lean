import Mathlib.Data.Finset.Basic
import Mathlib.Data.Finset.Filter
import Mathlib.Data.Finset.Card

/-!
# Mycelium relay — the status of the relay

Translation of `mycelium-relay/src/main.rs`: what the loop does with the events of its swarm, and
what the HTTP server does with requests. Both work on one `StatusState`, made of counters and of
sets that have a lock each; an arm of the loop takes one lock after the other, so that a request
can come in between. An arm is therefore the list of its operations.

The only thing the relay does with a peer id is to print it, so a peer is its text here.
-/

namespace Mycelium.Relay

/-- The sets of peers, each under a lock of its own. -/
inductive PeerSet where
  | connectedPeers
  /-- Peers with an active relay reservation. -/
  | reservedPeers
  | rendezvousOptIn
deriving DecidableEq

/-- The two `AtomicU64`. -/
inductive Counter where
  | connections
  | reservations
deriving DecidableEq

/-- `StatusState`, without what never changes. -/
structure StatusState where
  connections : UInt64 := 0
  reservations : UInt64 := 0
  connectedPeers : Finset String := ∅
  reservedPeers : Finset String := ∅
  rendezvousOptIn : Finset String := ∅
deriving DecidableEq

namespace StatusState

def updateCounter (f : UInt64 → UInt64) (s : StatusState) : Counter → StatusState
  | .connections => { s with connections := f s.connections }
  | .reservations => { s with reservations := f s.reservations }

def updateSet (f : Finset String → Finset String) (s : StatusState) : PeerSet → StatusState
  | .connectedPeers => { s with connectedPeers := f s.connectedPeers }
  | .reservedPeers => { s with reservedPeers := f s.reservedPeers }
  | .rendezvousOptIn => { s with rendezvousOptIn := f s.rendezvousOptIn }

end StatusState

/-! ## Operations -/

/-- Something that the relay does at once: to a counter, or to a set under its lock. -/
inductive Op where
  /-- `fetch_add(1, ..)`, which wraps. -/
  | fetchAdd (c : Counter)
  /-- `atomic_saturating_sub`. -/
  | saturatingSub (c : Counter)
  | insert (set : PeerSet) (peer : String)
  | remove (set : PeerSet) (peer : String)
deriving DecidableEq

def Op.exec (s : StatusState) : Op → StatusState
  | .fetchAdd c => s.updateCounter (· + 1) c
  | .saturatingSub c => s.updateCounter (fun n => if n = 0 then 0 else n - 1) c
  | .insert set peer => s.updateSet (Insert.insert peer) set
  | .remove set peer => s.updateSet (·.erase peer) set

/-- The set an operation writes. -/
def Op.set? : Op → Option PeerSet
  | .insert set _ => some set
  | .remove set _ => some set
  | _ => none

/-! ## The loop -/

/-- The events of the swarm that the loop does something about. -/
inductive SwarmEvent where
  | connectionEstablished (peer : String)
  | connectionClosed (peer : String)
  | reservationReqAccepted (peer : String) (renewed : Bool)
  | reservationTimedOut (peer : String)
deriving DecidableEq

/-- The arms of the loop. -/
def SwarmEvent.ops : SwarmEvent → List Op
  | .connectionEstablished peer => [.fetchAdd .connections, .insert .connectedPeers peer]
  | .connectionClosed peer =>
    [.saturatingSub .connections, .remove .connectedPeers peer, .remove .reservedPeers peer,
      .remove .rendezvousOptIn peer]
  | .reservationReqAccepted peer renewed =>
    if renewed then [.insert .reservedPeers peer]
    else [.fetchAdd .reservations, .insert .reservedPeers peer]
  | .reservationTimedOut peer =>
    [.saturatingSub .reservations, .remove .reservedPeers peer, .remove .rendezvousOptIn peer]

/-- An arm as a whole. -/
def SwarmEvent.handle (e : SwarmEvent) (s : StatusState) : StatusState := e.ops.foldl Op.exec s

/-! ## Requests -/

inductive StatusCode where
  | noContent
  | badRequest
deriving DecidableEq

def rendezvousRegister (peer : String) (s : StatusState) : StatusCode × StatusState :=
  if peer = "" then (.badRequest, s)
  else (.noContent, (Op.insert .rendezvousOptIn peer).exec s)

def rendezvousUnregister (peer : String) (s : StatusState) : StatusCode × StatusState :=
  (.noContent, (Op.remove .rendezvousOptIn peer).exec s)

/-- `rendezvous`. Both locks are held for the reading; the order of the peers is that of the hash
set, so the answer is a set here. -/
def rendezvous (s : StatusState) : Finset String :=
  s.reservedPeers.filter (· ∈ s.rendezvousOptIn)

/-- What `status` reports of the peers. -/
structure StatusReport where
  connections : UInt64
  uniquePeers : Nat
  reachablePeers : Nat
  reservations : UInt64
deriving DecidableEq

def status (s : StatusState) : StatusReport where
  connections := s.connections
  uniquePeers := s.connectedPeers.card
  reachablePeers := (rendezvous s).card
  reservations := s.reservations

end Mycelium.Relay
