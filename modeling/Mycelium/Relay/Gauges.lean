import Mycelium.Lib.Owners
import Mycelium.Lib.Trail
import Mycelium.Relay.Status

/-!
# Mycelium relay — what the gauges measure

The status page reports how many connections are open, how many peers have one, and how many hold
a reservation. libp2p reports connections and reservations one by one, and a reservation belongs to
a connection; the relay counts peers. `Truth` is what there is, and `Happening` what libp2p reports
of it: every opening and closing once, and a reservation ends by its time-out or with its
connection, which is then all that is reported.

* `connections_exact` — the connections are counted right in every run;
* `LastClose` / `OneReservation` — what the other two gauges need of an event;
* `gauges_exact_iff` — the page is right all along exactly if every event meets both.
-/

namespace Mycelium.Relay

open Owners Trail

/-! ## What there is -/

/-- The open connections, with the peer at the other end, and those that carry a reservation. -/
structure Truth where
  conns : Finset (Nat × String) := ∅
  held : Finset (Nat × String) := ∅
deriving DecidableEq

inductive Happening where
  | opened (conn : Nat) (peer : String)
  | closed (conn : Nat) (peer : String)
  /-- A reservation request on the connection is accepted. -/
  | reserved (conn : Nat) (peer : String)
  | timedOut (conn : Nat) (peer : String)
deriving DecidableEq

namespace Happening

/-- libp2p may report this. -/
def Possible (t : Truth) : Happening → Prop
  | opened conn _ => ∀ peer, (conn, peer) ∉ t.conns
  | closed conn peer => (conn, peer) ∈ t.conns
  | reserved conn peer => (conn, peer) ∈ t.conns
  | timedOut conn peer => (conn, peer) ∈ t.held

def after (t : Truth) : Happening → Truth
  | opened conn peer => { t with conns := insert (conn, peer) t.conns }
  | closed conn peer => { conns := t.conns.erase (conn, peer), held := t.held.erase (conn, peer) }
  | reserved conn peer => { t with held := insert (conn, peer) t.held }
  | timedOut conn peer => { t with held := t.held.erase (conn, peer) }

/-- The report. A request is a renewal if it replaces the reservation of its connection. -/
def event (t : Truth) : Happening → SwarmEvent
  | opened _ peer => .connectionEstablished peer
  | closed _ peer => .connectionClosed peer
  | reserved conn peer => .reservationReqAccepted peer ((conn, peer) ∈ t.held)
  | timedOut _ peer => .reservationTimedOut peer

end Happening

/-- What there is, and what the relay makes of it. -/
structure Observed where
  truth : Truth := {}
  state : StatusState := {}

def Observed.step (o : Observed) (h : Happening) : Observed where
  truth := h.after o.truth
  state := (h.event o.truth).handle o.state

/-- The page is right. -/
structure GaugesExact (o : Observed) : Prop where
  connections : (status o.state).connections.toNat = o.truth.conns.card
  uniquePeers : (status o.state).uniquePeers = (owners o.truth.conns).card
  reservations : (status o.state).reservations.toNat = (owners o.truth.held).card

/-! ## What an event needs -/

/-- A connection that closes is the last one of its peer. -/
def LastClose (o : Observed) : Happening → Prop
  | .closed conn peer => ∀ conn', (conn', peer) ∈ o.truth.conns → conn' = conn
  | _ => True

/-- A connection that closes carries no reservation, and a peer gets a new one only if it has
none. -/
def OneReservation (o : Observed) : Happening → Prop
  | .closed conn peer => (conn, peer) ∉ o.truth.held
  | .reserved conn peer => ∀ conn', (conn', peer) ∈ o.truth.held → conn' = conn
  | _ => True

/-! ## Counters -/

theorem toNat_succ {n : UInt64} (h : n.toNat + 1 < 2 ^ 64) : (n + 1).toNat = n.toNat + 1 := by
  rw [UInt64.toNat_add]
  exact Nat.mod_eq_of_lt h

/-- `saturating_sub(1)`. -/
theorem toNat_saturatingSub (n : UInt64) : (if n = 0 then 0 else n - 1).toNat = n.toNat - 1 := by
  split
  · next h =>
    subst h
    rfl
  · next h =>
    have hpos : n.toNat ≠ 0 := fun h0 => h (UInt64.toNat_inj.mp h0)
    have hle : 1 ≤ n := UInt64.le_iff_toNat_le.mpr (by show 1 ≤ n.toNat; omega)
    rw [UInt64.toNat_sub_of_le _ _ hle]
    rfl

/-! ## The gauges -/

/-- There is room for one more in the counters. -/
def Room (o : Observed) : Prop := o.truth.conns.card + 1 < 2 ^ 64 ∧ o.truth.held.card + 1 < 2 ^ 64

/-- An event that may happen, with room in the counters. -/
def Happens (o : Observed) (h : Happening) : Prop := h.Possible o.truth ∧ Room o

/-- The connections are counted. -/
def ConnsCounted (o : Observed) : Prop := o.state.connections.toNat = o.truth.conns.card

theorem ConnsCounted.step {o : Observed} {h : Happening} (hc : ConnsCounted o) (hok : Happens o h) :
    ConnsCounted (o.step h) := by
  obtain ⟨hpossible, hroom, -⟩ := hok
  unfold ConnsCounted at hc
  cases h with
  | opened conn peer =>
    show (o.state.connections + 1).toNat = (insert (conn, peer) o.truth.conns).card
    rw [Finset.card_insert_of_notMem (hpossible peer), toNat_succ (by omega), hc]
  | closed conn peer =>
    show (if o.state.connections = 0 then 0 else o.state.connections - 1).toNat
      = (o.truth.conns.erase (conn, peer)).card
    rw [Finset.card_erase_of_mem hpossible, toNat_saturatingSub, hc]
  | reserved conn peer =>
    have hsame : (o.step (.reserved conn peer)).state.connections = o.state.connections := by
      show (SwarmEvent.handle (.reservationReqAccepted peer _) o.state).connections = _
      cases decide ((conn, peer) ∈ o.truth.held) <;> rfl
    unfold ConnsCounted
    rw [hsame]
    exact hc
  | timedOut conn peer => exact hc

/-- The connected peers are the peers of the open connections. -/
def PeersTracked (o : Observed) : Prop := o.state.connectedPeers = owners o.truth.conns

theorem PeersTracked.step {o : Observed} {h : Happening} (hp : PeersTracked o)
    (hlast : LastClose o h) : PeersTracked (o.step h) := by
  unfold PeersTracked at hp
  cases h with
  | opened conn peer =>
    show insert peer o.state.connectedPeers = owners (insert (conn, peer) o.truth.conns)
    rw [owners_insert, hp]
  | closed conn peer =>
    show o.state.connectedPeers.erase peer = owners (o.truth.conns.erase (conn, peer))
    rw [owners_erase_last hlast, hp]
  | reserved conn peer =>
    have hsame : (o.step (.reserved conn peer)).state.connectedPeers = o.state.connectedPeers := by
      show (SwarmEvent.handle (.reservationReqAccepted peer _) o.state).connectedPeers = _
      cases decide ((conn, peer) ∈ o.truth.held) <;> rfl
    unfold PeersTracked
    rw [hsame]
    exact hp
  | timedOut conn peer => exact hp

/-- A connection that is not the last one takes its peer out of the count all the same. -/
theorem PeersTracked.lastClose {o : Observed} {h : Happening} (hp : PeersTracked o)
    (hpossible : h.Possible o.truth)
    (hexact : (status (o.step h).state).uniquePeers = (owners (o.step h).truth.conns).card) :
    LastClose o h := by
  cases h with
  | closed conn peer =>
    intro conn' hmem
    by_contra hne
    have hexact' : (o.state.connectedPeers.erase peer).card
        = (owners (o.truth.conns.erase (conn, peer))).card := hexact
    have hpeer : peer ∈ owners o.truth.conns := mem_owners.mpr ⟨conn, hpossible⟩
    rw [hp, owners_erase_other hmem hne, Finset.card_erase_of_mem hpeer] at hexact'
    have hpos : 0 < (owners o.truth.conns).card := Finset.card_pos.mpr ⟨peer, hpeer⟩
    omega
  | _ => trivial

/-- The reservations are counted, and no peer has two. -/
structure HeldCounted (o : Observed) : Prop where
  count : o.state.reservations.toNat = (owners o.truth.held).card
  single : ∀ {conn conn' peer}, (conn, peer) ∈ o.truth.held → (conn', peer) ∈ o.truth.held →
    conn' = conn

theorem HeldCounted.step {o : Observed} {h : Happening} (hh : HeldCounted o) (hok : Happens o h)
    (hone : OneReservation o h) : HeldCounted (o.step h) := by
  obtain ⟨hcount, hsingle⟩ := hh
  obtain ⟨hpossible, -, hroom⟩ := hok
  have hle : (owners o.truth.held).card ≤ o.truth.held.card := Finset.card_image_le
  cases h with
  | opened conn peer => exact ⟨hcount, hsingle⟩
  | closed conn peer =>
    -- the connection had no reservation
    have hheld : (o.step (.closed conn peer)).truth.held = o.truth.held :=
      Finset.erase_eq_of_notMem hone
    refine ⟨?_, ?_⟩
    · rw [hheld]
      exact hcount
    · rw [hheld]
      exact hsingle
  | reserved conn peer =>
    have hheld : (o.step (.reserved conn peer)).truth.held = insert (conn, peer) o.truth.held := rfl
    refine ⟨?_, ?_⟩
    · rw [hheld, owners_insert]
      by_cases hmem : (conn, peer) ∈ o.truth.held
      · -- renewed: neither the owners nor the gauge change
        have hstate : (o.step (.reserved conn peer)).state.reservations = o.state.reservations := by
          show (SwarmEvent.handle (.reservationReqAccepted peer _) o.state).reservations = _
          rw [decide_eq_true hmem]
          rfl
        rw [hstate, Finset.insert_eq_of_mem (mem_owners.mpr ⟨conn, hmem⟩)]
        exact hcount
      · -- new: of a peer that had none
        have hstate : (o.step (.reserved conn peer)).state.reservations
            = o.state.reservations + 1 := by
          show (SwarmEvent.handle (.reservationReqAccepted peer _) o.state).reservations = _
          rw [decide_eq_false hmem]
          rfl
        have hnew : peer ∉ owners o.truth.held := by
          intro hpeer
          obtain ⟨conn', hmem'⟩ := mem_owners.mp hpeer
          exact hmem (hone conn' hmem' ▸ hmem')
        rw [hstate, Finset.card_insert_of_notMem hnew, toNat_succ (by omega), hcount]
    · -- and it is the only one of the peer
      intro c c' p hc hc'
      rw [hheld, Finset.mem_insert] at hc hc'
      rcases hc with hc | hc
      · obtain ⟨rfl, rfl⟩ := Prod.mk.inj hc
        rcases hc' with hc' | hc'
        · exact (Prod.mk.inj hc').1
        · exact hone c' hc'
      · rcases hc' with hc' | hc'
        · obtain ⟨rfl, rfl⟩ := Prod.mk.inj hc'
          exact (hone c hc).symm
        · exact hsingle hc hc'
  | timedOut conn peer =>
    refine ⟨?_, ?_⟩
    · -- the last reservation of the peer
      show (if o.state.reservations = 0 then 0 else o.state.reservations - 1).toNat
        = (owners (o.truth.held.erase (conn, peer))).card
      rw [owners_erase_last fun conn' hmem => hsingle hpossible hmem,
        Finset.card_erase_of_mem (mem_owners.mpr ⟨conn, hpossible⟩), toNat_saturatingSub, hcount]
    · intro c c' p hc hc'
      exact hsingle (Finset.mem_of_mem_erase hc) (Finset.mem_of_mem_erase hc')

/-- A reservation that goes with its connection stays in the count, and a second one of a peer
enters it. -/
theorem HeldCounted.oneReservation {o : Observed} {h : Happening} (hh : HeldCounted o)
    (hok : Happens o h)
    (hexact : (status (o.step h).state).reservations.toNat = (owners (o.step h).truth.held).card) :
    OneReservation o h := by
  obtain ⟨hcount, hsingle⟩ := hh
  have hroom := hok.2.2
  have hle : (owners o.truth.held).card ≤ o.truth.held.card := Finset.card_image_le
  -- a peer with a second reservation would be counted once and subtracted, or added, as if alone
  cases h with
  | closed conn peer =>
    intro hmem
    have hpeer : peer ∈ owners o.truth.held := mem_owners.mpr ⟨conn, hmem⟩
    have hexact' : o.state.reservations.toNat
        = (owners (o.truth.held.erase (conn, peer))).card := hexact
    rw [owners_erase_last fun conn' hmem' => hsingle hmem hmem', Finset.card_erase_of_mem hpeer,
      hcount] at hexact'
    have hpos : 0 < (owners o.truth.held).card := Finset.card_pos.mpr ⟨peer, hpeer⟩
    omega
  | reserved conn peer =>
    intro conn' hmem'
    by_cases hmem : (conn, peer) ∈ o.truth.held
    · exact hsingle hmem hmem'
    · have hpeer : peer ∈ owners o.truth.held := mem_owners.mpr ⟨conn', hmem'⟩
      have hstate : (o.step (.reserved conn peer)).state.reservations
          = o.state.reservations + 1 := by
        show (SwarmEvent.handle (.reservationReqAccepted peer _) o.state).reservations = _
        rw [decide_eq_false hmem]
        rfl
      have hexact' : (o.state.reservations + 1).toNat
          = (owners (insert (conn, peer) o.truth.held)).card := hstate ▸ hexact
      rw [owners_insert, Finset.insert_eq_of_mem hpeer, toNat_succ (by omega), hcount] at hexact'
      omega
  | _ => trivial

/-! ## Runs -/

/-- A run of fewer than `2 ^ 64` events leaves room in the counters. -/
theorem each_happens {hs : List Happening} : ∀ {o : Observed},
    o.truth.conns.card + hs.length < 2 ^ 64 → o.truth.held.card + hs.length < 2 ^ 64 →
    Each Observed.step (fun o h => h.Possible o.truth) o hs → Each Observed.step Happens o hs := by
  induction hs with
  | nil => exact fun _ _ _ => trivial
  | cons h hs ih =>
    intro o hconns hheld hpossible
    rw [List.length_cons] at hconns hheld
    refine ⟨⟨hpossible.1, by omega, by omega⟩, ih ?_ ?_ hpossible.2⟩
    · have hcard : (h.after o.truth).conns.card ≤ o.truth.conns.card + 1 := by
        cases h with
        | opened conn peer => exact Finset.card_insert_le _ _
        | closed conn peer => exact (Finset.card_erase_le).trans (Nat.le_succ _)
        | reserved conn peer => exact Nat.le_succ _
        | timedOut conn peer => exact Nat.le_succ _
      show (h.after o.truth).conns.card + hs.length < 2 ^ 64
      omega
    · have hcard : (h.after o.truth).held.card ≤ o.truth.held.card + 1 := by
        cases h with
        | opened conn peer => exact Nat.le_succ _
        | closed conn peer => exact (Finset.card_erase_le).trans (Nat.le_succ _)
        | reserved conn peer => exact Finset.card_insert_le _ _
        | timedOut conn peer => exact (Finset.card_erase_le).trans (Nat.le_succ _)
      show (h.after o.truth).held.card + hs.length < 2 ^ 64
      omega

/-- The connections are counted right in every run. -/
theorem connections_exact {hs : List Happening} (hlen : hs.length < 2 ^ 64)
    (hpossible : Each Observed.step (fun o h => h.Possible o.truth) {} hs) :
    Always Observed.step ConnsCounted {} hs := by
  have hok : Each Observed.step Happens {} hs :=
    each_happens (by simpa using hlen) (by simpa using hlen) hpossible
  exact always_of_each ConnsCounted id (fun hc hok _ => ConnsCounted.step hc hok) rfl hok hok

/-- **When the status page is right.** In every run of events that libp2p may report, fewer than
`2 ^ 64` of them, the three gauges are exact at the start and after every event if and only if every
connection that closes is the last one of its peer and carries no reservation, and every new
reservation is of a peer without one. -/
theorem gauges_exact_iff {hs : List Happening} (hlen : hs.length < 2 ^ 64)
    (hpossible : Each Observed.step (fun o h => h.Possible o.truth) {} hs) :
    Always Observed.step GaugesExact {} hs
      ↔ Each Observed.step (fun o h => LastClose o h ∧ OneReservation o h) {} hs := by
  have hok : Each Observed.step Happens {} hs :=
    each_happens (by simpa using hlen) (by simpa using hlen) hpossible
  refine always_iff_each (fun o => ConnsCounted o ∧ PeersTracked o ∧ HeldCounted o)
    ?_ ?_ ?_ ⟨rfl, rfl, rfl, by simp⟩ hok
  · rintro o ⟨hconns, hpeers, hheld⟩
    exact ⟨hconns, congrArg Finset.card hpeers, hheld.count⟩
  · rintro o h ⟨hconns, hpeers, hheld⟩ hok ⟨hlast, hone⟩
    exact ⟨hconns.step hok, hpeers.step hlast, hheld.step hok hone⟩
  · rintro o h ⟨hconns, hpeers, hheld⟩ hok hexact
    exact ⟨hpeers.lastClose hok.1 hexact.uniquePeers, hheld.oneReservation hok hexact.reservations⟩

/-- A peer connects, reserves, lets the reservation run out and leaves. -/
theorem gauges_exact_one_peer :
    Always Observed.step GaugesExact {}
      [.opened 0 "a", .reserved 0 "a", .timedOut 0 "a", .closed 0 "a"] := by
  refine (gauges_exact_iff (by decide) ?_).mpr ?_
  · simp [Each, Happening.Possible, Observed.step, Happening.after]
  · simp [Each, LastClose, OneReservation, Observed.step, Happening.after]

/-- A peer with two connections closes one of them and is not counted any more; a peer that leaves
with its reservation is counted for ever. -/
theorem gauges_drift :
    (Each Observed.step (fun o h => h.Possible o.truth) {}
        [.opened 0 "a", .opened 1 "a", .closed 0 "a"]
      ∧ ¬ Always Observed.step GaugesExact {} [.opened 0 "a", .opened 1 "a", .closed 0 "a"])
    ∧ Each Observed.step (fun o h => h.Possible o.truth) {}
        [.opened 0 "a", .reserved 0 "a", .closed 0 "a"]
      ∧ ¬ Always Observed.step GaugesExact {} [.opened 0 "a", .reserved 0 "a", .closed 0 "a"] := by
  refine ⟨⟨?_, ?_⟩, ?_, ?_⟩
  · simp [Each, Happening.Possible, Observed.step, Happening.after]
  · intro h
    exact absurd h.2.2.2.uniquePeers (by decide +kernel)
  · simp [Each, Happening.Possible, Observed.step, Happening.after]
  · intro h
    exact absurd h.2.2.2.reservations (by decide +kernel)

end Mycelium.Relay
