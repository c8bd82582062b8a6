import Mycelium.Node.DirectPeers

/-!
# Mycelium node — the cap on direct peers

`DirectPeerCap` keeps a set of peers and, in a second container, when each was last seen. A new
connection to a full set evicts a peer that was seen least recently. Which one, if several were
seen at the same instant, depends on the order in which the hash map is iterated, so that order is
a parameter here.

* `leastRecent_spec` — the search finds an entry of least instant, in whatever order;
* `Capped` — the two containers agree, within the cap, on peers that are remote;
* `peer_cap_runs` — both, over every run of connects, removals and touches.
-/

namespace Mycelium.Node

open Trail
open DirectPeerCap (leastRecentlyUsed)

/-! ## The search -/

/-- In a list that is not empty the search finds an entry, and no other was seen before it.
Induction on the list. -/
theorem leastRecent_spec (entries : List (Sigma fun _ : String => Nat)) :
    match DirectPeerCap.leastRecent entries with
    | none => entries = []
    | some found => ⟨found.1, found.2⟩ ∈ entries ∧ ∀ e ∈ entries, found.2 ≤ e.2 := by
  induction entries with
  | nil => rfl
  | cons e rest ih =>
    rw [DirectPeerCap.leastRecent]
    cases hrest : DirectPeerCap.leastRecent rest with
    | none =>
      rw [hrest] at ih
      subst ih
      exact ⟨List.mem_singleton.mpr rfl, fun e' he' => by rw [List.mem_singleton.mp he']⟩
    | some found =>
      rw [hrest] at ih
      obtain ⟨hmem, hleast⟩ := ih
      -- the first of equally old entries is kept, as in the scan
      by_cases hle : e.2 ≤ found.2
      · simp only [if_pos hle]
        refine ⟨List.mem_cons_self, ?_⟩
        intro e' he'
        rcases List.mem_cons.mp he' with rfl | he'
        · exact Nat.le_refl _
        · exact hle.trans (hleast e' he')
      · simp only [if_neg hle]
        refine ⟨List.mem_cons_of_mem _ hmem, ?_⟩
        intro e' he'
        rcases List.mem_cons.mp he' with rfl | he'
        · omega
        · exact hleast e' he'

/-! ## The invariant -/

/-- The containers agree, within the cap, and have remote peers only. -/
structure Capped (t : Libp2pTransport) : Prop where
  keys : ∀ p, p ∈ t.peerCap.peers ↔ p ∈ t.peerCap.peerLastSeen
  card : t.peerCap.peers.card ≤ t.peerCap.maxPeers
  remote : ∀ p ∈ t.peerCap.peers, t.Remote p
  positive : 1 ≤ t.peerCap.maxPeers

/-- What a connection to a new remote peer does: it is entered, and if the set is full one peer
goes that was seen least recently. -/
structure Entered (t : Libp2pTransport) (peer : String) (t' : Libp2pTransport) : Prop where
  free : t.peerCap.peers.card < t.peerCap.maxPeers →
    t'.peerCap.peers = insert peer t.peerCap.peers ∧ t'.calls = t.calls
  full : t.peerCap.maxPeers ≤ t.peerCap.peers.card →
    ∃ oldest ∈ t.peerCap.peers, (∃ seen, t.peerCap.peerLastSeen.lookup oldest = some seen
        ∧ ∀ p seen', t.peerCap.peerLastSeen.lookup p = some seen' → seen ≤ seen')
      ∧ t'.peerCap.peers = insert peer (t.peerCap.peers.erase oldest)
      ∧ t'.calls = t.calls ++ [.disconnectPeerId oldest]

variable {t : Libp2pTransport} {order : List (Sigma fun _ : String => Nat)} {now : Nat} {peer : String}

/-- In a full set that agrees with the table the search finds a tracked peer. -/
theorem Capped.oldest (h : Capped t) (horder : order.Perm t.peerCap.peerLastSeen.entries)
    (hfull : t.peerCap.maxPeers ≤ t.peerCap.peers.card) :
    ∃ oldest seen, leastRecentlyUsed order = some oldest
      ∧ t.peerCap.peerLastSeen.lookup oldest = some seen
      ∧ ∀ p seen', t.peerCap.peerLastSeen.lookup p = some seen' → seen ≤ seen' := by
  have hspec := leastRecent_spec order
  unfold leastRecentlyUsed
  cases hfound : DirectPeerCap.leastRecent order with
  | none =>
    rw [hfound] at hspec
    -- the set has a peer, so the table has an entry
    obtain ⟨p, hp⟩ := Finset.card_pos.mp (h.positive.trans hfull)
    have hentry := (h.keys p).mp hp
    rw [← AList.lookup_isSome, Option.isSome_iff_exists] at hentry
    obtain ⟨seen, hseen⟩ := hentry
    have hmem := horder.mem_iff.mpr (AList.mem_lookup_iff.mp hseen)
    rw [hspec] at hmem
    cases hmem
  | some found =>
    rw [hfound] at hspec
    obtain ⟨hmem, hleast⟩ := hspec
    refine ⟨found.1, found.2, rfl, AList.mem_lookup_iff.mpr (horder.mem_iff.mp hmem), ?_⟩
    intro p seen' hseen'
    exact hleast ⟨p, seen'⟩ (horder.mem_iff.mpr (AList.mem_lookup_iff.mp hseen'))

theorem Capped.touch (h : Capped t) (now : Nat) (peer : String) :
    Capped { t with peerCap := t.peerCap.touch now peer } := by
  unfold DirectPeerCap.touch
  split
  · next hmem =>
    refine ⟨?_, h.card, h.remote, h.positive⟩
    intro p
    rw [AList.mem_insert, ← h.keys]
    refine ⟨.inr, ?_⟩
    rintro (rfl | hp)
    · exact hmem
    · exact hp
  · exact h

theorem Capped.remove (h : Capped t) (peer : String) :
    Capped { t with peerCap := t.peerCap.remove peer } where
  keys p := by
    show p ∈ t.peerCap.peers.erase peer ↔ p ∈ t.peerCap.peerLastSeen.erase peer
    rw [Finset.mem_erase, AList.mem_erase, h.keys]
  card := (Finset.card_le_card (Finset.erase_subset _ _)).trans h.card
  remote p hp := h.remote p (Finset.mem_of_mem_erase hp)
  positive := h.positive

/-- A remote peer is entered where there is a free slot. -/
theorem Capped.insert (h : Capped t) (hremote : t.Remote peer)
    (hroom : (Insert.insert peer t.peerCap.peers).card ≤ t.peerCap.maxPeers) (now : Nat) :
    Capped { t with peerCap := t.peerCap.insert now peer } where
  keys p := by
    show p ∈ Insert.insert peer t.peerCap.peers ↔ p ∈ t.peerCap.peerLastSeen.insert peer now
    rw [Finset.mem_insert, AList.mem_insert, h.keys]
  card := hroom
  remote p hp := by
    rcases Finset.mem_insert.mp hp with rfl | hp
    · exact hremote
    · exact h.remote p hp
  positive := h.positive

/-- **A connection to a peer that is new** enters it, and evicts one peer if the set is full. -/
theorem Capped.established_new (h : Capped t) (horder : order.Perm t.peerCap.peerLastSeen.entries)
    (hremote : t.Remote peer) (hnew : peer ∉ t.peerCap.peers) (now : Nat) :
    (t.establishedBy (leastRecentlyUsed order) now peer).1 = true
      ∧ Entered t peer (t.establishedBy (leastRecentlyUsed order) now peer).2
      ∧ Capped (t.establishedBy (leastRecentlyUsed order) now peer).2 := by
  unfold Libp2pTransport.establishedBy DirectPeerCap.admitPeer
  rw [if_neg (Libp2pTransport.remote_iff.mp hremote), if_neg hnew, if_neg hnew]
  by_cases hfull : t.peerCap.maxPeers ≤ t.peerCap.peers.card
  · obtain ⟨oldest, seen, hfound, hseen, hleast⟩ := h.oldest horder hfull
    have holdest : oldest ∈ t.peerCap.peers :=
      (h.keys oldest).mpr (AList.lookup_isSome.mp (by rw [hseen]; rfl))
    rw [if_pos hfull, hfound]
    refine ⟨rfl, ⟨fun hfree => absurd hfull (by omega), fun _ => ?_⟩, ?_⟩
    · exact ⟨oldest, holdest, ⟨seen, hseen, hleast⟩, rfl, rfl⟩
    · -- one peer less, then one peer more
      have hcard : (Insert.insert peer (t.peerCap.peers.erase oldest)).card ≤ t.peerCap.maxPeers := by
        refine (Finset.card_insert_le _ _).trans ?_
        rw [Finset.card_erase_of_mem holdest]
        have hle := h.card
        have hpos := h.positive
        omega
      have hinserted := (h.remove oldest).insert hremote hcard now
      exact ⟨hinserted.keys, hinserted.card, hinserted.remote, hinserted.positive⟩
  · rw [if_neg hfull]
    refine ⟨rfl, ⟨fun _ => ⟨rfl, rfl⟩, fun h' => absurd h' hfull⟩, ?_⟩
    refine h.insert hremote ?_ now
    rw [Finset.card_insert_of_notMem hnew]
    omega

/-- A connection to a peer that is not remote, or tracked already, leaves the set alone. -/
theorem established_old (h : ¬ (t.Remote peer ∧ peer ∉ t.peerCap.peers)) (oldest : Option String)
    (now : Nat) :
    (t.establishedBy oldest now peer).1 = false
      ∧ ((t.establishedBy oldest now peer).2 = t
        ∨ (t.establishedBy oldest now peer).2 = { t with peerCap := t.peerCap.touch now peer }) := by
  unfold Libp2pTransport.establishedBy
  by_cases hlocal : peer = t.localPeerId ∨ isRelayPeer peer = true
  · rw [if_pos hlocal]
    exact ⟨rfl, .inl rfl⟩
  · have hmem : peer ∈ t.peerCap.peers := by
      by_contra hmem
      exact h ⟨Libp2pTransport.remote_iff.mpr hlocal, hmem⟩
    rw [if_neg hlocal, if_pos hmem]
    exact ⟨rfl, .inr rfl⟩

/-! ## Runs -/

/-- A call: a connection, with the order in which the table is iterated, a removal, or a use. -/
inductive CapEvent where
  | established (order : List (Sigma fun _ : String => Nat)) (now : Nat) (peer : String)
  | remove (peer : String)
  | touch (now : Nat) (peer : String)

def CapEvent.step (t : Libp2pTransport) : CapEvent → Libp2pTransport
  | .established order now peer => (t.establishedBy (leastRecentlyUsed order) now peer).2
  | .remove peer => { t with peerCap := t.peerCap.remove peer }
  | .touch now peer => { t with peerCap := t.peerCap.touch now peer }

/-- The entries are iterated in some order. -/
def CapEvent.Ordered (t : Libp2pTransport) : CapEvent → Prop
  | .established order _ _ => order.Perm t.peerCap.peerLastSeen.entries
  | _ => True

/-- A connection to a new remote peer admits it, any other leaves the set alone. -/
def CapEvent.Admitting (t : Libp2pTransport) : CapEvent → Prop
  | .established order now peer =>
    if t.Remote peer ∧ peer ∉ t.peerCap.peers then
      (t.establishedBy (leastRecentlyUsed order) now peer).1 = true
        ∧ Entered t peer (t.establishedBy (leastRecentlyUsed order) now peer).2
    else (t.establishedBy (leastRecentlyUsed order) now peer).2.peerCap.peers = t.peerCap.peers
  | _ => True

theorem Capped.step (h : Capped t) {e : CapEvent} (horder : e.Ordered t) :
    Capped (e.step t) := by
  cases e with
  | established order now peer =>
    by_cases hnew : t.Remote peer ∧ peer ∉ t.peerCap.peers
    · exact (h.established_new horder hnew.1 hnew.2 now).2.2
    · show Capped (t.establishedBy (leastRecentlyUsed order) now peer).2
      rcases (established_old hnew (leastRecentlyUsed order) now).2 with heq | heq
      · rw [heq]
        exact h
      · rw [heq]
        exact h.touch now peer
  | remove peer => exact h.remove peer
  | touch now peer => exact h.touch now peer

theorem Capped.admitting (h : Capped t) {e : CapEvent} (horder : e.Ordered t) :
    e.Admitting t := by
  cases e with
  | established order now peer =>
    by_cases hnew : t.Remote peer ∧ peer ∉ t.peerCap.peers
    · obtain ⟨hup, hadmits, -⟩ := h.established_new horder hnew.1 hnew.2 now
      exact (if_pos hnew).mpr ⟨hup, hadmits⟩
    · refine (if_neg hnew).mpr ?_
      rcases (established_old hnew (leastRecentlyUsed order) now).2 with heq | heq
      · rw [heq]
      · rw [heq]
        exact DirectPeerCap.touch_peers _ _ _
  | remove peer => trivial
  | touch now peer => trivial

/-- **The cap.** In every run of connections, removals and uses of a transport that starts with no
peers, at whatever instants and with whatever order of the table: the two containers agree, within
the cap, and have remote peers only; and every connection to a new remote peer is admitted, at the
cost of one peer that was seen least recently if the set is full. -/
theorem peer_cap_runs (localPeerId : String) {maxPeers : Nat} (hmax : 1 ≤ maxPeers)
    {es : List CapEvent}
    (horders : Each CapEvent.step CapEvent.Ordered { localPeerId, peerCap := { maxPeers } } es) :
    Always CapEvent.step Capped { localPeerId, peerCap := { maxPeers } } es
      ∧ Each CapEvent.step CapEvent.Admitting { localPeerId, peerCap := { maxPeers } } es := by
  have hstart : Capped { localPeerId, peerCap := { maxPeers } } :=
    ⟨fun p => iff_of_false (Finset.notMem_empty p) (AList.notMem_empty p), Nat.zero_le _,
      fun p hp => absurd hp (Finset.notMem_empty p), hmax⟩
  refine ⟨?_, ?_⟩
  · exact always_of_each Capped (fun h => h) (fun h horder _ => h.step horder) hstart horders
      (each_true _ es)
  · exact each_of_invariant Capped (fun h horder => h.admitting horder)
      (fun h horder => h.step horder) hstart horders

/-- A set of two is full, and the peer that was used last stays. -/
theorem peer_cap_runs_two :
    Always CapEvent.step Capped { localPeerId := "me", peerCap := { maxPeers := 2 } }
        [.established [] 0 "a", .established [⟨"a", 0⟩] 1 "b", .touch 2 "a",
          .established [⟨"b", 1⟩, ⟨"a", 2⟩] 3 "c"]
    ∧ Each CapEvent.step CapEvent.Admitting { localPeerId := "me", peerCap := { maxPeers := 2 } }
        [.established [] 0 "a", .established [⟨"a", 0⟩] 1 "b", .touch 2 "a",
          .established [⟨"b", 1⟩, ⟨"a", 2⟩] 3 "c"] := by
  refine peer_cap_runs "me" (by decide) ⟨?_, ?_, trivial, ?_, trivial⟩
  · exact List.Perm.refl _
  · unfold CapEvent.Ordered
    decide +kernel
  · unfold CapEvent.Ordered
    decide +kernel

end Mycelium.Node
