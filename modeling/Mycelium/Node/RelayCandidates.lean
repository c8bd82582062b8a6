import Mycelium.Lib.Ranking
import Mycelium.Node.Security

/-!
# Mycelium node — the choice of relays

A message for a peer that is not connected goes to a few of those that are: the ones with the
fewest strikes, and among equals the ones that come first in the list of known peers.

* `selectRelayCandidates_eq` — the choice as the first of a ranking by strikes;
* `relay_candidates_best` — what the choice guarantees.
-/

namespace Mycelium.Node

open Ranking

/-- The number of strikes of a peer; none if it is not in the table. -/
def strikeCount (peerStrikes : KvTree.Of String UInt8) (peer : String) : Nat :=
  ((peerStrikes.lookup peer).getD 0).toNat

variable (peers : List String) (toPeer : String) (peerStrikes : KvTree.Of String UInt8)
  (maxFanout : Nat)

/-- Sorting the peers beside their strikes is sorting the peers by their strikes. -/
theorem selectRelayCandidates_eq :
    selectRelayCandidates peers toPeer peerStrikes maxFanout
      = (((peers.filter (· != toPeer)).insertionSort fun p q =>
          strikeCount peerStrikes p ≤ strikeCount peerStrikes q).take maxFanout) := by
  have hsort := List.map_insertionSort (fun p q => strikeCount peerStrikes p ≤ strikeCount peerStrikes q)
    (fun a b : String × UInt8 => a.2 ≤ b.2) (fun p => (p, (peerStrikes.lookup p).getD 0))
    (peers.filter (· != toPeer)) fun _ _ _ _ => UInt8.le_iff_toNat_le.symm
  unfold selectRelayCandidates
  simp only
  rw [← hsort, ← List.map_take, List.map_map]
  exact List.map_id _

variable {peers}

/-- **The choice of relays.** From a list without duplicates, as many peers other than the
destination are chosen as there are, up to the bound; all of them are in the list, none twice; they
are in the order of their strikes and, where these are equal, in that of the list; and a peer that
is passed over comes after each of them in this order, so it has no fewer strikes. -/
theorem relay_candidates_best (hnodup : peers.Nodup) :
    (selectRelayCandidates peers toPeer peerStrikes maxFanout).length
        = min maxFanout (peers.filter (· != toPeer)).length
      ∧ (selectRelayCandidates peers toPeer peerStrikes maxFanout).Nodup
      ∧ (∀ p ∈ selectRelayCandidates peers toPeer peerStrikes maxFanout, p ∈ peers ∧ p ≠ toPeer)
      ∧ (selectRelayCandidates peers toPeer peerStrikes maxFanout).Pairwise
          (Precedes (strikeCount peerStrikes) peers)
      ∧ ∀ p ∈ selectRelayCandidates peers toPeer peerStrikes maxFanout, ∀ q ∈ peers, q ≠ toPeer →
          q ∉ selectRelayCandidates peers toPeer peerStrikes maxFanout →
          Precedes (strikeCount peerStrikes) peers p q
            ∧ strikeCount peerStrikes p ≤ strikeCount peerStrikes q := by
  have hothers : (peers.filter (· != toPeer)).Nodup := hnodup.filter _
  have hsub : ∀ {p q}, Precedes (strikeCount peerStrikes) (peers.filter (· != toPeer)) p q →
      Precedes (strikeCount peerStrikes) peers p q :=
    fun h => h.imp_right fun ⟨heq, hpair⟩ => ⟨heq, hpair.trans List.filter_sublist⟩
  -- sorting permutes the peers other than the target, and the fan-out takes its first
  have hperm := List.perm_insertionSort
    (fun p q => strikeCount peerStrikes p ≤ strikeCount peerStrikes q) (peers.filter (· != toPeer))
  rw [selectRelayCandidates_eq]
  refine ⟨?_, ?_, ?_, ?_, ?_⟩
  · rw [List.length_take, hperm.length_eq]
  · exact (hperm.nodup_iff.mpr hothers).sublist (List.take_sublist _ _)
  · intro p hp
    have hmem := List.mem_filter.mp (hperm.mem_iff.mp (List.mem_of_mem_take hp))
    exact ⟨hmem.1, bne_iff_ne.mp hmem.2⟩
  · exact ((pairwise_precedes_insertionSort _ hothers).imp hsub).sublist (List.take_sublist _ _)
  · intro p hp q hq hne hout
    have hprecedes := precedes_of_not_mem_take (strikeCount peerStrikes) hothers hp
      (List.mem_filter.mpr ⟨hq, bne_iff_ne.mpr hne⟩) hout
    exact ⟨hsub hprecedes, hprecedes.elim le_of_lt fun h => le_of_eq h.1⟩

/-- Of four peers, the two without strikes are chosen, in the order of the list. -/
theorem relay_candidates_best_of_four :
    ["peer_a", "peer_b", "peer_c", "peer_d"].Nodup
    ∧ (selectRelayCandidates ["peer_a", "peer_b", "peer_c", "peer_d"] "missing"
        ((AList.insert "peer_a" 5 ∅ : KvTree.Of String UInt8).insert "peer_c" 1) 2).length = 2 := by
  have hnodup : ["peer_a", "peer_b", "peer_c", "peer_d"].Nodup := by decide
  exact ⟨hnodup, (relay_candidates_best "missing" _ 2 hnodup).1⟩

end Mycelium.Node
