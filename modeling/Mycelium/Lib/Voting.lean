import Mathlib.Data.Fintype.Card

/-!
# Lib — voting

Voters vote for ballots, and some ballots are rivals. Nobody counts the votes in one place: a ballot
is carried by whoever sees enough votes for it.

* `Single` — no voter votes for two rivals;
* `Single.disjoint` — hence the quorums of two rivals have no voter in common;
* `Single.eq_of_card_lt` — and an electorate too small for two quorums carries one of them at most.
-/

namespace Voting

variable {V B : Type} [DecidableEq V] {votes : V → B → Prop} {rivals : B → B → Prop}

/-- No voter votes for two rivals. -/
def Single (votes : V → B → Prop) (rivals : B → B → Prop) : Prop :=
  ∀ v b b', votes v b → votes v b' → rivals b b' → b = b'

variable {b b' : B} {q q' electorate : Finset V}

omit [DecidableEq V] in
/-- Two rivals are carried by different voters. -/
theorem Single.disjoint (h : Single votes rivals) (hq : ∀ v ∈ q, votes v b)
    (hq' : ∀ v ∈ q', votes v b') (hrivals : rivals b b') (hne : b ≠ b') : Disjoint q q' := by
  rw [Finset.disjoint_left]
  intro v hv hv'
  exact hne (h v b b' (hq v hv) (hq' v hv') hrivals)

/-- Too few voters for both quorums. -/
theorem Single.eq_of_card_lt (h : Single votes rivals) (hq : ∀ v ∈ q, votes v b)
    (hq' : ∀ v ∈ q', votes v b') (hrivals : rivals b b') (hsub : q ⊆ electorate)
    (hsub' : q' ⊆ electorate) (hfew : electorate.card < q.card + q'.card) : b = b' := by
  by_contra hne
  have hunion := Finset.card_union_of_disjoint (h.disjoint hq hq' hrivals hne)
  have hle := Finset.card_le_card (Finset.union_subset hsub hsub')
  omega

end Voting
