import Mathlib.Data.List.Sort

/-!
# Lib — the best of a list, by a key

Sorting by a key with an insertion sort keeps the order of elements with equal keys. So the sorted
list is ordered by the key and then by the place in the original list, and what is left out of its
first elements comes after each of them in this order.

* `Precedes` — that order;
* `pairwise_precedes_insertionSort` — the sorted list is ordered by it;
* `precedes_of_not_mem_take` — an element that is left out comes after each that is not.
-/

namespace Ranking

variable {α κ : Type} [LinearOrder κ] (key : α → κ)

/-- `a` has the smaller key, or the same key and an earlier place in `l`. -/
def Precedes (l : List α) (a b : α) : Prop := key a < key b ∨ key a = key b ∧ [a, b].Sublist l

/-! ## Places in a list -/

/-- Of two elements, one comes first. Induction on the list. -/
theorem pair_sublist_total {l : List α} {a b : α} (ha : a ∈ l) (hb : b ∈ l) (hne : a ≠ b) :
    [a, b].Sublist l ∨ [b, a].Sublist l := by
  induction l with
  | nil => cases ha
  | cons c l ih =>
    rcases List.mem_cons.mp ha with rfl | hal
    · have hbl : b ∈ l := (List.mem_cons.mp hb).resolve_left (Ne.symm hne)
      exact .inl ((List.singleton_sublist.mpr hbl).cons_cons a)
    · rcases List.mem_cons.mp hb with rfl | hbl
      · exact .inr ((List.singleton_sublist.mpr hal).cons_cons b)
      · exact (ih hal hbl).imp (.cons c) (.cons c)

/-- In a list without duplicates, not both come first. Induction on the list. -/
theorem pair_sublist_asymm {l : List α} {a b : α} (hnodup : l.Nodup) (h : [a, b].Sublist l) :
    ¬ [b, a].Sublist l := by
  induction l with
  | nil => cases h
  | cons c l ih =>
    obtain ⟨hc, hnodup⟩ := List.nodup_cons.mp hnodup
    intro h'
    cases h with
    | cons _ h =>
      cases h' with
      | cons _ h' => exact ih hnodup h h'
      | cons_cons _ h' => exact hc (h.subset (by simp))
    | cons_cons _ h =>
      cases h' with
      | cons _ h' => exact hc (h'.subset (by simp))
      | cons_cons _ h' => exact hc (List.singleton_sublist.mp h)

/-! ## Sorting -/

instance totalKey : Std.Total fun a b => key a ≤ key b := ⟨fun a b => le_total (key a) (key b)⟩

instance transKey : IsTrans α fun a b => key a ≤ key b := ⟨fun _ _ _ => le_trans⟩

/-- **The sorted list** is ordered by the key and then by the place in the list. -/
theorem pairwise_precedes_insertionSort {l : List α} (hnodup : l.Nodup) :
    (l.insertionSort fun a b => key a ≤ key b).Pairwise (Precedes key l) := by
  have hperm := List.perm_insertionSort (fun a b => key a ≤ key b) l
  have hsorted := List.pairwise_insertionSort (fun a b => key a ≤ key b) l
  rw [List.pairwise_iff_forall_sublist]
  intro a b hab
  rcases lt_or_eq_of_le (List.pairwise_iff_forall_sublist.mp hsorted hab) with hlt | heq
  · exact .inl hlt
  · refine .inr ⟨heq, ?_⟩
    have hmem : ∀ x ∈ [a, b], x ∈ l := fun x hx => hperm.mem_iff.mp (hab.subset hx)
    have hne : a ≠ b := List.pairwise_iff_forall_sublist.mp (hperm.nodup_iff.mpr hnodup) hab
    rcases pair_sublist_total (hmem a (by simp)) (hmem b (by simp)) hne with hfirst | hlast
    · exact hfirst
    · -- the sort would have kept them the other way round
      have hkept := List.pair_sublist_insertionSort (r := fun a b => key a ≤ key b) heq.ge hlast
      exact absurd hkept (pair_sublist_asymm (hperm.nodup_iff.mpr hnodup) hab)

/-- What is left out comes after what is taken. -/
theorem precedes_of_not_mem_take {l : List α} (hnodup : l.Nodup) {n : Nat} {a b : α}
    (ha : a ∈ (l.insertionSort fun a b => key a ≤ key b).take n) (hb : b ∈ l)
    (hout : b ∉ (l.insertionSort fun a b => key a ≤ key b).take n) : Precedes key l a b := by
  have hpairwise := pairwise_precedes_insertionSort key hnodup
  have hmem : b ∈ l.insertionSort fun a b => key a ≤ key b :=
    (List.perm_insertionSort _ l).mem_iff.mpr hb
  rw [← List.take_append_drop n (l.insertionSort fun a b => key a ≤ key b)] at hpairwise hmem
  have hdrop := (List.mem_append.mp hmem).resolve_left hout
  exact (List.pairwise_append.mp hpairwise).2.2 a ha b hdrop

end Ranking
