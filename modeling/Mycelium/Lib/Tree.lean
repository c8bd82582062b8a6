import Mathlib.Data.List.AList
import Mathlib.Algebra.BigOperators.Group.List.Basic
import Mathlib.Tactic

/-!
# Lib — finite trees and sums over their values

A keyed tree (an embedded database's named tree, a hash map) is Mathlib's `AList`: a
duplicate-free association list. What Mathlib does not have is how a *fold over the
stored values* moves when a key is written. Two facts carry all of it:

* `values_insert` — writing `k` puts the new value in front of what is left after
  erasing `k`;
* `values_perm_of_lookup` — a stored value can be pulled to the front of the others.

A part of a tree (`restrict`) is a tree again and sees the writes to its own keys only.

The sum rule `sumBy_insert` is their corollary: a write changes a sum by the new value
minus the replaced one (minus nothing when the key was absent).
-/

namespace KvTree

variable {K V : Type}

/-- A tree from keys to values. -/
abbrev Of (K V : Type) := AList (fun _ : K => V)

/-- The stored values, in no particular order. -/
def values (t : Of K V) : List V := t.entries.map (fun e => e.2)

@[simp] theorem values_empty : values (∅ : Of K V) = [] := rfl

section Writes

variable [DecidableEq K]

/-- Writing a key puts its value in front of what erasing the key leaves. -/
theorem values_insert (t : Of K V) (k : K) (v : V) :
    values (t.insert k v) = v :: values (t.erase k) := rfl

/-- Erasing an absent key changes nothing. -/
theorem values_erase_of_notMem {t : Of K V} {k : K} (h : k ∉ t) :
    values (t.erase k) = values t := by
  have hk : k ∉ t.entries.keys := fun hmem => h hmem
  show (List.kerase k t.entries).map (fun e => e.2) = _
  rw [List.kerase_of_notMem_keys hk]
  rfl

theorem kerase_cons_self (k : K) (v : V) (l : List (Sigma fun _ : K => V)) :
    List.kerase k (⟨k, v⟩ :: l) = l :=
  List.kerase_cons_eq (s := (⟨k, v⟩ : Sigma fun _ : K => V)) rfl

/-- Pulling one entry of a duplicate-free association list to the front. -/
theorem perm_kerase_of_dlookup {k : K} {v : V} :
    ∀ {l : List (Sigma fun _ : K => V)}, l.NodupKeys → l.dlookup k = some v →
      l.Perm (⟨k, v⟩ :: l.kerase k)
  | [], _, h => by simp at h
  | ⟨k', v'⟩ :: l, hnd, h => by
    by_cases hk : k = k'
    · subst hk
      rw [List.dlookup_cons_eq, Option.some.injEq] at h
      subst h
      rw [kerase_cons_self]
    · rw [List.dlookup_cons_ne _ _ hk] at h
      rw [List.kerase_cons_ne hk]
      have ih := perm_kerase_of_dlookup (List.nodupKeys_cons.mp hnd).2 h
      exact (ih.cons _).trans (List.Perm.swap _ _ _)

/-- A stored value can be pulled to the front of the others. -/
theorem values_perm_of_lookup {t : Of K V} {k : K} {v : V} (h : t.lookup k = some v) :
    (values t).Perm (v :: values (t.erase k)) := by
  have hperm := (perm_kerase_of_dlookup t.nodupKeys h).map (fun e => (e.2 : V))
  exact hperm

/-- Overwriting a value replaces it among the others. -/
theorem values_insert_perm_of_lookup {t : Of K V} {k : K} {v : V} (h : t.lookup k = some v)
    (v' : V) : ∃ rest, (values t).Perm (v :: rest) ∧ (values (t.insert k v')).Perm (v' :: rest) :=
  ⟨values (t.erase k), values_perm_of_lookup h, by rw [values_insert]⟩

theorem mem_values_iff {t : Of K V} {v : V} :
    v ∈ values t ↔ ∃ k, t.lookup k = some v := by
  constructor
  · intro hv
    obtain ⟨⟨k, v'⟩, hmem, rfl⟩ := List.mem_map.mp hv
    exact ⟨k, List.mem_dlookup t.nodupKeys hmem⟩
  · rintro ⟨k, hk⟩
    exact List.mem_map.mpr ⟨⟨k, v⟩, List.of_mem_dlookup hk, rfl⟩

end Writes

/-! ## Parts of a tree -/

/-- The entries whose key is selected, in their order. -/
def restrict (p : K → Bool) (t : Of K V) : Of K V :=
  ⟨t.entries.filter fun e => p e.1, List.NodupKeys.sublist List.filter_sublist t.nodupKeys⟩

/-- The keys of a part are the selected keys. -/
theorem keys_restrict (p : K → Bool) (t : Of K V) : (restrict p t).keys = t.keys.filter p := by
  show (t.entries.filter fun e => p e.1).map Sigma.fst = (t.entries.map Sigma.fst).filter p
  rw [List.filter_map]
  rfl

section Parts

variable [DecidableEq K]

theorem filter_kerase (p : K → Bool) (k : K) :
    ∀ l : List (Sigma fun _ : K => V),
      (l.kerase k).filter (fun e => p e.1) = if p k then (l.filter fun e => p e.1).kerase k
        else l.filter fun e => p e.1
  | [] => by simp
  | ⟨k', v'⟩ :: l => by
    by_cases hkk : k = k'
    · subst hkk
      rw [kerase_cons_self]
      by_cases hk : p k = true
      · rw [if_pos hk, List.filter_cons_of_pos (by simpa using hk), kerase_cons_self]
      · rw [if_neg hk, List.filter_cons_of_neg (by simpa using hk)]
    · rw [List.kerase_cons_ne hkk, List.filter_cons, filter_kerase p k l]
      by_cases hk' : p k' = true
      · rw [if_pos hk', List.filter_cons_of_pos (by simpa using hk')]
        split
        · rw [List.kerase_cons_ne (s := (⟨k', v'⟩ : Sigma fun _ : K => V)) hkk]
        · rfl
      · rw [if_neg hk', List.filter_cons_of_neg (by simpa using hk')]

theorem restrict_erase (p : K → Bool) (t : Of K V) (k : K) :
    restrict p (t.erase k) = if p k then (restrict p t).erase k else restrict p t := by
  apply AList.ext
  have hentries : (restrict p (t.erase k)).entries = (t.entries.kerase k).filter fun e => p e.1 := rfl
  rw [hentries, filter_kerase]
  split <;> rfl

theorem restrict_insert (p : K → Bool) (t : Of K V) (k : K) (v : V) :
    restrict p (t.insert k v) = if p k then (restrict p t).insert k v else restrict p t := by
  apply AList.ext
  have hentries : (restrict p (t.insert k v)).entries
      = (⟨k, v⟩ :: t.entries.kerase k).filter fun e => p e.1 := rfl
  rw [hentries, List.filter_cons, filter_kerase]
  split <;> rfl

/-- Erasing several keys erases the selected ones of them. Induction on the keys. -/
theorem restrict_foldl_erase (p : K → Bool) (ks : List K) :
    ∀ t : Of K V, restrict p (ks.foldl (fun t k => t.erase k) t)
      = (ks.filter p).foldl (fun t k => t.erase k) (restrict p t) := by
  induction ks with
  | nil => exact fun _ => rfl
  | cons k ks ih =>
    intro t
    rw [List.foldl_cons, ih, restrict_erase]
    by_cases hk : p k = true
    · rw [if_pos hk, List.filter_cons_of_pos hk, List.foldl_cons]
    · rw [if_neg hk, List.filter_cons_of_neg hk]

theorem lookup_restrict {p : K → Bool} {k : K} (hk : p k = true) (t : Of K V) :
    (restrict p t).lookup k = t.lookup k := by
  apply Option.ext
  intro v
  have hmem : ∀ t' : Of K V, t'.lookup k = some v ↔ (⟨k, v⟩ : Sigma fun _ : K => V) ∈ t'.entries :=
    fun t' => List.mem_dlookup_iff t'.nodupKeys
  rw [hmem, hmem]
  show _ ∈ t.entries.filter _ ↔ _
  rw [List.mem_filter]
  exact and_iff_left hk

end Parts

/-! ## Sums over the values -/

/-- The sum of a weight over the stored values. -/
def sumBy (f : V → Nat) (t : Of K V) : Nat := ((values t).map f).sum

@[simp] theorem sumBy_empty (f : V → Nat) : sumBy f (∅ : Of K V) = 0 := rfl

section SumWrites

variable [DecidableEq K]

/-- A write changes a sum by the new weight minus the replaced one. -/
theorem sumBy_insert (f : V → Nat) (t : Of K V) (k : K) (v : V) :
    sumBy f (t.insert k v) + ((t.lookup k).map f).getD 0 = f v + sumBy f t := by
  unfold sumBy
  rw [values_insert, List.map_cons, List.sum_cons]
  cases h : t.lookup k with
  | none =>
    have hk : k ∉ t := AList.lookup_eq_none.mp h
    rw [values_erase_of_notMem hk]
    simp
  | some v₀ =>
    have hperm := ((values_perm_of_lookup h).map f).sum_eq
    rw [hperm, List.map_cons, List.sum_cons, Option.map_some, Option.getD_some]
    omega

/-- One stored value weighs at most the whole sum. -/
theorem le_sumBy {f : V → Nat} {t : Of K V} {k : K} {v : V} (h : t.lookup k = some v) :
    f v ≤ sumBy f t := by
  unfold sumBy
  rw [((values_perm_of_lookup h).map f).sum_eq, List.map_cons, List.sum_cons]
  omega

/-- Erasing a key loses its weight at most. -/
theorem sumBy_erase_le (f : V → Nat) (t : Of K V) (k : K) : sumBy f (t.erase k) ≤ sumBy f t := by
  have hsub : (values (t.erase k)).Sublist (values t) := (List.kerase_sublist k t.entries).map _
  exact (hsub.map f).sum_le_sum (fun _ _ => Nat.zero_le _)

/-- The sum after a write, from the keys: the new weight, and the weight of every other key. -/
theorem sumBy_insert_keys {f : V → Nat} {t : Of K V} {w : K → Nat}
    (hw : ∀ k v, t.lookup k = some v → w k = f v) (k : K) (v : V) :
    sumBy f (t.insert k v) = f v + ((t.keys.filter (· ≠ k)).map w).sum := by
  have hkeys : (t.erase k).keys = t.keys.filter (· ≠ k) := by
    rw [AList.keys_erase, t.keys_nodup.erase_eq_filter]
    refine List.filter_congr fun k' _ => ?_
    show (!decide (k' = k)) = decide (k' ≠ k)
    rw [decide_not]
  have hweights : (values (t.erase k)).map f = (t.erase k).keys.map w := by
    show ((t.erase k).entries.map _).map f = ((t.erase k).entries.map Sigma.fst).map w
    rw [List.map_map, List.map_map]
    refine List.map_congr_left fun e he => ?_
    have hmem : t.lookup e.1 = some e.2 :=
      List.mem_dlookup t.nodupKeys ((List.kerase_sublist k t.entries).subset he)
    exact (hw e.1 e.2 hmem).symm
  unfold sumBy
  rw [values_insert, List.map_cons, List.sum_cons, hweights, hkeys]

/-- A sum depends on the rows only, not on the order they are kept in. -/
theorem sumBy_congr {t t' : Of K V} (h : ∀ k, t.lookup k = t'.lookup k) (f : V → Nat) :
    sumBy f t = sumBy f t' := by
  have hperm : t.entries.Perm t'.entries := by
    apply List.lookup_ext t.nodupKeys t'.nodupKeys
    intro k v
    have hk : t.entries.dlookup k = t'.entries.dlookup k := h k
    rw [hk]
  unfold sumBy values
  exact ((hperm.map _).map f).sum_eq

end SumWrites

end KvTree
