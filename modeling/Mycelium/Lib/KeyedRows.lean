import Mycelium.Lib.Tree
import Mathlib.Data.List.Sort

/-!
# Lib — rows in the order of their keys

Values are written into a tree one after the other, each under a key of its own, and the tree is
read in the order of the keys.

* `rows`, `lookup_rows`, `values_rows_perm_iff` — what is in the tree, and when that is everything;
* `lastValues`, `newest_lastValues` — the last values are the newest, if the keys follow the time;
* `filter_inOrder_congr` — a part of the rows depends on what is stored under its keys only.
-/

namespace KvTree

variable {K V κ τ : Type}

/-! ## Rows written one after the other -/

section Rows

variable [DecidableEq K]

/-- The values of a list, each under its key, the later ones over the earlier. -/
def rows (key : V → K) (l : List V) : Of K V := l.foldl (fun t v => t.insert (key v) v) ∅

theorem rows_concat (key : V → K) (l : List V) (v : V) :
    rows key (l ++ [v]) = (rows key l).insert (key v) v := by
  rw [rows, List.foldl_append]
  rfl

/-- Under a key stands the last value with that key. Induction from the end. -/
theorem lookup_rows (key : V → K) (l : List V) (k : K) :
    (rows key l).lookup k = (l.filter fun v => key v = k).getLast? := by
  induction l using List.reverseRecOn with
  | nil => rfl
  | append_singleton l v ih =>
    rw [rows_concat, List.filter_append]
    by_cases hk : key v = k
    · rw [hk, AList.lookup_insert, List.filter_singleton, decide_eq_true hk]
      simp
    · rw [AList.lookup_insert_ne (Ne.symm hk), ih, List.filter_singleton, decide_eq_false hk]
      simp

theorem key_of_lookup_rows {key : V → K} {l : List V} {k : K} {v : V}
    (h : (rows key l).lookup k = some v) : key v = k := by
  rw [lookup_rows] at h
  exact of_decide_eq_true (List.mem_filter.mp (List.mem_of_getLast? h)).2

/-- A tree that some events of a log write to, each its value. Induction from the end. -/
theorem foldl_eq_rows {σ ε : Type} {run : σ → ε → σ} (tree : σ → Of K V) {f : ε → Option V}
    {key : V → K} {s : σ} (hs : tree s = ∅)
    (hrun : ∀ s e, tree (run s e) = match f e with
      | some v => (tree s).insert (key v) v
      | none => tree s) (l : List ε) :
    tree (l.foldl run s) = rows key (l.filterMap f) := by
  induction l using List.reverseRecOn with
  | nil => exact hs
  | append_singleton l e ih =>
    rw [List.foldl_append, List.foldl_cons, List.foldl_nil, hrun, ih, List.filterMap_append]
    cases he : f e with
    | none => rw [List.filterMap_cons_none he, List.filterMap_nil, List.append_nil]
    | some v => rw [List.filterMap_cons_some he, List.filterMap_nil, rows_concat]

/-- In a tree of rows no two values have the same key. -/
theorem nodup_map_key {key : V → K} {t : Of K V} (h : ∀ k v, t.lookup k = some v → key v = k) :
    ((values t).map key).Nodup := by
  have hkeys : (values t).map key = t.keys := by
    show (t.entries.map fun e => e.2).map key = t.entries.map Sigma.fst
    rw [List.map_map]
    exact List.map_congr_left fun e he => h e.1 e.2 (List.mem_dlookup t.nodupKeys he)
  rw [hkeys]
  exact t.keys_nodup

/-- **Everything is kept** exactly if no two values have the same key. -/
theorem values_rows_perm_iff (key : V → K) (l : List V) :
    (values (rows key l)).Perm l ↔ (l.map key).Nodup := by
  constructor
  · intro hperm
    exact (hperm.map key).nodup_iff.mp (nodup_map_key fun k v => key_of_lookup_rows)
  · intro hnodup
    induction l using List.reverseRecOn with
    | nil => exact List.Perm.refl _
    | append_singleton l v ih =>
      rw [List.map_append, List.nodup_append] at hnodup
      -- the key of the new value is free
      have hfree : key v ∉ rows key l := by
        rw [← AList.lookup_eq_none, lookup_rows, List.getLast?_eq_none_iff, List.filter_eq_nil_iff]
        intro v' hv' hkey
        exact hnodup.2.2 (key v') (List.mem_map_of_mem hv') (key v) (by simp) (of_decide_eq_true hkey)
      rw [rows_concat, values_insert, values_erase_of_notMem hfree]
      exact ((ih hnodup.1).cons v).trans (List.perm_append_singleton v l).symm

end Rows

/-- Erasing the keys of some rows takes exactly these rows away. -/
theorem lookup_erase_rows [DecidableEq K] (p : V → Bool) (t : Of K V) (k : K) :
    (((t.entries.filter fun e => p e.2).map Sigma.fst).foldl (fun t k => t.erase k) t).lookup k
      = (t.lookup k).filter fun v => !p v := by
  -- erasing in any order forgets exactly the keys of the list
  have herase : ∀ ks : List K, ∀ t : Of K V,
      (ks.foldl (fun t k => t.erase k) t).lookup k = if k ∈ ks then none else t.lookup k := by
    intro ks
    induction ks with
    | nil => exact fun t => rfl
    | cons k' ks ih =>
      intro t
      rw [List.foldl_cons, ih]
      by_cases hk : k = k'
      · rw [hk, AList.lookup_erase]
        simp
      · rw [AList.lookup_erase_ne hk]
        simp [hk]
  -- and the list has the keys whose row meets the test
  have hmem : k ∈ (t.entries.filter fun e => p e.2).map Sigma.fst
      ↔ ∃ v, t.lookup k = some v ∧ p v = true := by
    rw [List.mem_map]
    constructor
    · rintro ⟨e, he, rfl⟩
      obtain ⟨hentry, hp⟩ := List.mem_filter.mp he
      exact ⟨e.2, List.mem_dlookup t.nodupKeys hentry, hp⟩
    · rintro ⟨v, hv, hp⟩
      exact ⟨⟨k, v⟩, List.mem_filter.mpr ⟨List.of_mem_dlookup hv, hp⟩, rfl⟩
  rw [herase]
  cases hv : t.lookup k with
  | none => split <;> rfl
  | some v =>
    rw [Option.filter_some]
    cases hp : p v with
    | true => simp [hmem, hv, hp]
    | false => simp [hmem, hv, hp]

/-! ## Reading in the order of the keys -/

section Order

variable [LinearOrder κ]

/-- The entries in the order of their keys. -/
def inOrder (ord : K → κ) (t : Of K V) : List (Sigma fun _ : K => V) :=
  t.entries.mergeSort fun a b => ord a.1 ≤ ord b.1

theorem perm_inOrder (ord : K → κ) (t : Of K V) : (inOrder ord t).Perm t.entries :=
  List.mergeSort_perm _ _

theorem pairwise_inOrder (ord : K → κ) (t : Of K V) :
    (inOrder ord t).Pairwise fun a b => ord a.1 ≤ ord b.1 := by
  have htrans : ∀ a b c : Sigma fun _ : K => V, decide (ord a.1 ≤ ord b.1) = true →
      decide (ord b.1 ≤ ord c.1) = true → decide (ord a.1 ≤ ord c.1) = true := by
    intro a b c hab hbc
    exact decide_eq_true ((of_decide_eq_true hab).trans (of_decide_eq_true hbc))
  have htotal : ∀ a b : Sigma fun _ : K => V,
      (decide (ord a.1 ≤ ord b.1) || decide (ord b.1 ≤ ord a.1)) = true := by
    intro a b
    rw [Bool.or_eq_true, decide_eq_true_eq, decide_eq_true_eq]
    exact le_total _ _
  exact (List.pairwise_mergeSort htrans htotal t.entries).imp fun h => of_decide_eq_true h

/-- The values under the last `n` keys, the last key first. -/
def lastValues (ord : K → κ) (n : Nat) (t : Of K V) : List V :=
  ((inOrder ord t).reverse.take n).map Sigma.snd

/-- No two of them have the same key. -/
theorem nodup_map_lastValues [DecidableEq K] {key : V → K} {t : Of K V}
    (h : ∀ k v, t.lookup k = some v → key v = k) (ord : K → κ) (n : Nat) :
    ((lastValues ord n t).map key).Nodup := by
  have hall : ((inOrder ord t).reverse.map Sigma.snd).Perm (values t) :=
    ((List.reverse_perm _).trans (perm_inOrder ord t)).map Sigma.snd
  have hnodup := (hall.map key).nodup_iff.mpr (nodup_map_key h)
  rw [lastValues, List.map_take]
  exact hnodup.sublist ((List.take_sublist n _).map key)

variable [LinearOrder τ]

/-- `r` are `n` of `l`, or all there are, newest first, and nothing left out is newer. -/
structure Newest (time : V → τ) (n : Nat) (l r : List V) : Prop where
  length : r.length = min n l.length
  sorted : r.Pairwise fun a b => time b ≤ time a
  others : ∃ rest, (r ++ rest).Perm l ∧ ∀ a ∈ r, ∀ b ∈ rest, time b ≤ time a

theorem Newest.congr {time : V → τ} {n : Nat} {l l' r : List V} (h : Newest time n l r)
    (hperm : l.Perm l') : Newest time n l' r := by
  obtain ⟨rest, hrest, hothers⟩ := h.others
  exact ⟨by rw [h.length, hperm.length_eq], h.sorted, rest, hrest.trans hperm, hothers⟩

/-- With room for all of them, it is all of them. -/
theorem Newest.perm {time : V → τ} {n : Nat} {l r : List V} (h : Newest time n l r)
    (hn : l.length ≤ n) : r.Perm l := by
  obtain ⟨rest, hrest, -⟩ := h.others
  have hlength := hrest.length_eq
  rw [List.length_append, h.length, Nat.min_eq_right hn] at hlength
  have hnil : rest = [] := List.length_eq_zero_iff.mp (by omega)
  rwa [hnil, List.append_nil] at hrest

variable [DecidableEq K]

/-- **The last values are the newest**, if the order of the keys is that of the times. -/
theorem newest_lastValues {ord : K → κ} {time : V → τ} {t : Of K V}
    (hord : ∀ k v k' v', t.lookup k = some v → t.lookup k' = some v' → ord k ≤ ord k' →
      time v ≤ time v') (n : Nat) :
    Newest time n (values t) (lastValues ord n t) := by
  have hperm : (inOrder ord t).reverse.Perm t.entries :=
    (List.reverse_perm _).trans (perm_inOrder ord t)
  have hsorted : ((inOrder ord t).reverse.map Sigma.snd).Pairwise fun a b => time b ≤ time a := by
    rw [List.pairwise_map]
    refine (List.pairwise_reverse.mpr (pairwise_inOrder ord t)).imp_of_mem ?_
    intro a b ha hb hab
    have hlookup : ∀ e ∈ (inOrder ord t).reverse, t.lookup e.1 = some e.2 :=
      fun e he => List.mem_dlookup t.nodupKeys (hperm.subset he)
    exact hord _ _ _ _ (hlookup b hb) (hlookup a ha) hab
  -- what is taken and what is left out are the two parts of this list
  have hsplit := List.take_append_drop n ((inOrder ord t).reverse.map Sigma.snd)
  have htaken : lastValues ord n t = ((inOrder ord t).reverse.map Sigma.snd).take n :=
    List.map_take ..
  rw [← hsplit, List.pairwise_append] at hsorted
  rw [htaken]
  refine ⟨?_, hsorted.1, _, ?_, hsorted.2.2⟩
  · rw [List.length_take, (hperm.map Sigma.snd).length_eq]
    rfl
  · rw [hsplit]
    exact hperm.map Sigma.snd

/-- Rows that all have a key of their own, in the order of the times. -/
theorem newest_rows {key : V → K} {ord : K → κ} {time : V → τ}
    (hord : ∀ v v', time v < time v' → ord (key v) < ord (key v')) {l : List V}
    (hkeys : (l.map key).Nodup) (n : Nat) : Newest time n l (lastValues ord n (rows key l)) := by
  refine (newest_lastValues ?_ n).congr ((values_rows_perm_iff key l).mpr hkeys)
  intro k v k' v' hv hv' hle
  obtain rfl := key_of_lookup_rows hv
  obtain rfl := key_of_lookup_rows hv'
  exact le_of_not_gt fun hlt => absurd hle (not_le_of_gt (hord v' v hlt))

omit [LinearOrder τ] in
/-- **A part of the rows** in their order depends on what is stored under its keys only, if keys
can be told apart by their order. -/
theorem filter_inOrder_congr {ord : K → κ} {t t' : Of K V} {p : (Sigma fun _ : K => V) → Bool}
    (hord : ∀ k ∈ t, ∀ k' ∈ t', ord k = ord k' → k = k')
    (h : ∀ k v, p ⟨k, v⟩ = true → (t.lookup k = some v ↔ t'.lookup k = some v)) :
    (inOrder ord t).filter p = (inOrder ord t').filter p := by
  have hmem : ∀ e : Sigma fun _ : K => V, ∀ s : Of K V, e ∈ inOrder ord s ↔ s.lookup e.1 = some e.2 :=
    fun e s => (perm_inOrder ord s).mem_iff.trans (List.mem_dlookup_iff s.nodupKeys).symm
  have hnodup : ∀ s : Of K V, ((inOrder ord s).filter p).Nodup := fun s =>
    ((perm_inOrder ord s).nodup_iff.mpr (List.NodupKeys.nodup s.nodupKeys)).filter p
  -- the same rows, and both in order
  have hperm : ((inOrder ord t).filter p).Perm ((inOrder ord t').filter p) := by
    refine (List.perm_ext_iff_of_nodup (hnodup t) (hnodup t')).mpr fun e => ?_
    rw [List.mem_filter, List.mem_filter, hmem, hmem]
    exact and_congr_left fun hp => h e.1 e.2 hp
  refine hperm.eq_of_pairwise ?_ ((pairwise_inOrder ord t).filter p) ((pairwise_inOrder ord t').filter p)
  intro a b ha hb hab hba
  have ha' := (hmem a t).mp (List.mem_filter.mp ha).1
  have hb' := (hmem b t').mp (List.mem_filter.mp hb).1
  have hkey : a.1 = b.1 := hord _ (AList.lookup_isSome.mp (by rw [ha']; rfl)) _
    (AList.lookup_isSome.mp (by rw [hb']; rfl)) (le_antisymm hab hba)
  obtain ⟨k, v⟩ := a
  obtain ⟨k', v'⟩ := b
  obtain rfl : k = k' := hkey
  have hv := (h k v (List.mem_filter.mp ha).2).mp ha'
  rw [hb', Option.some.injEq] at hv
  exact congrArg (Sigma.mk k) hv.symm

end Order

end KvTree
