import Mycelium.Lib.KeyedRows
import Mathlib.Data.Set.Function

/-!
# Lib — replicas

Values are published and reach the replicas in any order, some of them again and again. A replica
writes what reaches it under the key of the value and never takes anything away.

* `written`, `foldl_eq_rows_written` — a replica has the rows of what it writes, also if that
  depends on the state it is in;
* `lookup_rows_iff` — if the keys tell the values apart, a replica holds what has reached it;
* `lastValues_rows_eq` — so replicas that the same values have reached are read alike, even if each
  has keys of its own.
-/

namespace KvTree

variable {K K' V κ : Type} [DecidableEq K] [DecidableEq K']

/-! ## What is written -/

section Written

variable {σ ε : Type} {run : σ → ε → σ} {f : σ → ε → Option V}

/-- What is written during the events, one after the other. -/
def written (run : σ → ε → σ) (f : σ → ε → Option V) : σ → List ε → List V
  | _, [] => []
  | s, e :: l => (f s e).toList ++ written run f (run s e) l

theorem written_append (s : σ) (l l' : List ε) :
    written run f s (l ++ l') = written run f s l ++ written run f (l.foldl run s) l' := by
  induction l generalizing s with
  | nil => rfl
  | cons e l ih =>
    rw [List.cons_append, written, written, ih, List.append_assoc]
    rfl

/-- An event writes when its turn comes, whatever happens before and after. -/
theorem mem_written_of_split {s : σ} {l l' : List ε} {e : ε} {v : V}
    (h : f (l.foldl run s) e = some v) : v ∈ written run f s (l ++ e :: l') := by
  rw [written_append, written, h]
  exact List.mem_append_right _ (List.mem_append_left _ (List.mem_singleton.mpr rfl))

/-- What is written was written by one of the events. Induction on the events. -/
theorem split_of_mem_written {s : σ} {l : List ε} {v : V} (h : v ∈ written run f s l) :
    ∃ before e after, l = before ++ e :: after ∧ f (before.foldl run s) e = some v := by
  induction l generalizing s with
  | nil => cases h
  | cons e l ih =>
    rcases List.mem_append.mp h with hhead | htail
    · exact ⟨[], e, l, rfl, Option.mem_toList.mp hhead⟩
    · obtain ⟨before, e', after, rfl, hv⟩ := ih htail
      exact ⟨e :: before, e', after, rfl, hv⟩

theorem mem_written_concat {s : σ} {l : List ε} {e : ε} {v : V} :
    v ∈ written run f s (l ++ [e]) ↔ v ∈ written run f s l ∨ f (l.foldl run s) e = some v := by
  rw [written_append, List.mem_append]
  refine or_congr_right ?_
  show v ∈ (f (l.foldl run s) e).toList ++ [] ↔ _
  rw [List.append_nil, Option.mem_toList]

omit [DecidableEq K'] in
/-- A tree that the events write to has the rows of what they write. Induction from the end. -/
theorem foldl_eq_rows_written (tree : σ → Of K V) {key : V → K} {s : σ} (hs : tree s = ∅)
    (hrun : ∀ s e, tree (run s e) = match f s e with
      | some v => (tree s).insert (key v) v
      | none => tree s) (l : List ε) :
    tree (l.foldl run s) = rows key (written run f s l) := by
  induction l using List.reverseRecOn with
  | nil => exact hs
  | append_singleton l e ih =>
    rw [List.foldl_append, List.foldl_cons, List.foldl_nil, hrun, ih, written_append]
    cases he : f (l.foldl run s) e with
    | none => simp [written, he]
    | some v => simp [written, he, rows_concat]

end Written

/-! ## What is held -/

omit [DecidableEq K'] in
/-- A replica holds what has reached it. -/
theorem lookup_rows_iff {key : V → K} {l : List V} (hkeys : Set.InjOn key {v | v ∈ l}) {k : K}
    {v : V} : (rows key l).lookup k = some v ↔ v ∈ l ∧ key v = k := by
  rw [lookup_rows]
  refine ⟨fun h => ?_, fun ⟨hmem, hkey⟩ => ?_⟩
  · obtain ⟨hmem, hkey⟩ := List.mem_filter.mp (List.mem_of_getLast? h)
    exact ⟨hmem, of_decide_eq_true hkey⟩
  · -- the value is among those with the key, and the last of these is no other
    have hin : v ∈ l.filter fun v => key v = k := List.mem_filter.mpr ⟨hmem, decide_eq_true hkey⟩
    have hlast := List.getLast?_eq_some_getLast (List.ne_nil_of_mem hin)
    obtain ⟨hmem', hkey'⟩ := List.mem_filter.mp (List.mem_of_getLast? hlast)
    have hkey'' : key _ = k := of_decide_eq_true hkey'
    rw [hlast, hkeys hmem' hmem (hkey''.trans hkey.symm)]

/-! ## What is read -/

variable [LinearOrder κ]

/-- The values with the order of their keys. -/
def ordered (ord : K → κ) (t : Of K V) : List (κ × V) := (inOrder ord t).map fun e => (ord e.1, e.2)

omit [DecidableEq K] [DecidableEq K'] in
theorem lastValues_eq_ordered (ord : K → κ) (n : Nat) (t : Of K V) :
    lastValues ord n t = ((ordered ord t).reverse.take n).map Prod.snd := by
  unfold lastValues ordered
  rw [← List.map_reverse, ← List.map_take, List.map_map]
  rfl

omit [DecidableEq K] [DecidableEq K'] in
theorem pairwise_ordered (ord : K → κ) (t : Of K V) :
    (ordered ord t).Pairwise fun a b => a.1 ≤ b.1 := by
  unfold ordered
  rw [List.pairwise_map]
  exact pairwise_inOrder ord t

section

variable {ord : K → κ} {key : V → K} {l : List V}

omit [DecidableEq K'] in
theorem mem_ordered_rows (hkeys : Set.InjOn (fun v => ord (key v)) {v | v ∈ l}) {o : κ} {v : V} :
    (o, v) ∈ ordered ord (rows key l) ↔ v ∈ l ∧ ord (key v) = o := by
  have hkeys' : Set.InjOn key {v | v ∈ l} := fun v hv v' hv' heq => hkeys hv hv' (congrArg ord heq)
  have hrow : ∀ e : Sigma fun _ : K => V,
      e ∈ inOrder ord (rows key l) ↔ e.2 ∈ l ∧ key e.2 = e.1 := fun e =>
    ((perm_inOrder ord _).mem_iff.trans (List.mem_dlookup_iff (rows key l).nodupKeys).symm).trans
      (lookup_rows_iff hkeys')
  unfold ordered
  rw [List.mem_map]
  refine ⟨?_, ?_⟩
  · rintro ⟨e, he, heq⟩
    obtain ⟨rfl, rfl⟩ := Prod.mk.inj heq
    obtain ⟨hmem, hkey⟩ := (hrow e).mp he
    exact ⟨hmem, congrArg ord hkey⟩
  · rintro ⟨hmem, rfl⟩
    exact ⟨⟨key v, v⟩, (hrow _).mpr ⟨hmem, rfl⟩, rfl⟩

omit [DecidableEq K'] in
theorem nodup_ordered_rows (ord : K → κ) (key : V → K) (l : List V) :
    (ordered ord (rows key l)).Nodup := by
  have hnodup : (inOrder ord (rows key l)).Nodup :=
    (perm_inOrder ord _).nodup_iff.mpr (List.NodupKeys.nodup (rows key l).nodupKeys)
  refine hnodup.map_on ?_
  rintro ⟨k, v⟩ hmem ⟨k', v'⟩ hmem' heq
  obtain ⟨-, rfl⟩ := Prod.mk.inj heq
  have hkey : ∀ {k : K} {v : V}, ⟨k, v⟩ ∈ inOrder ord (rows key l) → key v = k := fun h =>
    key_of_lookup_rows (List.mem_dlookup (rows key l).nodupKeys ((perm_inOrder ord _).subset h))
  rw [← hkey hmem, ← hkey hmem']

omit [DecidableEq K'] in
/-- **What is read was written.** -/
theorem mem_of_mem_lastValues_rows {v : V} {n : Nat} (h : v ∈ lastValues ord n (rows key l)) :
    v ∈ l := by
  obtain ⟨e, he, rfl⟩ := List.mem_map.mp h
  have hrow := (perm_inOrder ord _).subset (List.mem_reverse.mp (List.mem_of_mem_take he))
  -- a row holds the last of the values with its key
  have hlookup := List.mem_dlookup (rows key l).nodupKeys hrow
  rw [show List.dlookup e.1 _ = _ from lookup_rows key l e.1] at hlookup
  exact (List.mem_filter.mp (List.mem_of_getLast? hlookup)).1

end

/-- **Replicas that the same values have reached are read alike**, if the values can be told apart
by the order of their keys. -/
theorem lastValues_rows_eq {ord : K → κ} {ord' : K' → κ} {key : V → K} {key' : V → K'}
    {l l' : List V} (hord : ∀ v, ord' (key' v) = ord (key v))
    (hkeys : Set.InjOn (fun v => ord (key v)) {v | v ∈ l}) (hsame : ∀ v, v ∈ l ↔ v ∈ l') (n : Nat) :
    lastValues ord n (rows key l) = lastValues ord' n (rows key' l') := by
  have hkeys' : Set.InjOn (fun v => ord' (key' v)) {v | v ∈ l'} := by
    intro v hv v' hv' heq
    dsimp only at heq
    rw [hord, hord] at heq
    exact hkeys ((hsame v).mpr hv) ((hsame v').mpr hv') heq
  have hperm : (ordered ord (rows key l)).Perm (ordered ord' (rows key' l')) := by
    refine (List.perm_ext_iff_of_nodup (nodup_ordered_rows ord key l)
      (nodup_ordered_rows ord' key' l')).mpr fun ⟨o, v⟩ => ?_
    rw [mem_ordered_rows hkeys, mem_ordered_rows hkeys', hsame, hord]
  -- both are in order, and an order stands for one value
  have heq : ordered ord (rows key l) = ordered ord' (rows key' l') := by
    refine hperm.eq_of_pairwise ?_ (pairwise_ordered _ _) (pairwise_ordered _ _)
    rintro ⟨o, v⟩ ⟨o', v'⟩ hmem hmem' hle hge
    obtain ⟨hv, hov⟩ := (mem_ordered_rows hkeys).mp hmem
    obtain ⟨hv', hov'⟩ := (mem_ordered_rows hkeys).mp (hperm.symm.subset hmem')
    obtain rfl : o = o' := le_antisymm hle hge
    rw [hkeys hv hv' (hov.trans hov'.symm)]
  rw [lastValues_eq_ordered, lastValues_eq_ordered, heq]

end KvTree
