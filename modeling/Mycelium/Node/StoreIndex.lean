import Mycelium.Lib.Trail
import Mycelium.Node.Storage
import Mycelium.Node.Symbolic

/-!
# Mycelium node — the store and its index

`SledMessageStore` keeps its messages in a database and their ids, in the order of arrival, in a
list in memory. Opening a database starts with an empty list, whatever the database holds, and
storing a message appends to the list even if the database had the id. Counting, collecting and
listing look at the list only.

* `IndexAgrees` — the list has exactly the stored ids, each once;
* `IndexAgrees.served` — what counting, collecting and listing then see;
* `index_agrees_iff` — the list agrees all along exactly if no store is opened on a database with
  messages and no id is stored twice;
* `gc_agrees_iff` — collection goes by the age of the entry, not by the expiry of the message.
-/

namespace Mycelium.Node

open Trail

namespace SledMessageStore

/-- `recent`: the newest first. -/
def recent (st : SledMessageStore) (limit : Nat) : List DirectMessage :=
  (st.order.reverse.take limit).filterMap fun entry => st.db.lookup entry.2

/-- The list has exactly the stored ids, each once. -/
structure IndexAgrees (st : SledMessageStore) : Prop where
  nodup : (st.order.map Prod.snd).Nodup
  mem : ∀ id, id ∈ st.order.map Prod.snd ↔ id ∈ st.db

/-- Every stored message is counted, and reached: by `recent`, by a window that goes back far
enough, and by a collection that is late enough. -/
structure Served (st : SledMessageStore) : Prop where
  count : st.stats.count = st.db.entries.length
  recent : ∀ id m, st.loadById id = some m → m ∈ st.recent st.stats.count
  window : ∀ id ∈ st.db, ∀ now, id ∈ st.listIdsWindow now now
  gc : ∀ id ∈ st.db, ∃ ts, (ts, id) ∈ st.order
    ∧ ∀ now, expiredAt now (ts, id) = true → id ∉ (st.gcExpired now).2.db

variable {st : SledMessageStore}

theorem IndexAgrees.indexed (h : IndexAgrees st) : Indexed st where
  nodup := h.nodup
  stored entry hentry := (h.mem entry.2).mp (List.mem_map_of_mem hentry)

theorem IndexAgrees.served (h : IndexAgrees st) : Served st := by
  have hentry : ∀ id ∈ st.db, ∃ ts, (ts, id) ∈ st.order := by
    intro id hid
    obtain ⟨⟨ts, id'⟩, hmem, rfl⟩ := List.mem_map.mp ((h.mem id).mpr hid)
    exact ⟨ts, hmem⟩
  -- equal sizes, listing, window, and what an id in the index means for expiry
  refine ⟨?_, ?_, ?_, ?_⟩
  · have hperm : (st.order.map Prod.snd).Perm st.db.keys := by
      refine (List.perm_ext_iff_of_nodup h.nodup st.db.keys_nodup).mpr ?_
      intro id
      rw [h.mem, AList.mem_keys]
    have hlength := hperm.length_eq
    rw [List.length_map, AList.keys, List.keys, List.length_map] at hlength
    exact hlength
  · intro id m hm
    obtain ⟨ts, hmem⟩ := hentry id (AList.lookup_isSome.mp (by
      rw [loadById] at hm
      rw [hm]
      rfl))
    refine List.mem_filterMap.mpr ⟨(ts, id), ?_, hm⟩
    rw [stats, ← List.length_reverse, List.take_length, List.mem_reverse]
    exact hmem
  · intro id hid now
    obtain ⟨ts, hmem⟩ := hentry id hid
    refine List.mem_map.mpr ⟨(ts, id), List.mem_filter.mpr ⟨hmem, ?_⟩, rfl⟩
    have hcutoff : U64.satSub now now = 0 := by
      apply UInt64.toNat_inj.mp
      rw [U64.toNat_satSub, Nat.sub_self]
      rfl
    rw [hcutoff, decide_eq_true_eq, U64.le_iff]
    exact Nat.zero_le _
  · intro id hid
    obtain ⟨ts, hmem⟩ := hentry id hid
    refine ⟨ts, hmem, ?_⟩
    intro now hexpired hkept
    have hfresh := (mem_db_gcExpired.mp hkept).1 ts hmem
    cases hexpired.symm.trans hfresh

/-! ## Runs -/

/-- What is done to a store: a message is stored at an instant, expired ones are collected, or the
process ends and the database is opened again. -/
inductive StoreEvent where
  | persist (ts : UInt64) (m : DirectMessage)
  | gcExpired (now : UInt64)
  | reopen

def after (st : SledMessageStore) : StoreEvent → SledMessageStore
  | .persist ts m => st.persist ts m
  | .gcExpired now => (st.gcExpired now).2
  | .reopen => openDb st.db

/-- The database has no message. -/
def Blank (db : KvTree.Of String DirectMessage) : Prop := ∀ id, id ∉ db

/-- No message is stored whose id is there, and no database is opened that has messages. -/
def KeepsIndex (st : SledMessageStore) : StoreEvent → Prop
  | .persist _ m => m.envelope.id ∉ st.db
  | .gcExpired _ => True
  | .reopen => Blank st.db

theorem indexAgrees_openDb_iff {db : KvTree.Of String DirectMessage} :
    IndexAgrees (openDb db) ↔ Blank db := by
  refine ⟨?_, ?_⟩
  · intro h id hid
    exact absurd ((h.mem id).mpr hid) List.not_mem_nil
  · intro h
    exact ⟨List.nodup_nil, fun id => iff_of_false List.not_mem_nil (h id)⟩

theorem IndexAgrees.persist (h : IndexAgrees st) {m : DirectMessage} (hnew : m.envelope.id ∉ st.db)
    (ts : UInt64) : IndexAgrees (st.persist ts m) := by
  refine ⟨(h.indexed.persist hnew ts).nodup, ?_⟩
  intro id
  rw [mem_db_persist, ← h.mem]
  simp [SledMessageStore.persist, or_comm]

/-- An id that was there is in the list twice. -/
theorem not_indexAgrees_persist (h : IndexAgrees st) {m : DirectMessage} (hold : m.envelope.id ∈ st.db)
    (ts : UInt64) : ¬ IndexAgrees (st.persist ts m) := by
  intro hnext
  have hnodup := hnext.nodup
  simp only [SledMessageStore.persist, List.map_append, List.map_cons, List.map_nil] at hnodup
  have hdisjoint := (List.nodup_append.mp hnodup).2.2
  exact hdisjoint _ ((h.mem _).mpr hold) _ (List.mem_singleton.mpr rfl) rfl

/-- Collecting removes the same ids from both. -/
theorem IndexAgrees.gcExpired (h : IndexAgrees st) (now : UInt64) :
    IndexAgrees (st.gcExpired now).2 := by
  refine ⟨(h.indexed.gcExpired now).nodup, ?_⟩
  intro id
  refine ⟨?_, ?_⟩
  · intro hmem
    obtain ⟨entry, hentry, rfl⟩ := List.mem_map.mp hmem
    exact (h.indexed.gcExpired now).stored entry hentry
  · intro hmem
    obtain ⟨hfresh, hold⟩ := mem_db_gcExpired.mp hmem
    obtain ⟨⟨ts, id'⟩, hentry, rfl⟩ := List.mem_map.mp ((h.mem id).mpr hold)
    exact List.mem_map.mpr ⟨_, mem_order_gcExpired.mpr ⟨hentry, hfresh ts hentry⟩, rfl⟩

/-- **When the index agrees with the store** all along, in every sequence of storing, collecting
and reopening: exactly if every database was empty when it was opened and every message had a new
id. All that is counted, listed and collected follows. -/
theorem index_agrees_iff (db : KvTree.Of String DirectMessage) (es : List StoreEvent) :
    Always after (fun st => IndexAgrees st ∧ Served st) (openDb db) es
      ↔ Blank db ∧ Each after KeepsIndex (openDb db) es := by
  -- an index over a blank database agrees; a persist of an id that is there breaks it
  by_cases hblank : Blank db
  · have hstart : IndexAgrees (openDb db) := indexAgrees_openDb_iff.mpr hblank
    have hkeep : ∀ {st : SledMessageStore} {e : StoreEvent}, IndexAgrees st → True →
        KeepsIndex st e → IndexAgrees (after st e) := by
      intro st e hst _ hkeeps
      cases e with
      | persist ts m => exact hst.persist hkeeps ts
      | gcExpired now => exact hst.gcExpired now
      | reopen => exact indexAgrees_openDb_iff.mpr hkeeps
    have hbreak : ∀ {st : SledMessageStore} {e : StoreEvent}, IndexAgrees st → True →
        IndexAgrees (after st e) ∧ Served (after st e) → KeepsIndex st e := by
      intro st e hst _ hnext
      cases e with
      | persist ts m =>
        intro hold
        exact not_indexAgrees_persist hst hold ts hnext.1
      | gcExpired now => trivial
      | reopen => exact indexAgrees_openDb_iff.mp hnext.1
    have hrun : Always after (fun st => IndexAgrees st ∧ Served st) (openDb db) es
        ↔ Each after KeepsIndex (openDb db) es :=
      always_iff_each IndexAgrees (fun h => ⟨h, h.served⟩) hkeep hbreak hstart
        (each_true (openDb db) es)
    rw [hrun]
    exact ⟨fun h => ⟨hblank, h⟩, fun h => h.2⟩
  · refine iff_of_false ?_ fun h => hblank h.1
    intro h
    have hstart := ((always_iff_prefixes _ _).mp h [] List.nil_prefix).1
    exact hblank (indexAgrees_openDb_iff.mp hstart)

/-- A message is stored and the process ends: the next one opens the database with an empty list. -/
theorem index_lost_on_reopen :
    ¬ Always after (fun st => IndexAgrees st ∧ Served st) (openDb ∅)
        [.persist 1 (symbolicMessage 1 "peer-2" 1), .reopen] := by
  intro h
  have hopened : IndexAgrees (openDb _) := h.2.2.1
  refine indexAgrees_openDb_iff.mp hopened (symbolicMessage 1 "peer-2" 1).envelope.id ?_
  exact mem_db_persist.mpr (.inl rfl)

/-! ## Collection and expiry -/

/-- The list has an entry for the id that is more than seven days old. -/
def Stale (st : SledMessageStore) (now : UInt64) (id : String) : Prop :=
  ∃ ts, (ts, id) ∈ st.order ∧ ts.toNat + 604800000 < now.toNat

theorem expiredAt_iff (now ts : UInt64) (id : String) :
    expiredAt now (ts, id) = true ↔ ts.toNat + 604800000 < now.toNat := by
  have hage : storeMaxAgeMs.toNat = 604800000 := rfl
  simp only [expiredAt, decide_eq_true_eq, U64.lt_iff, U64.toNat_satSub, hage]
  omega

/-- Collecting leaves the messages that are not stale. -/
theorem loadById_gcExpired_iff {now : UInt64} {id : String} {m : DirectMessage} :
    (st.gcExpired now).2.loadById id = some m ↔ st.loadById id = some m ∧ ¬ Stale st now id := by
  rw [loadById_gcExpired, and_comm]
  refine and_congr_right' ?_
  unfold Stale
  simp only [not_exists, not_and, ← expiredAt_iff now _ id, Bool.not_eq_true]

/-- Collecting at an instant removes what has expired by then, and nothing else. -/
structure CollectsExpired (st : SledMessageStore) (now : UInt64) : Prop where
  gone : ∀ id m, (st.gcExpired now).2.loadById id = some m → m.isExpired now = false
  kept : ∀ id m, st.loadById id = some m → m.isExpired now = false →
    (st.gcExpired now).2.loadById id = some m

/-- **When collection agrees with expiry.** For every store and every instant: what has expired is
removed and the rest kept, exactly if the messages that have expired are those with an entry more
than seven days old. -/
theorem gc_agrees_iff (st : SledMessageStore) (now : UInt64) :
    CollectsExpired st now
      ↔ ∀ id m, st.loadById id = some m → (m.isExpired now = true ↔ Stale st now id) := by
  constructor
  · rintro ⟨hgone, hkept⟩ id m hm
    constructor
    · -- an expired message without an old entry would survive
      intro hexpired
      by_contra hfresh
      have hleft := hgone id m (loadById_gcExpired_iff.mpr ⟨hm, hfresh⟩)
      cases hexpired.symm.trans hleft
    · -- an old entry would take an unexpired message with it
      intro hstale
      by_contra hunexpired
      have hleft := hkept id m hm (Bool.not_eq_true _ ▸ hunexpired)
      exact (loadById_gcExpired_iff.mp hleft).2 hstale
  · intro h
    refine ⟨?_, ?_⟩
    · intro id m hleft
      obtain ⟨hm, hfresh⟩ := loadById_gcExpired_iff.mp hleft
      rw [← Bool.not_eq_true]
      exact fun hexpired => hfresh ((h id m hm).mp hexpired)
    · intro id m hm hunexpired
      refine loadById_gcExpired_iff.mpr ⟨hm, fun hstale => ?_⟩
      cases hunexpired.symm.trans ((h id m hm).mpr hstale)

/-- A message that arrives an hour after it was made outlives its seven days. -/
theorem gc_keeps_expired :
    ¬ CollectsExpired ((openDb ∅).persist 3600001 (symbolicMessage 1 "peer-2" 1)) 604800001 := by
  rintro ⟨hgone, -⟩
  have hload : ((openDb ∅).persist 3600001 (symbolicMessage 1 "peer-2" 1)).loadById
      (symbolicMessage 1 "peer-2" 1).envelope.id = some (symbolicMessage 1 "peer-2" 1) :=
    (loadById_persist _ _ _ _).trans (if_pos rfl)
  have hleft := hgone _ _ (loadById_gcExpired_iff.mpr ⟨hload, ?_⟩)
  · exact absurd hleft (by decide)
  · rintro ⟨ts, hentry, hlt⟩
    obtain ⟨rfl, -⟩ := Prod.mk.inj (List.mem_singleton.mp hentry)
    exact absurd hlt (by decide)

end SledMessageStore

end Mycelium.Node
