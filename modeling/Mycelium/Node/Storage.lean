import Mycelium.Core.Transport
import Mycelium.Lib.Tree

/-!
# Mycelium node — the message store

Translation of `mycelium-node/src/storage.rs`: `SledMessageStore` is a `sled` database of
messages by id and an in-memory list of `(time stored, id)`. Only the database survives a
restart. The `bincode` encoding of a stored message is not modelled: a message that was
written is read back.

* `mem_db_gcExpired` — what garbage collection leaves in the database.
-/

namespace Mycelium.Node

/-- Seven days, the age at which `gc_expired` deletes. -/
def storeMaxAgeMs : UInt64 := 7 * 24 * 60 * 60 * 1000

structure SledMessageStore where
  db : KvTree.Of String DirectMessage := ∅
  order : List (UInt64 × String) := []

namespace SledMessageStore

/-- `SledMessageStore::open` on a database with the given contents. -/
def openDb (db : KvTree.Of String DirectMessage) : SledMessageStore := { db, order := [] }

/-- The entry is older than seven days. -/
def expiredAt (now : UInt64) (entry : UInt64 × String) : Bool :=
  storeMaxAgeMs < U64.satSub now entry.1

/-- `gc_expired`: drop the expired entries of `order`, and their messages. -/
def gcExpired (st : SledMessageStore) (now : UInt64) : Nat × SledMessageStore :=
  let toDelete := (st.order.filter (expiredAt now)).map Prod.snd
  (toDelete.length,
    { db := toDelete.foldl (fun db id => db.erase id) st.db
      order := st.order.filter fun entry => !expiredAt now entry })

/-- `stats`. -/
def stats (st : SledMessageStore) : StoreStats :=
  { count := st.order.length, oldestMs := (st.order.head?.map Prod.fst).getD 0 }

/-- `persist`, at time `ts`. -/
def persist (st : SledMessageStore) (ts : UInt64) (message : DirectMessage) : SledMessageStore :=
  { db := st.db.insert message.envelope.id message
    order := st.order ++ [(ts, message.envelope.id)] }

/-- `contains`. -/
def contains (st : SledMessageStore) (messageId : String) : Bool := (st.db.lookup messageId).isSome

/-- `load_by_id`. -/
def loadById (st : SledMessageStore) (messageId : String) : Option DirectMessage :=
  st.db.lookup messageId

/-- `list_ids_window`. -/
def listIdsWindow (st : SledMessageStore) (now windowMs : UInt64) : List String :=
  (st.order.filter fun entry => U64.satSub now windowMs ≤ entry.1).map Prod.snd

/-! ## Membership -/

theorem contains_iff {st : SledMessageStore} {id : String} : st.contains id = true ↔ id ∈ st.db := by
  unfold contains
  rw [AList.lookup_isSome]

@[simp] theorem mem_db_persist {st : SledMessageStore} {ts : UInt64} {m : DirectMessage}
    {id : String} : id ∈ (st.persist ts m).db ↔ id = m.envelope.id ∨ id ∈ st.db :=
  AList.mem_insert _

@[simp] theorem mem_order_persist {st : SledMessageStore} {ts : UInt64} {m : DirectMessage}
    {entry : UInt64 × String} :
    entry ∈ (st.persist ts m).order ↔ entry ∈ st.order ∨ entry = (ts, m.envelope.id) := by
  simp only [persist, List.mem_append, List.mem_singleton]

theorem loadById_persist (st : SledMessageStore) (ts : UInt64) (m : DirectMessage) (id : String) :
    (st.persist ts m).loadById id = if id = m.envelope.id then some m else st.loadById id := by
  by_cases hid : id = m.envelope.id
  · subst hid
    rw [if_pos rfl]
    exact AList.lookup_insert _
  · rw [if_neg hid]
    exact AList.lookup_insert_ne hid

/-- Erasing a list of keys leaves exactly the others. Induction on the list. -/
theorem lookup_foldl_erase {ids : List String} {db : KvTree.Of String DirectMessage} {id : String} :
    (ids.foldl (fun db id => db.erase id) db).lookup id = if id ∈ ids then none else db.lookup id := by
  induction ids generalizing db with
  | nil => rfl
  | cons a ids ih =>
    rw [List.foldl_cons, ih]
    by_cases hid : id = a
    · subst hid
      rw [AList.lookup_erase, ite_self, if_pos List.mem_cons_self]
    · rw [AList.lookup_erase_ne hid]
      simp only [List.mem_cons, hid, false_or]

/-- Garbage collection removes the messages that have an expired entry. -/
theorem loadById_gcExpired {st : SledMessageStore} {now : UInt64} {id : String} {m : DirectMessage} :
    (st.gcExpired now).2.loadById id = some m ↔
      (∀ ts, (ts, id) ∈ st.order → expiredAt now (ts, id) = false) ∧ st.loadById id = some m := by
  unfold gcExpired loadById
  rw [lookup_foldl_erase]
  have hlisted : id ∈ (st.order.filter (expiredAt now)).map Prod.snd
      ↔ ¬ ∀ ts, (ts, id) ∈ st.order → expiredAt now (ts, id) = false := by
    simp only [List.mem_map, List.mem_filter, Prod.exists, exists_eq_right, not_forall,
      Bool.not_eq_false, exists_prop]
  by_cases hexpired : id ∈ (st.order.filter (expiredAt now)).map Prod.snd
  · rw [if_pos hexpired]
    exact iff_of_false nofun fun h => hlisted.mp hexpired h.1
  · rw [if_neg hexpired]
    exact (and_iff_right (not_not.mp fun h => hexpired (hlisted.mpr h))).symm

/-- Garbage collection removes the ids that have an expired entry. -/
theorem mem_db_gcExpired {st : SledMessageStore} {now : UInt64} {id : String} :
    id ∈ (st.gcExpired now).2.db ↔
      (∀ ts, (ts, id) ∈ st.order → expiredAt now (ts, id) = false) ∧ id ∈ st.db := by
  rw [← AList.lookup_isSome, Option.isSome_iff_exists, ← AList.lookup_isSome,
    Option.isSome_iff_exists, ← exists_and_left]
  exact exists_congr fun _ => loadById_gcExpired

theorem mem_order_gcExpired {st : SledMessageStore} {now : UInt64} {entry : UInt64 × String} :
    entry ∈ (st.gcExpired now).2.order ↔ entry ∈ st.order ∧ expiredAt now entry = false := by
  simp [gcExpired, List.mem_filter]

/-! ## The index -/

/-- The entries of `order` are about different ids, all of them in the database. -/
structure Indexed (st : SledMessageStore) : Prop where
  nodup : (st.order.map Prod.snd).Nodup
  stored : ∀ entry ∈ st.order, entry.2 ∈ st.db

theorem indexed_openDb (db : KvTree.Of String DirectMessage) : Indexed (openDb db) where
  nodup := List.nodup_nil
  stored := by simp [openDb]

/-- Storing a message whose id is new keeps the index. -/
theorem Indexed.persist {st : SledMessageStore} (h : Indexed st) {m : DirectMessage}
    (hnew : m.envelope.id ∉ st.db) (ts : UInt64) : Indexed (st.persist ts m) where
  nodup := by
    simp only [SledMessageStore.persist, List.map_append, List.map_cons, List.map_nil]
    refine List.nodup_append.mpr ⟨h.nodup, List.nodup_singleton _, ?_⟩
    intro id hid id' hid' heq
    obtain ⟨entry, hmem, rfl⟩ := List.mem_map.mp hid
    rw [List.mem_singleton.mp hid'] at heq
    exact hnew (heq ▸ h.stored entry hmem)
  stored := by
    intro entry hentry
    rw [mem_db_persist]
    rcases mem_order_persist.mp hentry with hold | rfl
    · exact .inr (h.stored entry hold)
    · exact .inl rfl

/-- Two entries with one id are one entry. -/
theorem Indexed.eq_of_mem {st : SledMessageStore} (h : Indexed st) {ts ts' : UInt64} {id : String}
    (hts : (ts, id) ∈ st.order) (hts' : (ts', id) ∈ st.order) : ts = ts' :=
  congrArg Prod.fst (List.inj_on_of_nodup_map h.nodup hts hts' rfl)

/-- Garbage collection keeps the index: a kept entry is the only one of its id. -/
theorem Indexed.gcExpired {st : SledMessageStore} (h : Indexed st) (now : UInt64) :
    Indexed (st.gcExpired now).2 where
  nodup := by
    have hsub : ((st.gcExpired now).2.order.map Prod.snd).Sublist (st.order.map Prod.snd) :=
      List.filter_sublist.map _
    exact hsub.nodup h.nodup
  stored := by
    intro entry hentry
    obtain ⟨hmem, hfresh⟩ := mem_order_gcExpired.mp hentry
    rw [mem_db_gcExpired]
    refine ⟨fun ts hts => ?_, h.stored entry hmem⟩
    rw [h.eq_of_mem hts hmem]
    exact hfresh

end SledMessageStore

end Mycelium.Node
