import Mycelium.App.Isolation
import Mycelium.Node.Durability

/-!
# Mycelium app — the quota of a mini-app

`storage.set` counts the keys and the readable values under the prefix of the app before it
writes. The foreign interface writes the same tree without that count, an app whose id continues
the id of another writes into the range of the other and counts its own, and a storage opened with
another key no longer reads, and so no longer counts, what was stored before.

* `QuotaState.texts` — a record beside the state: the text that was last set under each key;
* `QuotaInv` — what is read is what was set, and it is within the quota;
* `quotaInv_step` — one event, if it is `Careful`;
* `storage_quota_kept` — every run of careful events from an empty storage stays within the quota,
  and no event that fails changes the storage.
-/

namespace Mycelium.App

open AppStorage (LooksLike)

/-! ## Reads after writes -/

section

variable [Prims] {st : AppStorage}

/-- A sealed value is opened with its key. -/
theorem decryptValue_encryptValue (haead : Prims.AeadLaws) (master : Bytes32) (k : String)
    (nonce : Vector UInt8 12) (value : String) :
    decryptValue master k (encryptValue master k nonce value) = .ok value := by
  have hmark : (asBytes "enc1:").isPrefixOf (encryptValue master k nonce value) = true :=
    List.isPrefixOf_iff_prefix.mpr (List.prefix_append _ _)
  have hmarkLen : (asBytes "enc1:").length = 5 := by decide +kernel
  have hrest : (encryptValue master k nonce value).drop 5
      = nonce.toList ++ Prims.chachaEncrypt (deriveRecordKey master k) nonce.toList (asBytes value) := by
    unfold encryptValue
    rw [← hmarkLen, List.drop_left]
  have htag := haead.tag (deriveRecordKey master k) nonce.toList (asBytes value)
  unfold decryptValue
  rw [if_pos hmark]
  simp only [hrest]
  rw [if_neg (by simp; omega), List.take_left' (by simp), List.drop_left' (by simp),
    haead.decrypt_encrypt]
  simp only [fromUtf8_asBytes]

namespace AppStorage

/-- So is a stored one, sealed or not. -/
theorem decode_encodeMiniappValue (haead : Prims.AeadLaws) (atRestKey : Option Bytes32) (k : String)
    (nonce : Vector UInt8 12) (value : String) :
    decodeMiniappValue atRestKey k (encodeMiniappValue atRestKey k nonce value) = .ok value := by
  cases atRestKey with
  | some master => exact decryptValue_encryptValue haead master k nonce value
  | none =>
    show Except.ok ((fromUtf8 (asBytes value)).getD _) = _
    rw [fromUtf8_asBytes]
    rfl

/-- What is set is read. -/
theorem miniappGet_miniappSet (haead : Prims.AeadLaws) (nonce : Vector UInt8 12) (k value : String) :
    (st.miniappSet nonce k value).miniappGet k = .ok (some value) := by
  unfold miniappGet miniappSet
  simp only [AList.lookup_insert, decode_encodeMiniappValue haead]
  rfl

/-- Another key is read as before. -/
theorem miniappGet_miniappSet_ne {k k' : String} (hne : k' ≠ k) (nonce : Vector UInt8 12)
    (value : String) : (st.miniappSet nonce k value).miniappGet k' = st.miniappGet k' := by
  unfold miniappGet miniappSet
  simp only [AList.lookup_insert_ne hne]

/-- What is deleted is not there. -/
theorem miniappGet_miniappDelete (k : String) : (st.miniappDelete k).miniappGet k = .ok none := by
  unfold miniappGet miniappDelete
  simp only [AList.lookup_erase]

/-- Another key stays. -/
theorem miniappGet_miniappDelete_ne {k k' : String} (hne : k' ≠ k) :
    (st.miniappDelete k).miniappGet k' = st.miniappGet k' := by
  unfold miniappGet miniappDelete
  simp only [AList.lookup_erase_ne hne]

/-- A key without a value is one without a row. -/
theorem miniappGet_eq_none_iff {k : String} :
    st.miniappGet k = .ok none ↔ st.miniapp.lookup k = none := by
  unfold miniappGet
  cases st.miniapp.lookup k with
  | none => simp
  | some blob =>
    cases hvalue : decodeMiniappValue st.atRestKey k blob with
    | error e => simp [hvalue, Except.map]
    | ok v => simp [hvalue, Except.map]

/-! ## What the check computes -/

omit [Prims] in
/-- The listed keys of an app are the keys it owns, in another order. -/
theorem miniappList_perm (st : AppStorage) (x : String) :
    (st.miniappList (appPrefix x)).Perm (st.owned x).keys := by
  unfold miniappList
  refine (List.mergeSort_perm _ _).trans (List.Perm.of_eq ?_)
  exact (KvTree.keys_restrict (ownsKey x) st.miniapp).symm

omit [Prims] in
/-- The total is a sum over the other keys. -/
theorem foldl_total (w : String → Nat) (k : String) (keys : List String) :
    ∀ n, keys.foldl (fun total k' => if k' = k then total else total + w k') n
      = n + ((keys.filter (· ≠ k)).map w).sum := by
  induction keys with
  | nil => simp
  | cons k' keys ih =>
    intro n
    rw [List.foldl_cons, ih]
    by_cases h : k' = k
    · rw [if_pos h, List.filter_cons_of_neg (by simpa using h)]
    · rw [if_neg h, List.filter_cons_of_pos (by simpa using h), List.map_cons, List.sum_cons]
      omega

/-- A write that is let through: either the key is there or there is room for one more, and the
new value fits beside those of the other keys. -/
theorem checkStorageQuota_ok {x k : String} {n : Nat} (h : st.checkStorageQuota x k n = .ok ()) :
    (k ∈ (st.owned x).keys ∨ (st.owned x).keys.length < maxKeysPerApp)
    ∧ n + (((st.owned x).keys.filter (· ≠ k)).map st.readableLen).sum ≤ maxTotalBytesPerApp := by
  have hperm := st.miniappList_perm x
  unfold checkStorageQuota at h
  simp only [foldl_total] at h
  split at h
  · cases h
  next hroom =>
  split at h
  · cases h
  next htotal =>
  have hsum : (((st.miniappList (appPrefix x)).filter (· ≠ k)).map st.readableLen).sum
      = (((st.owned x).keys.filter (· ≠ k)).map st.readableLen).sum :=
    ((hperm.filter _).map _).sum_eq
  rw [hsum] at htotal
  refine ⟨?_, Nat.le_of_not_lt htotal⟩
  rw [← hperm.mem_iff, ← hperm.length_eq]
  by_cases hmem : k ∈ st.miniappList (appPrefix x)
  · exact .inl hmem
  · refine .inr (Nat.lt_of_not_le fun hfull => hroom ?_)
    simp [hmem, hfull]

end AppStorage

end

/-! ## Events -/

/-- What happens to the storage: a call through the host of an app, the two calls of the foreign
interface, and a reopening with a key. -/
inductive QuotaEvent where
  | call (host : BridgeHost) (env : CallEnv) (method : StorageMethod) (args : Json)
  | ffiSet (nonce : Vector UInt8 12) (appId key value : String)
  | ffiDelete (appId key : String)
  | reopen (atRestKey : Option Bytes32)

/-- The state, and beside it the text that was last set under each key. -/
structure QuotaState where
  bridge : BridgeState
  texts : KvTree.Of String String := ∅

/-- The storage behind it. -/
def QuotaState.storage (s : QuotaState) : AppStorage := s.bridge.app.storage

/-- The same storage, opened with another key. -/
def AppStorage.reopen (st : AppStorage) (atRestKey : Option Bytes32) : AppStorage :=
  { st with atRestKey }

/-- What the event asks to be set. -/
def QuotaEvent.setting : QuotaEvent → Option (String × String)
  | .call host _ .set args =>
    match args.strField "key", args.strField "value" with
    | some key, some value => some (scopedKey host.appId key, value)
    | _, _ => none
  | .ffiSet _ appId key value => some (scopedKey appId key, value)
  | _ => none

/-- What the event asks to be deleted. -/
def QuotaEvent.deleting : QuotaEvent → Option String
  | .call host _ .delete args => (args.strField "key").map (scopedKey host.appId)
  | .ffiDelete appId key => some (scopedKey appId key)
  | _ => none

/-- The record after an event that succeeded. -/
def QuotaEvent.record (e : QuotaEvent) (texts : KvTree.Of String String) :
    KvTree.Of String String :=
  match e.setting, e.deleting with
  | some (k, value), _ => texts.insert k value
  | none, some k => texts.erase k
  | none, none => texts

/-- The app through whose host the event comes. -/
def QuotaEvent.caller : QuotaEvent → Option String
  | .call host _ _ _ => some host.appId
  | _ => none

section

variable [Prims]

/-! ## What an event can do -/

/-- **Everything an event can do to the storage.** A host that writes has counted for its app. -/
inductive Effect (e : QuotaEvent) (st : AppStorage) : Except String Json → AppStorage → Prop
  | failed (err : String) : Effect e st (.error err) st
  | read (answer : Json) (hset : e.setting = none) (hdelete : e.deleting = none) :
    Effect e st (.ok answer) st
  | wrote (answer : Json) (nonce : Vector UInt8 12) (k value : String)
    (hset : e.setting = some (k, value))
    (hcounted : ∀ x, e.caller = some x → st.checkStorageQuota x k value.utf8ByteSize = .ok ()) :
    Effect e st (.ok answer) (st.miniappSet nonce k value)
  | deleted (answer : Json) (k : String) (hset : e.setting = none) (hdelete : e.deleting = some k) :
    Effect e st (.ok answer) (st.miniappDelete k)
  | reopened (answer : Json) (atRestKey : Option Bytes32) (he : e = .reopen atRestKey) :
    Effect e st (.ok answer) (st.reopen atRestKey)

/-! ## The invariant -/

/-- The length of what the app has stored. -/
def QuotaState.total (x : String) (s : QuotaState) : Nat :=
  KvTree.sumBy String.utf8ByteSize (KvTree.restrict (ownsKey x) s.texts)

/-- The bounds of the app `x`. -/
structure WithinQuota (x : String) (s : QuotaState) : Prop where
  keys : (s.storage.owned x).keys.length ≤ maxKeysPerApp
  total : s.total x ≤ maxTotalBytesPerApp

/-- What the app reads is what was set, and it is within the bounds. -/
structure QuotaInv (x : String) (s : QuotaState) : Prop extends WithinQuota x s where
  reads : ∀ k, ownsKey x k = true → s.storage.miniappGet k = .ok (s.texts.lookup k)

/-- The event is counted for `x` if it writes among its keys from elsewhere, and a reopening
finds a key that reads what was set. -/
structure Careful (x : String) (e : QuotaEvent) (s : QuotaState) : Prop where
  counted : ∀ k value, e.setting = some (k, value) → ownsKey x k = true → e.caller ≠ some x →
    s.storage.checkStorageQuota x k value.utf8ByteSize = .ok ()
  readable : ∀ atRestKey, e = .reopen atRestKey → ∀ k, ownsKey x k = true →
    (s.storage.reopen atRestKey).miniappGet k = .ok (s.texts.lookup k)

namespace QuotaInv

variable {x : String} {s : QuotaState}

/-- The record has the keys of the storage. -/
theorem keys_perm (h : QuotaInv x s) :
    (KvTree.restrict (ownsKey x) s.texts).keys.Perm (s.storage.owned x).keys := by
  refine (List.perm_ext_iff_of_nodup (AList.keys_nodup _) (AList.keys_nodup _)).mpr fun k => ?_
  have hsome : ∀ {V : Type} (t : KvTree.Of String V), k ∈ t.keys ↔ t.lookup k ≠ none := by
    intro V t
    rw [← AList.mem_keys, Ne, AList.lookup_eq_none, not_not]
  unfold AppStorage.owned
  rw [KvTree.keys_restrict, KvTree.keys_restrict, List.mem_filter, List.mem_filter, hsome, hsome]
  refine and_congr_left fun hk => not_congr ?_
  rw [← AppStorage.miniappGet_eq_none_iff]
  show _ ↔ s.storage.miniappGet k = _
  rw [h.reads k hk, Except.ok.injEq]

/-- The check weighs a key by the text under it. -/
theorem readableLen (h : QuotaInv x s) {k text : String}
    (htext : (KvTree.restrict (ownsKey x) s.texts).lookup k = some text) :
    s.storage.readableLen k = text.utf8ByteSize := by
  have hk : ownsKey x k = true := by
    have hmem : k ∈ (KvTree.restrict (ownsKey x) s.texts).keys :=
      AList.mem_keys.mp (AList.lookup_isSome.mp (by rw [htext]; rfl))
    rw [KvTree.keys_restrict] at hmem
    exact (List.mem_filter.mp hmem).2
  rw [KvTree.lookup_restrict hk] at htext
  unfold AppStorage.readableLen
  rw [h.reads k hk, htext]

/-- A counted write. -/
theorem set (haead : Prims.AeadLaws) (h : QuotaInv x s) {k value : String}
    (hk : ownsKey x k = true)
    (hcheck : s.storage.checkStorageQuota x k value.utf8ByteSize = .ok ())
    {nonce : Vector UInt8 12} {s' : QuotaState}
    (hstorage : s'.storage = s.storage.miniappSet nonce k value)
    (htexts : s'.texts = s.texts.insert k value) : QuotaInv x s' := by
  obtain ⟨hroom, htotal⟩ := AppStorage.checkStorageQuota_ok hcheck
  refine ⟨⟨?_, ?_⟩, ?_⟩
  · rw [hstorage, AppStorage.owned_miniappSet, if_pos hk, AList.keys_insert, List.length_cons]
    -- an overwritten key takes no new place, a new one had room
    rcases hroom with hmem | hless
    · have hpos := List.length_pos_of_mem hmem
      have hkeys := h.keys
      rw [List.length_erase_of_mem hmem]
      omega
    · have hle := List.length_erase_le (a := k) (l := (s.storage.owned x).keys)
      omega
  -- the sum of the lengths goes up by the new value less the old one, which the check counted
  · unfold QuotaState.total
    rw [htexts, KvTree.restrict_insert, if_pos hk,
      KvTree.sumBy_insert_keys (fun k text htext => h.readableLen htext)]
    rw [((h.keys_perm.filter _).map _).sum_eq]
    exact htotal
  · intro k' hk'
    rw [hstorage, htexts]
    by_cases heq : k' = k
    · subst heq
      rw [AppStorage.miniappGet_miniappSet haead, AList.lookup_insert]
    · rw [AppStorage.miniappGet_miniappSet_ne heq, AList.lookup_insert_ne heq]
      exact h.reads k' hk'

/-- A write among the keys of others. -/
theorem set_other (h : QuotaInv x s) {k value : String} (hk : ¬ ownsKey x k = true)
    {nonce : Vector UInt8 12} {s' : QuotaState}
    (hstorage : s'.storage = s.storage.miniappSet nonce k value)
    (htexts : s'.texts = s.texts.insert k value) : QuotaInv x s' := by
  refine ⟨⟨?_, ?_⟩, ?_⟩
  · rw [hstorage, AppStorage.owned_miniappSet, if_neg hk]
    exact h.keys
  · unfold QuotaState.total
    rw [htexts, KvTree.restrict_insert, if_neg hk]
    exact h.total
  · intro k' hk'
    have hne : k' ≠ k := by
      rintro rfl
      exact hk hk'
    rw [hstorage, htexts, AppStorage.miniappGet_miniappSet_ne hne, AList.lookup_insert_ne hne]
    exact h.reads k' hk'

/-- Deleting takes a text away. -/
theorem delete (h : QuotaInv x s) {k : String} {s' : QuotaState}
    (hstorage : s'.storage = s.storage.miniappDelete k) (htexts : s'.texts = s.texts.erase k) :
    QuotaInv x s' := by
  refine ⟨⟨?_, ?_⟩, ?_⟩
  · rw [hstorage, AppStorage.owned_miniappDelete]
    split
    · rw [AList.keys_erase]
      exact (List.length_erase_le).trans h.keys
    · exact h.keys
  · unfold QuotaState.total
    rw [htexts, KvTree.restrict_erase]
    split
    · exact (KvTree.sumBy_erase_le _ _ _).trans h.total
    · exact h.total
  · intro k' hk'
    rw [hstorage, htexts]
    by_cases heq : k' = k
    · subst heq
      rw [AppStorage.miniappGet_miniappDelete, AList.lookup_erase]
    · rw [AppStorage.miniappGet_miniappDelete_ne heq, AList.lookup_erase_ne heq]
      exact h.reads k' hk'

/-- The rows and the record are as they were, and the rows are read as they were set. -/
theorem of_reads (h : QuotaInv x s) {s' : QuotaState}
    (hrows : s'.storage.owned x = s.storage.owned x) (htexts : s'.texts = s.texts)
    (hreads : ∀ k, ownsKey x k = true → s'.storage.miniappGet k = .ok (s.texts.lookup k)) :
    QuotaInv x s' := by
  refine ⟨⟨?_, ?_⟩, ?_⟩
  · rw [hrows]
    exact h.keys
  · unfold QuotaState.total
    rw [htexts]
    exact h.total
  · rw [htexts]
    exact hreads

/-- Where rows and texts are the same, nothing has changed. -/
theorem unchanged (h : QuotaInv x s) {s' : QuotaState} (hstorage : s'.storage = s.storage)
    (htexts : s'.texts = s.texts) : QuotaInv x s' :=
  h.of_reads (by rw [hstorage]) htexts (by rw [hstorage]; exact h.reads)

/-- A reopening changes nothing that is stored. -/
theorem reopen (h : QuotaInv x s) {s' : QuotaState} {atRestKey : Option Bytes32}
    (hstorage : s'.storage = s.storage.reopen atRestKey) (htexts : s'.texts = s.texts)
    (hreads : ∀ k, ownsKey x k = true →
      (s.storage.reopen atRestKey).miniappGet k = .ok (s.texts.lookup k)) : QuotaInv x s' :=
  h.of_reads (by rw [hstorage]; rfl) htexts (by rw [hstorage]; exact hreads)

end QuotaInv

/-- A fresh storage is within every quota. -/
theorem quotaInv_empty {bridge : BridgeState} (hempty : bridge.app.storage.miniapp = ∅)
    (x : String) : QuotaInv x { bridge } := by
  refine ⟨⟨?_, ?_⟩, ?_⟩
  · show (KvTree.restrict (ownsKey x) bridge.app.storage.miniapp).keys.length ≤ _
    rw [hempty]
    exact Nat.zero_le _
  · exact Nat.zero_le _
  · intro k hk
    show bridge.app.storage.miniappGet k = .ok none
    rw [AppStorage.miniappGet_eq_none_iff, hempty]
    rfl

/-- A reopening with the key that was in use. -/
theorem QuotaInv.careful_reopen {x : String} {s : QuotaState} (h : QuotaInv x s) :
    Careful x (.reopen s.storage.atRestKey) s where
  counted _ _ hset := nomatch hset
  readable atRestKey he k hk := by
    obtain rfl : s.storage.atRestKey = atRestKey := QuotaEvent.reopen.inj he
    exact h.reads k hk

/-- A call of the app itself. -/
theorem careful_own_call (host : BridgeHost) (env : CallEnv) (m : StorageMethod) (args : Json)
    (s : QuotaState) : Careful host.appId (.call host env m args) s where
  counted _ _ _ _ hcaller := absurd rfl hcaller
  readable _ he := nomatch he

end

/-! ## The code -/

section

variable [Prims] [AppEncoder] [HostCalls] [CapPrims]

/-- What the code does. -/
def QuotaEvent.exec : QuotaEvent → BridgeState → Except String Json × BridgeState
  | .call host env method args, st => host.handle env method.name args st
  | .ffiSet nonce appId key value, st =>
    let (result, storage) := miniappStorageSet nonce appId key value st.app.storage
    (result.map fun _ => .null, { st with app := st.app.updateStorage fun _ => storage })
  | .ffiDelete appId key, st =>
    (.ok .null, { st with app := st.app.updateStorage (miniappStorageDelete appId key) })
  | .reopen atRestKey, st =>
    (.ok .null, { st with app := st.app.updateStorage (·.reopen atRestKey) })

/-- And the record beside it. -/
def QuotaEvent.step (e : QuotaEvent) (s : QuotaState) : Except String Json × QuotaState :=
  let (result, bridge) := e.exec s.bridge
  (result, { bridge, texts := if result.isOk then e.record s.texts else s.texts })

/-- Run a list of events. -/
def runQuota (events : List QuotaEvent) (s : QuotaState) : QuotaState :=
  events.foldl (fun s e => (e.step s).2) s

omit [CapPrims] in
/-- A method of the bridge changes the storage as its effect says. -/
theorem body_effect (host : BridgeHost) (env : CallEnv) (m : StorageMethod) (args : Json)
    (st : BridgeState) :
    Effect (.call host env m args) st.app.storage (host.body env m.name args st).1
      (host.body env m.name args st).2.app.storage := by
  -- the body is a chain of checks that may fail, and one effect at its end
  let P := fun r : Except String Json × Served =>
    Effect (.call host env m args) st.app.storage r.1 r.2.app.storage
  have hfail : ∀ e : String, P (.error e, st.untouched) := fun e => .failed e
  show P (host.body env m.name args st)
  cases m with
  | get =>
    refine BridgeState.check_rule (fun e _ => hfail e) fun _ _ => ?_
    refine BridgeState.check_rule (fun e _ => hfail e) fun key _ => ?_
    exact BridgeState.check_rule (fun e _ => hfail e) fun v _ => .read (.ofOption v) rfl rfl
  | set =>
    refine BridgeState.check_rule (fun e _ => hfail e) fun _ _ => ?_
    refine BridgeState.check_rule (fun e _ => hfail e) fun key hkey => ?_
    refine BridgeState.check_rule (fun e _ => hfail e) fun value hvalue => ?_
    refine BridgeState.check_rule (fun e _ => hfail e) fun _ _ => ?_
    refine BridgeState.check_rule (fun e _ => hfail e) fun _ _ => ?_
    refine BridgeState.check_rule (fun e _ => hfail e) fun _ hquota => ?_
    refine Effect.wrote (.str "ok") env.draws.nonce (scopedKey host.appId key) value ?_ ?_
    · simp only [QuotaEvent.setting, Json.strArg_ok hkey, Json.strArg_ok hvalue]
    · intro x hx
      obtain rfl : host.appId = x := Option.some.inj hx
      exact hquota
  | delete =>
    refine BridgeState.check_rule (fun e _ => hfail e) fun _ _ => ?_
    refine BridgeState.check_rule (fun e _ => hfail e) fun key hkey => ?_
    refine Effect.deleted (.str "ok") (scopedKey host.appId key) rfl ?_
    simp only [QuotaEvent.deleting, Json.strArg_ok hkey, Option.map_some]
  | list => exact BridgeState.check_rule (fun e _ => hfail e) fun _ _ => .read _ rfl rfl

/-- So does every event. -/
theorem exec_effect (e : QuotaEvent) (st : BridgeState) :
    Effect e st.app.storage (e.exec st).1 (e.exec st).2.app.storage := by
  -- the gate changes the limits and the reputations only, never the storage
  cases e with
  | call host env m args =>
    obtain ⟨limits, reputations, hleaves⟩ := gate_leaves host env m.name args st
    show Effect _ _ (host.handle env m.name args st).1 (host.handle env m.name args st).2.app.storage
    unfold BridgeHost.handle
    rcases hgate : host.gate env m.name args st with ⟨r, s⟩
    rw [hgate] at hleaves
    obtain rfl : s = _ := hleaves
    cases r with
    | error err => exact .failed err
    | ok u => exact body_effect host env m args _
  | ffiSet nonce appId key value =>
    show Effect _ _ ((miniappStorageSet nonce appId key value st.app.storage).1.map fun _ => .null)
      (miniappStorageSet nonce appId key value st.app.storage).2
    unfold miniappStorageSet
    cases validateKey key with
    | error err => exact .failed _
    | ok u =>
      cases validateValue value with
      | error err => exact .failed _
      | ok u => exact .wrote .null nonce (scopedKey appId key) value rfl (fun x hx => nomatch hx)
  | ffiDelete appId key => exact .deleted .null (scopedKey appId key) rfl rfl
  | reopen atRestKey => exact .reopened .null atRestKey rfl

/-! ## Runs -/

/-- **One careful event.** -/
theorem quotaInv_step (haead : Prims.AeadLaws) {x : String} {s : QuotaState} (h : QuotaInv x s)
    {e : QuotaEvent} (hcareful : Careful x e s) : QuotaInv x (e.step s).2 := by
  have heffect : Effect e s.storage (e.exec s.bridge).1 (e.step s).2.storage :=
    exec_effect e s.bridge
  have htexts : (e.step s).2.texts
      = if (e.exec s.bridge).1.isOk then e.record s.texts else s.texts := rfl
  revert heffect htexts
  generalize (e.step s).2 = s'
  generalize (e.exec s.bridge).1 = result
  intro heffect htexts
  generalize hstorage : s'.storage = st' at heffect
  cases heffect with
  | failed err => exact h.unchanged hstorage htexts
  | read answer hset hdelete =>
    refine h.unchanged hstorage ?_
    rw [htexts]
    simp only [QuotaEvent.record, hset, hdelete]
    rfl
  | wrote answer nonce k value hset hcounted =>
    have hrecord : s'.texts = s.texts.insert k value := by
      rw [htexts]
      simp only [QuotaEvent.record, hset]
      rfl
    -- the key is one of the app, or of another
    by_cases hk : ownsKey x k = true
    · refine h.set haead hk ?_ hstorage hrecord
      by_cases hcaller : e.caller = some x
      · exact hcounted x hcaller
      · exact hcareful.counted k value hset hk hcaller
    · exact h.set_other hk hstorage hrecord
  | deleted answer k hset hdelete =>
    refine h.delete hstorage ?_
    rw [htexts]
    simp only [QuotaEvent.record, hset, hdelete]
    rfl
  | reopened answer atRestKey he =>
    refine h.reopen hstorage ?_ (hcareful.readable atRestKey he)
    rw [htexts, he]
    rfl

/-- Every event of the run is careful in the state it meets. -/
def CarefulRun (x : String) : List QuotaEvent → QuotaState → Prop
  | [], _ => True
  | e :: events, s => Careful x e s ∧ CarefulRun x events (e.step s).2

/-- Induction on the events. -/
theorem quotaInv_run (haead : Prims.AeadLaws) {x : String} (events : List QuotaEvent) :
    ∀ {s : QuotaState}, QuotaInv x s → CarefulRun x events s → QuotaInv x (runQuota events s) := by
  induction events with
  | nil => exact fun h _ => h
  | cons e events ih => exact fun h hrun => ih (quotaInv_step haead h hrun.1) hrun.2

/-- **Quota.** From an empty storage, a run of careful events stays within the quota of the app.
Careful or not, an event that fails leaves the storage as it was. -/
theorem storage_quota_kept (haead : Prims.AeadLaws) (x : String) {bridge : BridgeState}
    (hempty : bridge.app.storage.miniapp = ∅) (events : List QuotaEvent) :
    (CarefulRun x events { bridge } → WithinQuota x (runQuota events { bridge }))
    ∧ ∀ (e : QuotaEvent) (err : String), (e.step (runQuota events { bridge })).1 = .error err →
      (e.step (runQuota events { bridge })).2.storage = (runQuota events { bridge }).storage := by
  refine ⟨fun hrun => (quotaInv_run haead events (quotaInv_empty hempty x) hrun).toWithinQuota, ?_⟩
  intro e err herr
  have heffect := exec_effect e (runQuota events { bridge }).bridge
  rw [show (e.exec (runQuota events { bridge }).bridge).1 = .error err from herr] at heffect
  show (e.exec (runQuota events { bridge }).bridge).2.app.storage = _
  generalize (e.exec (runQuota events { bridge }).bridge).2.app.storage = st' at heffect
  cases heffect
  rfl

/-! ## Writes that are not counted -/

/-- The foreign interface sets the same text under several keys. -/
def ffiSets (x value : String) (keys : List String) : List QuotaEvent :=
  keys.map fun key => .ffiSet (Vector.replicate 12 0) x key value

/-- All of them are kept. Induction on the keys. -/
theorem total_ffiSets {x value : String} (hvalue : validateValue value = .ok ()) (keys : List String) :
    ∀ {s : QuotaState}, (∀ key ∈ keys, validateKey key = .ok ()) → keys.Nodup →
      (∀ key ∈ keys, s.texts.lookup (scopedKey x key) = none) →
      (runQuota (ffiSets x value keys) s).total x = keys.length * value.utf8ByteSize + s.total x := by
  -- induction on the keys: each is new, so nothing is overwritten and the total grows by its value
  induction keys with
  | nil => simp [ffiSets, runQuota]
  | cons key keys ih =>
    intro s hvalid hnodup hfresh
    obtain ⟨hnew, hnodup⟩ := List.nodup_cons.mp hnodup
    have htexts : ((QuotaEvent.ffiSet (Vector.replicate 12 0) x key value).step s).2.texts
        = s.texts.insert (scopedKey x key) value := by
      unfold QuotaEvent.step QuotaEvent.exec miniappStorageSet
      simp only [hvalid key List.mem_cons_self, hvalue]
      rfl
    -- the prefix of the app is the same, so scoped keys differ where the keys do
    have hkey : ∀ key', scopedKey x key' = scopedKey x key → key' = key := by
      intro key' h
      rw [← String.toList_inj, toList_scopedKey, toList_scopedKey] at h
      exact String.toList_inj.mp (List.append_cancel_left h)
    have hrest := ih (s := ((QuotaEvent.ffiSet (Vector.replicate 12 0) x key value).step s).2)
      (fun k hk => hvalid k (List.mem_cons_of_mem key hk)) hnodup ?_
    · have hsum := KvTree.sumBy_insert String.utf8ByteSize (KvTree.restrict (ownsKey x) s.texts)
        (scopedKey x key) value
      rw [KvTree.lookup_restrict (ownsKey_scopedKey x key), hfresh key List.mem_cons_self] at hsum
      refine hrest.trans ?_
      unfold QuotaState.total
      rw [htexts, KvTree.restrict_insert, if_pos (ownsKey_scopedKey x key), List.length_cons,
        Nat.add_mul]
      simp only [Option.map_none, Option.getD_none] at hsum
      omega
    · intro k hk
      have hne : scopedKey x k ≠ scopedKey x key := by
        intro h
        rw [hkey k h] at hk
        exact hnew hk
      rw [htexts, AList.lookup_insert_ne hne]
      exact hfresh k (List.mem_cons_of_mem key hk)

end

/-- A text of `2 ^ n` bytes. -/
def doubledText : Nat → String
  | 0 => "v"
  | n + 1 => doubledText n ++ doubledText n

/-- The text doubles its length each time. -/
theorem utf8ByteSize_doubledText (n : Nat) : (doubledText n).utf8ByteSize = 2 ^ n := by
  induction n with
  | zero => decide +kernel
  | succ n ih => rw [doubledText, String.utf8ByteSize_append, ih, Nat.pow_succ]; omega

section

attribute [local instance] symbolicPrims chatEncoder symbolicCaps idleCalls

/-- The host of `com.app`, and a state in which it has a session. -/
def quotaHost : BridgeHost :=
  { appId := "com.app", permissions := [.storage], localPeerId := "", encPubkeyHex := ""
    safeMode := false, capMacKey := Vector.replicate 32 0 }

def quotaBridge : BridgeState :=
  { sessions := AList.insert "com.app" ⟨"s", 0⟩ ∅, app := blankApp ∅ }

def setArgs (key value : String) : Json :=
  .obj [("_session", .str "s"), ("key", .str key), ("value", .str value)]

/-- A set of the app, a reopening, and a set from outside that fits. -/
def mixedEvents : List QuotaEvent :=
  [.call quotaHost idleEnv .set (setArgs "k" "v"), .reopen none,
    .ffiSet (Vector.replicate 12 0) "com.app" "l" "w"]

/-- Each of the events is careful. -/
theorem mixedEvents_careful : CarefulRun "com.app" mixedEvents { bridge := quotaBridge } := by
  have hfirst := careful_own_call quotaHost idleEnv .set (setArgs "k" "v") { bridge := quotaBridge }
  have hinv := quotaInv_step symbolicPrims_aeadLaws (quotaInv_empty rfl "com.app") hfirst
  refine ⟨hfirst, ?_, ⟨?_, fun _ he => nomatch he⟩, trivial⟩
  · have hkey : ((QuotaEvent.call quotaHost idleEnv .set (setArgs "k" "v")).step
        { bridge := quotaBridge }).2.storage.atRestKey = none := by decide +kernel
    exact hkey ▸ hinv.careful_reopen
  · intro k value hset _ _
    obtain ⟨rfl, rfl⟩ : scopedKey "com.app" "l" = k ∧ "w" = value := by
      simpa [QuotaEvent.setting] using hset
    decide +kernel

/-- Two texts of one byte are stored. -/
theorem storage_quota_kept_mixed :
    (runQuota mixedEvents { bridge := quotaBridge }).total "com.app" = 2
    ∧ WithinQuota "com.app" (runQuota mixedEvents { bridge := quotaBridge }) :=
  ⟨by decide +kernel,
    (storage_quota_kept symbolicPrims_aeadLaws "com.app" rfl mixedEvents).1 mixedEvents_careful⟩

/-- Nine values of the greatest length, set through the foreign interface: 294912 bytes. -/
theorem ffi_exceeds_quota :
    ¬ WithinQuota "com.app" (runQuota
        (ffiSets "com.app" (doubledText 15) ["0", "1", "2", "3", "4", "5", "6", "7", "8"])
        { bridge := { app := blankApp ∅ } }) := by
  intro h
  have hvalue : validateValue (doubledText 15) = .ok () := by
    unfold validateValue
    rw [utf8ByteSize_doubledText, if_neg (by decide)]
  have htotal := total_ffiSets hvalue ["0", "1", "2", "3", "4", "5", "6", "7", "8"]
    (s := { bridge := { app := blankApp ∅ } }) (x := "com.app") (by decide +kernel)
    (by decide +kernel) (fun _ _ => rfl)
  rw [utf8ByteSize_doubledText] at htotal
  have hquota := h.total
  rw [htotal] at hquota
  exact absurd hquota (by decide +kernel)

end

end Mycelium.App
