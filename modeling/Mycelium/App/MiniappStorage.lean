import Mycelium.App.Storage
import Mycelium.Core.AtRest
import Mycelium.Core.Text

/-!
# Mycelium app — the storage of mini-apps

Translation of the `miniapp_*` methods of `AppStorage` (`mycelium-app/src/storage.rs`), of the
encryption of their values (`src/miniapp_storage_enc.rs`) and of the quotas
(`src/miniapp/storage_quota.rs`). All apps share one tree; an app owns the keys that begin with
`app:<id>:`, and a scan of that prefix is all that separates it from the others.

* `miniappGet` / `miniappSet` / `miniappDelete` / `miniappList` / `miniappClearAllForApp`;
* `AppStorage.owned` — the part of the tree under the prefix of an app, and what each method does
  to it and reads of it;
* `checkStorageQuota` — the quota, recomputed from that part.
-/

namespace Mycelium.App

/-! ## Values at rest -/

section

variable [Prims]

/-- `derive_record_key`; the expansion to 32 bytes cannot fail. -/
def deriveRecordKey (master : Bytes32) (scopedKey : String) : Bytes32 :=
  Prims.hkdfSha256 master.toList (asBytes ("mycelium-miniapp-kv:" ++ scopedKey))

/-- `encrypt_value`, with the nonce it draws. -/
def encryptValue (master : Bytes32) (scopedKey : String) (nonce : Vector UInt8 12)
    (plaintext : String) : Bytes :=
  asBytes "enc1:" ++ (nonce.toList
    ++ Prims.chachaEncrypt (deriveRecordKey master scopedKey) nonce.toList (asBytes plaintext))

/-- `decrypt_value`; what does not begin with the mark was stored in the clear. -/
def decryptValue (master : Bytes32) (scopedKey : String) (blob : Bytes) : Except String String :=
  if (asBytes "enc1:").isPrefixOf blob then
    let rest := blob.drop 5
    if rest.length < 12 + 16 then .error "truncated encrypted miniapp value"
    else
      match Prims.chachaDecrypt (deriveRecordKey master scopedKey) (rest.take 12) (rest.drop 12) with
      | none => .error "miniapp storage decrypt failed"
      | some pt =>
        match fromUtf8 pt with
        | none => .error "invalid decrypted utf8"
        | some s => .ok s
  else
    match fromUtf8 blob with
    | none => .error "invalid miniapp storage utf8"
    | some s => .ok s

namespace AppStorage

/-- `encode_miniapp_value`. -/
def encodeMiniappValue (atRestKey : Option Bytes32) (scopedKey : String) (nonce : Vector UInt8 12)
    (value : String) : Bytes :=
  match atRestKey with
  | some master => encryptValue master scopedKey nonce value
  | none => asBytes value

/-- `decode_miniapp_value`; reading text loses nothing of valid UTF-8. -/
def decodeMiniappValue (atRestKey : Option Bytes32) (scopedKey : String) (blob : Bytes) :
    Except String String :=
  match atRestKey with
  | some master => decryptValue master scopedKey blob
  | none => .ok ((fromUtf8 blob).getD (fromUtf8Lossy blob))

/-- `miniapp_get`. -/
def miniappGet (st : AppStorage) (scopedKey : String) : Except String (Option String) :=
  match st.miniapp.lookup scopedKey with
  | none => .ok none
  | some blob => (decodeMiniappValue st.atRestKey scopedKey blob).map some

/-- `miniapp_set`. -/
def miniappSet (st : AppStorage) (nonce : Vector UInt8 12) (scopedKey value : String) : AppStorage :=
  { st with miniapp :=
      st.miniapp.insert scopedKey (encodeMiniappValue st.atRestKey scopedKey nonce value) }

end AppStorage

end

namespace AppStorage

/-- `miniapp_delete`. -/
def miniappDelete (st : AppStorage) (scopedKey : String) : AppStorage :=
  { st with miniapp := st.miniapp.erase scopedKey }

/-- The keys of `scan_prefix`. -/
def scanPrefix (t : KvTree.Of String Bytes) (scopedPrefix : String) : List String :=
  (t.entries.map Sigma.fst).filter (startsWith · scopedPrefix)

/-- `miniapp_list`. -/
def miniappList (st : AppStorage) (scopedPrefix : String) : List String :=
  (scanPrefix st.miniapp scopedPrefix).mergeSort fun a b => a ≤ b

/-- The prefix of the keys of an app, `app:<id>:`. -/
def appPrefix (appId : String) : String := "app:" ++ appId ++ ":"

/-- `miniapp_clear_all_for_app`. -/
def miniappClearAllForApp (st : AppStorage) (appId : String) : AppStorage :=
  { st with miniapp :=
      (scanPrefix st.miniapp (appPrefix appId)).foldl (fun t k => t.erase k) st.miniapp }

end AppStorage

/-- `scoped_key`, and `scoped_prefix`. -/
def scopedKey (appId key : String) : String := "app:" ++ appId ++ ":" ++ key

/-! ## Quotas -/

/-- `MAX_KEY_LEN`. -/
def maxKeyLen : Nat := 128

/-- `MAX_VALUE_LEN`. -/
def maxValueLen : Nat := 32 * 1024

/-- `MAX_KEYS_PER_APP`. -/
def maxKeysPerApp : Nat := 256

/-- `MAX_TOTAL_BYTES_PER_APP`. -/
def maxTotalBytesPerApp : Nat := 256 * 1024

/-- `validate_key`. -/
def validateKey (key : String) : Except String Unit :=
  if key = "" then .error "storage key must not be empty"
  else if maxKeyLen < key.utf8ByteSize then .error "storage key exceeds 128 bytes"
  else if key.toList.contains '\x00' then .error "storage key contains invalid characters"
  else .ok ()

/-- `validate_value`. -/
def validateValue (value : String) : Except String Unit :=
  if maxValueLen < value.utf8ByteSize then .error "storage value exceeds 32768 bytes" else .ok ()

section

variable [Prims]

namespace AppStorage

/-- The length of a stored value, zero if it cannot be read. -/
def readableLen (st : AppStorage) (k : String) : Nat :=
  match st.miniappGet k with
  | .ok (some v) => v.utf8ByteSize
  | _ => 0

/-- `check_storage_quota`: a key that is there already is not counted again, nor is its value. -/
def checkStorageQuota (st : AppStorage) (appId scopedKey : String) (newValueLen : Nat) :
    Except String Unit :=
  let keys := st.miniappList (appPrefix appId)
  if !keys.contains scopedKey && maxKeysPerApp ≤ keys.length then
    .error "storage key limit exceeded (256)"
  else
    let total := keys.foldl
      (fun total k => if k = scopedKey then total else total + st.readableLen k) newValueLen
    if maxTotalBytesPerApp < total then .error "storage quota exceeded (262144 bytes per app)"
    else .ok ()

end AppStorage

/-- `miniapp_storage_set` of the foreign interface; an error is the text of a panic. -/
def miniappStorageSet (nonce : Vector UInt8 12) (appId key value : String) (st : AppStorage) :
    Except String Unit × AppStorage :=
  match validateKey key with
  | .error e => (.error ("miniapp storage set: " ++ e), st)
  | .ok () =>
    match validateValue value with
    | .error e => (.error ("miniapp storage set: " ++ e), st)
    | .ok () => (.ok (), st.miniappSet nonce (scopedKey appId key) value)

omit [Prims] in
/-- `miniapp_storage_delete` of the foreign interface. -/
def miniappStorageDelete (appId key : String) (st : AppStorage) : AppStorage :=
  st.miniappDelete (scopedKey appId key)

end

/-! ## What an app owns -/

/-- The key is among those of the app. -/
def ownsKey (appId k : String) : Bool := startsWith k (AppStorage.appPrefix appId)

/-- The part of the tree that belongs to the app. -/
def AppStorage.owned (st : AppStorage) (appId : String) : KvTree.Of String Bytes :=
  KvTree.restrict (ownsKey appId) st.miniapp

/-- The characters of the prefix of an app. -/
theorem toList_appPrefix (appId : String) :
    (AppStorage.appPrefix appId).toList = "app:".toList ++ (appId.toList ++ [':']) := by
  simp [AppStorage.appPrefix]

/-- A scoped key begins with it. -/
theorem toList_scopedKey (appId key : String) :
    (scopedKey appId key).toList = (AppStorage.appPrefix appId).toList ++ key.toList := by
  simp [scopedKey, AppStorage.appPrefix]

/-- An app owns its keys. -/
theorem ownsKey_scopedKey (appId key : String) : ownsKey appId (scopedKey appId key) = true := by
  rw [ownsKey, startsWith_iff, toList_scopedKey]
  exact List.prefix_append _ _

/-- One id continues the other behind a colon. -/
def Nested (x y : String) : Prop :=
  startsWith y (x ++ ":") = true ∨ startsWith x (y ++ ":") = true

/-- A prefix of one app that begins the prefix of another. -/
theorem startsWith_of_appPrefix {x y : String} (hne : x ≠ y)
    (h : (AppStorage.appPrefix x).toList <+: (AppStorage.appPrefix y).toList) :
    startsWith y (x ++ ":") = true := by
  rw [toList_appPrefix, toList_appPrefix, List.prefix_append_right_inj] at h
  rw [startsWith_iff, String.toList_append]
  obtain ⟨rest, hrest⟩ := h
  rcases List.eq_nil_or_concat rest with rfl | ⟨rest', c, rfl⟩
  · rw [List.append_nil] at hrest
    exact absurd (String.toList_inj.mp (List.append_inj_left' hrest rfl)) hne
  · rw [List.concat_eq_append, ← List.append_assoc] at hrest
    exact ⟨rest', List.append_inj_left' hrest rfl⟩

/-- **Keys in two ranges.** Two different apps own a key in common only if one id continues the
other behind a colon. -/
theorem nested_of_ownsKey {x y k : String} (hne : x ≠ y) (hx : ownsKey x k = true)
    (hy : ownsKey y k = true) : Nested x y := by
  rw [ownsKey, startsWith_iff] at hx hy
  rcases List.prefix_or_prefix_of_prefix hx hy with h | h
  · exact .inl (startsWith_of_appPrefix hne h)
  · exact .inr (startsWith_of_appPrefix (Ne.symm hne) h)

/-- And then the keys of the longer one are all in common. -/
theorem ownsKey_of_startsWith {x y key : String} (h : startsWith y (x ++ ":") = true) :
    ownsKey x (scopedKey y key) = true := by
  rw [startsWith_iff, String.toList_append] at h
  rw [ownsKey, startsWith_iff, toList_scopedKey, toList_appPrefix, toList_appPrefix,
    List.append_assoc, List.append_assoc, List.prefix_append_right_inj]
  exact (h : x.toList ++ [':'] <+: y.toList).trans (List.prefix_append _ _)

/-- An id is not nested in itself. -/
theorem Nested.ne {x y : String} (h : Nested x y) : x ≠ y := by
  rintro rfl
  have hself : startsWith x (x ++ ":") = true := h.elim id id
  rw [startsWith_iff] at hself
  have hlen := hself.length_le
  simp at hlen

/-- The first key of the longer id belongs to both. -/
theorem Nested.common_key {x y : String} (h : Nested x y) :
    ∃ k, ownsKey x k = true ∧ ownsKey y k = true := by
  rcases h with h | h
  · exact ⟨scopedKey y "", ownsKey_of_startsWith h, ownsKey_scopedKey y ""⟩
  · exact ⟨scopedKey x "", ownsKey_scopedKey x "", ownsKey_of_startsWith h⟩

namespace AppStorage

/-- Deleting a key takes it from its owners. -/
theorem owned_miniappDelete (st : AppStorage) (x k : String) :
    (st.miniappDelete k).owned x = if ownsKey x k then (st.owned x).erase k else st.owned x :=
  KvTree.restrict_erase _ _ _

/-- Setting a key gives it to its owners. -/
theorem owned_miniappSet [Prims] (st : AppStorage) (nonce : Vector UInt8 12) (x k value : String) :
    (st.miniappSet nonce k value).owned x
      = if ownsKey x k then (st.owned x).insert k (encodeMiniappValue st.atRestKey k nonce value)
        else st.owned x :=
  KvTree.restrict_insert _ _ _ _

/-- A scan of a prefix inside the range of an app sees the keys of the app only. -/
theorem scanPrefix_owned (st : AppStorage) (x key : String) :
    scanPrefix st.miniapp (scopedKey x key) = scanPrefix (st.owned x) (scopedKey x key) := by
  have hinside : ∀ k, startsWith k (scopedKey x key) = true → ownsKey x k = true := by
    intro k hk
    rw [startsWith_iff, toList_scopedKey] at hk
    rw [ownsKey, startsWith_iff]
    exact (List.prefix_append _ _).trans hk
  unfold scanPrefix
  show _ = ((st.miniapp.entries.filter fun e => ownsKey x e.1).map Sigma.fst).filter _
  rw [List.filter_map, List.filter_map, List.filter_filter]
  congr 1
  refine List.filter_congr fun e _ => ?_
  show startsWith e.1 _ = (startsWith e.1 _ && ownsKey x e.1)
  cases h : startsWith e.1 (scopedKey x key) with
  | false => rfl
  | true => rw [hinside e.1 h, Bool.and_self]

/-- The prefix is the scoped key without a key. -/
theorem appPrefix_eq_scopedKey (x : String) : appPrefix x = scopedKey x "" := by
  apply String.toList_inj.mp
  rw [toList_scopedKey]
  simp

/-- Clearing an app takes its keys from everybody who owns them. -/
theorem owned_miniappClear (st : AppStorage) (x y : String) :
    (st.miniappClearAllForApp y).owned x
      = ((scanPrefix st.miniapp (appPrefix y)).filter (ownsKey x)).foldl (fun t k => t.erase k)
          (st.owned x) :=
  KvTree.restrict_foldl_erase _ _ _

/-- The listed keys of an app are keys it owns. -/
theorem ownsKey_of_mem_miniappList {st : AppStorage} {x k : String}
    (h : k ∈ st.miniappList (appPrefix x)) : ownsKey x k = true := by
  rw [miniappList, List.mem_mergeSort] at h
  exact (List.mem_filter.mp h).2

/-! ## Two storages that look the same to an app -/

/-- The app owns the same in both, and both are read with the same key. -/
structure LooksLike (x : String) (st st' : AppStorage) : Prop where
  owned : st.owned x = st'.owned x
  atRestKey : st.atRestKey = st'.atRestKey

namespace LooksLike

variable {x : String} {st st' : AppStorage} (h : LooksLike x st st')

include h

/-- A value is read from the rows of its owner. -/
theorem miniappGet [Prims] {k : String} (hk : ownsKey x k = true) :
    st.miniappGet k = st'.miniappGet k := by
  have hlookup : st.miniapp.lookup k = st'.miniapp.lookup k := by
    rw [← KvTree.lookup_restrict hk, ← KvTree.lookup_restrict hk st'.miniapp]
    exact congrArg (·.lookup k) h.owned
  unfold AppStorage.miniappGet
  rw [hlookup, h.atRestKey]

/-- So are the keys with a prefix. -/
theorem scanPrefix (key : String) :
    AppStorage.scanPrefix st.miniapp (scopedKey x key)
      = AppStorage.scanPrefix st'.miniapp (scopedKey x key) := by
  rw [scanPrefix_owned, scanPrefix_owned, h.owned]

/-- So are the keys an app lists. -/
theorem miniappList (key : String) :
    st.miniappList (scopedKey x key) = st'.miniappList (scopedKey x key) := by
  unfold AppStorage.miniappList
  rw [h.scanPrefix]

/-- So is the quota. -/
theorem checkStorageQuota [Prims] (key : String) (newValueLen : Nat) :
    st.checkStorageQuota x (scopedKey x key) newValueLen
      = st'.checkStorageQuota x (scopedKey x key) newValueLen := by
  have hlist : st.miniappList (appPrefix x) = st'.miniappList (appPrefix x) := by
    rw [appPrefix_eq_scopedKey]
    exact h.miniappList ""
  have hlen : ∀ k ∈ st'.miniappList (appPrefix x), st.readableLen k = st'.readableLen k := by
    intro k hk
    unfold AppStorage.readableLen
    rw [h.miniappGet (ownsKey_of_mem_miniappList hk)]
  have htotal : (st'.miniappList (appPrefix x)).foldl
        (fun total k => if k = scopedKey x key then total else total + st.readableLen k) newValueLen
      = (st'.miniappList (appPrefix x)).foldl
        (fun total k => if k = scopedKey x key then total else total + st'.readableLen k)
        newValueLen := by
    refine List.foldl_ext _ _ _ fun total k hk => ?_
    rw [hlen k hk]
  unfold AppStorage.checkStorageQuota
  simp only [hlist, htotal]

end LooksLike

end AppStorage

end Mycelium.App
