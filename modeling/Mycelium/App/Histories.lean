import Mycelium.App.Storage
import Mycelium.Core.Text

/-!
# Mycelium app — chat, mail and group histories

A history is read from the end of its tree, so it is the newest messages if the keys sort like the
timestamps. All keys begin with the timestamp; those of mails and group messages go on with the id,
those of chat messages do not (`ts_uuid_key` and `ts_key` of `mycelium-app/src/storage.rs`).

* `tsKey_lt`, `tsUuidKey_lt` — the keys sort like the timestamps;
* `chat_history_complete_iff` — chat histories keep every message exactly if no two share a
  timestamp;
* `boxes_newest` — mails and group messages are all kept, and the newest are read first.
-/

namespace Mycelium.App

open KvTree

/-! ## The order of the keys -/

theorem tsKey_lt {ts ts' : UInt64} (h : ts < ts') : byteOrder (tsKey ts) < byteOrder (tsKey ts') := by
  have hdigits : ∀ ts : UInt64, byteOrder (tsKey ts)
      = (padDigits 256 8 ts.toNat).map fun d => (UInt8.ofNat d).toNat := by
    intro ts
    rw [byteOrder, tsKey, reverse_leBytes, List.map_map]
    rfl
  have hbyte : ∀ d < 256, ∀ d' < 256, d < d' → (UInt8.ofNat d).toNat < (UInt8.ofNat d').toNat := by
    intro d hd d' hd' hlt
    rwa [UInt8.toNat_ofNat_of_lt' hd, UInt8.toNat_ofNat_of_lt' hd']
  have hlt := padDigits_append_lt (b := 256) (w := 8) (U64.toNat_lt ts') (U64.lt_iff.mp h) hbyte [] []
  rwa [List.append_nil, List.append_nil, ← hdigits, ← hdigits] at hlt

/-- The digits of `{:020}`. -/
theorem toList_pad20 (n : UInt64) :
    (pad20 n).toList = (padDigits 10 20 n.toNat).map Nat.digitChar := by
  have hbound : n.toNat < 10 ^ 20 := (U64.toNat_lt n).trans (by decide)
  have htext : (toString n.toNat).toList = Nat.toDigits 10 n.toNat := by
    rw [Nat.toString_eq_ofList_toDigits, String.toList_ofList]
  rw [pad20, String.toList_ofList, htext, replicate_append_toDigits (by decide) hbound]

theorem byteOrder_pad20 (n : UInt64) :
    byteOrder (asBytes (pad20 n)) = (padDigits 10 20 n.toNat).map (· + 48) := by
  have hchar : ∀ d < 10, (String.utf8EncodeChar (Nat.digitChar d)).map UInt8.toNat = [d + 48] := by
    decide
  have htext : pad20 n = String.ofList ((padDigits 10 20 n.toNat).map Nat.digitChar) := by
    rw [← toList_pad20, String.ofList_toList]
  rw [htext, asBytes_ofList, byteOrder, List.flatMap_map, List.map_flatMap]
  have hdigits : ∀ l : List Nat, (∀ d ∈ l, d < 10) →
      (l.flatMap fun d => (String.utf8EncodeChar (Nat.digitChar d)).map UInt8.toNat)
        = l.map (· + 48) := by
    intro l hl
    induction l with
    | nil => rfl
    | cons d l ih =>
      rw [List.flatMap_cons, hchar d (hl d List.mem_cons_self),
        ih fun d hd => hl d (List.mem_cons_of_mem _ hd)]
      rfl
  exact hdigits _ fun d hd => lt_of_mem_padDigits (by decide) hd

theorem tsUuidKey_lt {ts ts' : UInt64} (h : ts < ts') (id id' : Uuid) :
    byteOrder (asBytes (tsUuidKey ts id)) < byteOrder (asBytes (tsUuidKey ts' id')) := by
  have hsplit : ∀ (ts : UInt64) (id : Uuid), byteOrder (asBytes (tsUuidKey ts id))
      = (padDigits 10 20 ts.toNat).map (· + 48) ++ byteOrder (asBytes (":" ++ id.toText)) := by
    intro ts id
    rw [tsUuidKey, String.append_assoc, asBytes_append, byteOrder, List.map_append]
    rw [← byteOrder_pad20]
    rfl
  rw [hsplit, hsplit]
  refine padDigits_append_lt ((U64.toNat_lt ts').trans (by decide)) (U64.lt_iff.mp h) ?_ _ _
  intro d _ d' _ hlt
  omega

/-! ## Keys that tell posts and messages apart -/

theorem pad20_injective : Function.Injective pad20 := by
  intro n m h
  have hless : ∀ {n m : UInt64}, n < m → pad20 n ≠ pad20 m := by
    intro n m hlt heq
    have hkeys := tsUuidKey_lt hlt ⟨Vector.replicate 16 0⟩ ⟨Vector.replicate 16 0⟩
    rw [tsUuidKey, tsUuidKey, heq] at hkeys
    exact lt_irrefl _ hkeys
  by_contra hne
  have hnat : n.toNat ≠ m.toNat := fun heq => hne (UInt64.toNat_inj.mp heq)
  rcases Nat.lt_or_gt_of_ne hnat with hlt | hlt
  · exact hless (U64.lt_iff.mpr hlt) h
  · exact hless (U64.lt_iff.mpr hlt) h.symm

theorem length_toList_pad20 (n : UInt64) : (pad20 n).toList.length = 20 := by
  rw [toList_pad20, List.length_map, length_padDigits]

/-- Without the hyphens it is the digits of the id. -/
theorem filter_toText (id : Uuid) :
    id.toText.toList.filter (· ≠ '-') = (hexEncode id.bytes.toList).toList := by
  have hdigit : ∀ n < 16, Nat.digitChar n ≠ '-' := by decide
  have hkept : ∀ part : List Char, (∀ c ∈ part, c ∈ (hexEncode id.bytes.toList).toList) →
      part.filter (· ≠ '-') = part := by
    intro part hpart
    refine List.filter_eq_self.mpr fun c hc => ?_
    obtain ⟨n, hn, rfl⟩ := mem_hexEncode (hpart c hc)
    exact decide_eq_true (hdigit n hn)
  have hhyphen : ∀ part : List Char, ('-' :: part).filter (· ≠ '-') = part.filter (· ≠ '-') :=
    fun part => List.filter_cons_of_neg (by decide)
  rw [Uuid.toText, String.toList_ofList]
  generalize (hexEncode id.bytes.toList).toList = hex at hkept ⊢
  simp only [List.filter_append, hhyphen]
  rw [hkept _ fun c hc => List.mem_of_mem_take hc,
    hkept _ fun c hc => List.mem_of_mem_drop (List.mem_of_mem_take hc),
    hkept _ fun c hc => List.mem_of_mem_drop (List.mem_of_mem_take hc),
    hkept _ fun c hc => List.mem_of_mem_drop (List.mem_of_mem_take hc),
    hkept _ fun c hc => List.mem_of_mem_drop hc]
  rw [← List.take_add, ← List.take_add, ← List.take_add, List.take_append_drop]

theorem toText_injective : Function.Injective Uuid.toText := by
  intro id id' h
  have hhex : hexEncode id.bytes.toList = hexEncode id'.bytes.toList := by
    rw [← String.toList_inj, ← filter_toText, ← filter_toText, h]
  have hbytes := congrArg hexDecode hhex
  rw [hexDecode_hexEncode, hexDecode_hexEncode, Option.some.injEq] at hbytes
  cases id
  cases id'
  exact congrArg Uuid.mk (Vector.toList_inj.mp hbytes)

theorem tsUuidKey_inj {ts ts' : UInt64} {id id' : Uuid} :
    tsUuidKey ts id = tsUuidKey ts' id' ↔ ts = ts' ∧ id = id' := by
  constructor
  · intro h
    have hlists : (pad20 ts).toList ++ (":".toList ++ id.toText.toList)
        = (pad20 ts').toList ++ (":".toList ++ id'.toText.toList) := by
      simpa only [tsUuidKey, String.toList_append, List.append_assoc] using congrArg String.toList h
    have hlength : (pad20 ts).toList.length = (pad20 ts').toList.length :=
      (length_toList_pad20 ts).trans (length_toList_pad20 ts').symm
    obtain ⟨hpad, hrest⟩ := List.append_inj hlists hlength
    have htext := List.append_cancel_left hrest
    exact ⟨pad20_injective (String.toList_inj.mp hpad), toText_injective (String.toList_inj.mp htext)⟩
  · rintro ⟨rfl, rfl⟩
    rfl

/-! ## Chat histories -/

/-- The chat messages saved under a peer, in the order of the calls. -/
def savedUnder (peer : String) (saves : List (String × ChatMessage)) : List ChatMessage :=
  saves.filterMap fun e => if e.1 = peer then some e.2 else none

def AppStorage.saveChats (st : AppStorage) (saves : List (String × ChatMessage)) : AppStorage :=
  saves.foldl (fun st e => st.saveChat e.1 e.2) st

/-- The tree of a peer. -/
theorem restrict_saveChats (peer : String) (saves : List (String × ChatMessage)) :
    restrict (fun k => k.1 = peer) (AppStorage.saveChats {} saves).chats
      = rows (fun m => (peer, m.timestampMs)) (savedUnder peer saves) := by
  refine foldl_eq_rows (s := {}) (fun st : AppStorage => restrict (fun k => k.1 = peer) st.chats)
    rfl (fun st e => ?_) saves
  show restrict _ (st.chats.insert (e.1, e.2.timestampMs) e.2) = _
  rw [restrict_insert]
  by_cases hpeer : e.1 = peer
  · simp [hpeer]
  · simp [hpeer]

/-- **Chat histories.** After any sequence of saves, a history with room for all of them holds
every message saved under the peer exactly once, newest first, if and only if no two of them have
the same timestamp. -/
theorem chat_history_complete_iff (saves : List (String × ChatMessage)) (peer : String)
    {limit : Nat} (hlimit : saves.length ≤ limit) :
    (((AppStorage.saveChats {} saves).chatHistory peer limit).Perm (savedUnder peer saves)
      ∧ ((AppStorage.saveChats {} saves).chatHistory peer limit).Pairwise
        fun m m' => m'.timestampMs ≤ m.timestampMs)
      ↔ ((savedUnder peer saves).map ChatMessage.timestampMs).Nodup := by
  have hkeys : ((savedUnder peer saves).map fun m => (peer, m.timestampMs)).Nodup
      ↔ ((savedUnder peer saves).map ChatMessage.timestampMs).Nodup := by
    have hpair : ((savedUnder peer saves).map fun m => (peer, m.timestampMs))
        = ((savedUnder peer saves).map ChatMessage.timestampMs).map (Prod.mk peer) := by
      rw [List.map_map]
      rfl
    rw [hpair]
    exact List.nodup_map_iff (Prod.mk_right_injective peer)
  have hroom : (savedUnder peer saves).length ≤ limit := by
    have hfiltered := List.length_filterMap_le
      (fun e : String × ChatMessage => if e.1 = peer then some e.2 else none) saves
    rw [savedUnder]
    omega
  rw [← hkeys, AppStorage.chatHistory, restrict_saveChats]
  constructor
  · rintro ⟨hperm, -⟩
    -- the tree has one row for a key, so nothing with its key can be among what is read
    have hkey : ∀ (k : String × UInt64) m,
        (rows (fun m => (peer, m.timestampMs)) (savedUnder peer saves)).lookup k = some m →
          (peer, m.timestampMs) = k := fun k m => key_of_lookup_rows
    exact (hperm.map _).nodup_iff.mp (nodup_map_lastValues hkey _ limit)
  · intro hnodup
    have hnewest : Newest (fun m : ChatMessage => m.timestampMs.toNat) limit (savedUnder peer saves)
        (lastValues (fun k : String × UInt64 => byteOrder (tsKey k.2)) limit
          (rows (fun m => (peer, m.timestampMs)) (savedUnder peer saves))) := by
      refine newest_rows (fun m m' hlt => ?_) hnodup limit
      exact tsKey_lt (U64.lt_iff.mpr hlt)
    exact ⟨hnewest.perm hroom, hnewest.sorted.imp fun hle => U64.le_iff.mpr hle⟩

/-- A message, told from others by its id. -/
def symbolicChatAt (n : UInt8) (ts : UInt64) : ChatMessage :=
  { id := ⟨Vector.replicate 16 n⟩, fromDisplayName := "", body := "", timestampMs := ts, replyTo := none }

/-- Of two messages of one millisecond the first is gone. -/
theorem chat_history_loses_message :
    ([("p", symbolicChatAt 1 5), ("p", symbolicChatAt 2 5)].map fun e => e.2.id).Nodup
    ∧ (AppStorage.saveChats {} [("p", symbolicChatAt 1 5), ("p", symbolicChatAt 2 5)]).chatHistory "p" 2
        = [symbolicChatAt 2 5]
    ∧ ¬ ((AppStorage.saveChats {} [("p", symbolicChatAt 1 5), ("p", symbolicChatAt 2 5)]).chatHistory
        "p" 2).Perm (savedUnder "p" [("p", symbolicChatAt 1 5), ("p", symbolicChatAt 2 5)]) := by
  decide +kernel

theorem chat_history_complete_later :
    ((AppStorage.saveChats {} [("p", symbolicChatAt 1 5), ("p", symbolicChatAt 2 6)]).chatHistory
      "p" 2).Perm [symbolicChatAt 1 5, symbolicChatAt 2 6] :=
  ((chat_history_complete_iff [("p", symbolicChatAt 1 5), ("p", symbolicChatAt 2 6)] "p"
    (le_refl 2)).mpr (by decide +kernel)).1

/-! ## Mails and group messages -/

/-- The calls that save a mail or a group message. -/
inductive BoxSave where
  | inbox (mail : MailMessage)
  | sent (mail : MailMessage)
  | groupChat (groupId : String) (msg : ChatMessage)

namespace BoxSave

def id : BoxSave → Uuid
  | .inbox mail => mail.id
  | .sent mail => mail.id
  | .groupChat _ msg => msg.id

def run (st : AppStorage) : BoxSave → AppStorage
  | .inbox mail => st.saveMailInbox mail
  | .sent mail => st.saveMailSent mail
  | .groupChat groupId msg => st.saveGroupChat groupId msg

def toInbox : BoxSave → Option MailMessage
  | .inbox mail => some mail
  | _ => none

def toSent : BoxSave → Option MailMessage
  | .sent mail => some mail
  | _ => none

def toGroup (groupId : String) : BoxSave → Option ChatMessage
  | .groupChat groupId' msg => if groupId' = groupId then some msg else none
  | _ => none

end BoxSave

/-- A box whose tree has the rows of its own saves. Ids that are different make different keys,
which sort like the timestamps. -/
theorem newest_box {α K : Type} [DecidableEq K] {f : BoxSave → Option α} {time : α → UInt64}
    {id : α → Uuid} (hid : ∀ e a, f e = some a → id a = e.id) {place : String → K}
    (hplace : Function.Injective place) {ord : K → List Nat}
    (hord : ∀ key, ord (place key) = byteOrder (asBytes key)) {saves : List BoxSave}
    (hids : (saves.map BoxSave.id).Nodup) {tree : Of K α}
    (htree : tree = rows (fun a => place (tsUuidKey (time a) (id a))) (saves.filterMap f))
    (limit : Nat) :
    Newest (fun a => (time a).toNat) limit (saves.filterMap f) (lastValues ord limit tree) := by
  rw [htree]
  refine newest_rows (fun a a' hlt => ?_) ?_ limit
  · rw [hord, hord]
    exact tsUuidKey_lt (U64.lt_iff.mpr hlt) _ _
  · rw [List.Nodup, List.pairwise_map] at hids ⊢
    refine hids.filterMap f ?_
    intro e e' hne a ha a' ha' hkey
    have hsame := (tsUuidKey_inj.mp (hplace hkey)).2
    rw [hid e a ha, hid e' a' ha'] at hsame
    exact hne hsame

/-- **Mails and group messages.** After any sequence of saves whose ids are all different, inbox,
sent mails and the history of every group hold as many of their own messages as are asked for, or
all of them, each once, newest first, and nothing left out is newer than what is returned. -/
theorem boxes_newest {saves : List BoxSave} (hids : (saves.map BoxSave.id).Nodup) (limit : Nat) :
    Newest (fun m : MailMessage => m.timestampMs.toNat) limit (saves.filterMap BoxSave.toInbox)
      ((saves.foldl BoxSave.run {}).inbox limit)
    ∧ Newest (fun m : MailMessage => m.timestampMs.toNat) limit (saves.filterMap BoxSave.toSent)
      ((saves.foldl BoxSave.run {}).sent limit)
    ∧ ∀ groupId, Newest (fun m : ChatMessage => m.timestampMs.toNat) limit
      (saves.filterMap (BoxSave.toGroup groupId))
      ((saves.foldl BoxSave.run {}).groupChatHistory groupId limit) := by
  -- the two mail boxes and the box of a group are instances of one law of boxes
  have hinbox : ∀ e mail, BoxSave.toInbox e = some mail → mail.id = e.id := by
    rintro (mail | mail | ⟨groupId, msg⟩) _ h <;> cases h
    rfl
  have hsent : ∀ e mail, BoxSave.toSent e = some mail → mail.id = e.id := by
    rintro (mail | mail | ⟨groupId, msg⟩) _ h <;> cases h
    rfl
  refine ⟨?_, ?_, fun groupId => ?_⟩
  · refine newest_box hinbox Function.injective_id (fun _ => rfl) hids ?_ limit
    exact foldl_eq_rows AppStorage.mailInbox rfl (fun st e => by cases e <;> rfl) saves
  · refine newest_box hsent Function.injective_id (fun _ => rfl) hids ?_ limit
    exact foldl_eq_rows AppStorage.mailSent rfl (fun st e => by cases e <;> rfl) saves
  · have hgroup : ∀ e msg, BoxSave.toGroup groupId e = some msg → msg.id = e.id := by
      rintro (mail | mail | ⟨groupId', msg⟩) msg' h
      · cases h
      · cases h
      · obtain ⟨-, h⟩ := Option.ite_none_right_eq_some.mp h
        exact congrArg ChatMessage.id (Option.some.inj h).symm
    refine newest_box hgroup (Prod.mk_right_injective groupId) (fun _ => rfl) hids ?_ limit
    refine foldl_eq_rows (s := {})
      (fun st : AppStorage => restrict (fun k => k.1 = groupId) st.groupChats) rfl (fun st e => ?_) saves
    cases e with
    | inbox mail => rfl
    | sent mail => rfl
    -- a chat filed in another group is not in this group's rows
    | groupChat groupId' msg =>
      show restrict _ (st.groupChats.insert (groupId', tsUuidKey msg.timestampMs msg.id) msg) = _
      rw [restrict_insert]
      by_cases hgroupId : groupId' = groupId
      · simp [BoxSave.toGroup, hgroupId]
      · simp [BoxSave.toGroup, hgroupId]

/-- A mail, told from others by its id. -/
def symbolicMailAt (n : UInt8) (ts : UInt64) : MailMessage :=
  { id := ⟨Vector.replicate 16 n⟩, fromPeer := "", fromDisplayName := "", toPeer := "", subject := ""
    body := "", timestampMs := ts, attachments := [] }

/-- Two mails of one millisecond and a later one, of which the newest two are asked for. -/
theorem boxes_newest_mails :
    ((([.inbox (symbolicMailAt 1 5), .inbox (symbolicMailAt 2 5), .inbox (symbolicMailAt 3 10)]
      : List BoxSave).foldl BoxSave.run {}).inbox 2).length = 2 :=
  (@boxes_newest [.inbox (symbolicMailAt 1 5), .inbox (symbolicMailAt 2 5),
    .inbox (symbolicMailAt 3 10)] (by decide +kernel) 2).1.length

end Mycelium.App
