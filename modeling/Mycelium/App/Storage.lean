import Mycelium.App.Message
import Mycelium.Lib.Digits
import Mycelium.Lib.KeyedRows

/-!
# Mycelium app — the app's database

Translation of the part of `mycelium-app/src/storage.rs` that messages, posts and groups reach. A
family of `sled` trees whose names carry an id (`chat:<peer>`, `groupchat:<group>`,
`bulletin:<scope>`) is one tree here, keyed by the id and the key inside the tree; names of
different families never clash. Database operations succeed and stored values are read
back as they were written.
-/

namespace Mycelium.App

inductive ContactStatus where
  | pending
  | accepted
deriving DecidableEq

structure Contact where
  peerId : String
  displayName : String
  addedAtMs : UInt64
  status : ContactStatus
deriving DecidableEq

structure Group where
  id : String
  name : String
  key : Bytes32
  members : List String
  createdAtMs : UInt64
deriving DecidableEq

/-- `Group::record_peer_seen`. -/
def Group.recordPeerSeen (g : Group) (peerId : String) : Group :=
  if peerId = "" then g
  else if peerId ∈ g.members then g
  else { g with members := g.members ++ [peerId] }

structure ScopeKey where
  scope : String
  displayName : String
  key : Bytes32
  addedAtMs : UInt64
deriving DecidableEq

/-- `AppStorage`. -/
structure AppStorage where
  /-- Trees `chat:<peer>`, keyed by timestamp. -/
  chats : KvTree.Of (String × UInt64) ChatMessage := ∅
  /-- Tree `contacts:data`. -/
  contacts : KvTree.Of String Contact := ∅
  /-- Trees `bulletin:<scope>`, keyed by expiry and id. -/
  bulletins : KvTree.Of (String × String) BulletinPost := ∅
  /-- Tree `mail:inbox`, keyed by timestamp and id. -/
  mailInbox : KvTree.Of String MailMessage := ∅
  /-- Tree `mail:sent`, keyed by timestamp and id. -/
  mailSent : KvTree.Of String MailMessage := ∅
  /-- Tree `groups:data`. -/
  groups : KvTree.Of String Group := ∅
  /-- Trees `groupchat:<group>`, keyed by timestamp and id. -/
  groupChats : KvTree.Of (String × String) ChatMessage := ∅
  /-- Tree `scope_keys`. -/
  scopeKeys : KvTree.Of String ScopeKey := ∅
  /-- Tree `miniapp_storage`: what is stored under a scoped key, as it is on disk. -/
  miniapp : KvTree.Of String Bytes := ∅
  /-- `at_rest_key`. -/
  atRestKey : Option Bytes32 := none

/-- `ts_key`: the big-endian bytes. -/
def tsKey (ts : UInt64) : Bytes := (leBytes 8 ts.toNat).reverse

/-- A tree is read in the order of its keys, compared byte by byte. -/
def byteOrder (key : Bytes) : List Nat := key.map UInt8.toNat

/-- `format!("{:020}", n)`. -/
def pad20 (n : UInt64) : String :=
  let digits := (toString n.toNat).toList
  String.ofList (List.replicate (20 - digits.length) '0' ++ digits)

/-- `ts_uuid_key`. -/
def tsUuidKey (ts : UInt64) (id : Uuid) : String := pad20 ts ++ ":" ++ id.toText

namespace AppStorage

def saveChat (st : AppStorage) (peerId : String) (msg : ChatMessage) : AppStorage :=
  { st with chats := st.chats.insert (peerId, msg.timestampMs) msg }

/-- `chat_history`. -/
def chatHistory (st : AppStorage) (peerId : String) (limit : Nat) : List ChatMessage :=
  KvTree.lastValues (fun k => byteOrder (tsKey k.2)) limit
    (KvTree.restrict (fun k => k.1 = peerId) st.chats)

def contactById (st : AppStorage) (peerId : String) : Option Contact := st.contacts.lookup peerId

def saveContact (st : AppStorage) (contact : Contact) : AppStorage :=
  { st with contacts := st.contacts.insert contact.peerId contact }

/-- `upsert_contact`; a new contact is dated `now`. -/
def upsertContact (st : AppStorage) (now : UInt64) (peerId displayName : String)
    (status : ContactStatus) : AppStorage :=
  match st.contactById peerId with
  | some existing =>
    st.saveContact { existing with
      displayName := if displayName = "" then existing.displayName else displayName
      status }
  | none => st.saveContact { peerId, displayName, addedAtMs := now, status }

def saveBulletin (st : AppStorage) (post : BulletinPost) : AppStorage :=
  { st with bulletins :=
      st.bulletins.insert (post.scope, tsUuidKey post.expiresAtMs post.id) post }

/-- `bulletins_for_scope` at `now`: in the order of their keys, without the expired ones, then
the newest first. -/
def bulletinsForScope (st : AppStorage) (now : UInt64) (scope : String) : List BulletinPost :=
  let rows := (st.bulletins.entries.filter fun e => e.1.1 = scope).mergeSort fun a b => a.1.2 ≤ b.1.2
  ((rows.map Sigma.snd).filter fun post => now ≤ post.expiresAtMs).mergeSort
    fun a b => b.timestampMs ≤ a.timestampMs

/-- `prune_expired_bulletins`, with how many it removed. -/
def pruneExpiredBulletins (st : AppStorage) (now : UInt64) : Nat × AppStorage :=
  let keys := (st.bulletins.entries.filter fun e => e.2.expiresAtMs < now).map Sigma.fst
  (keys.length, { st with bulletins := keys.foldl (fun tree k => tree.erase k) st.bulletins })

def saveMailInbox (st : AppStorage) (mail : MailMessage) : AppStorage :=
  { st with mailInbox := st.mailInbox.insert (tsUuidKey mail.timestampMs mail.id) mail }

def saveMailSent (st : AppStorage) (mail : MailMessage) : AppStorage :=
  { st with mailSent := st.mailSent.insert (tsUuidKey mail.timestampMs mail.id) mail }

/-- `newest_mails`. -/
def newestMails (tree : KvTree.Of String MailMessage) (limit : Nat) : List MailMessage :=
  KvTree.lastValues (fun k => byteOrder (asBytes k)) limit tree

def inbox (st : AppStorage) (limit : Nat) : List MailMessage := newestMails st.mailInbox limit

def sent (st : AppStorage) (limit : Nat) : List MailMessage := newestMails st.mailSent limit

def groupById (st : AppStorage) (id : String) : Option Group := st.groups.lookup id

def saveGroup (st : AppStorage) (group : Group) : AppStorage :=
  { st with groups := st.groups.insert group.id group }

def deleteGroup (st : AppStorage) (id : String) : AppStorage :=
  { st with groups := st.groups.erase id }

/-- `group_record_peer_seen`. -/
def groupRecordPeerSeen (st : AppStorage) (groupId peerId : String) : AppStorage :=
  match st.groupById groupId with
  | some g => st.saveGroup (g.recordPeerSeen peerId)
  | none => st

def saveGroupChat (st : AppStorage) (groupId : String) (msg : ChatMessage) : AppStorage :=
  { st with groupChats :=
      st.groupChats.insert (groupId, tsUuidKey msg.timestampMs msg.id) msg }

/-- `group_chat_history`. -/
def groupChatHistory (st : AppStorage) (groupId : String) (limit : Nat) : List ChatMessage :=
  KvTree.lastValues (fun k => byteOrder (asBytes k.2)) limit
    (KvTree.restrict (fun k => k.1 = groupId) st.groupChats)

def getScopeKey (st : AppStorage) (scope : String) : Option ScopeKey := st.scopeKeys.lookup scope

end AppStorage

end Mycelium.App
