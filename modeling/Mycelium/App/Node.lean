import Mycelium.App.Storage
import Mycelium.Core.Crypto
import Mycelium.Node.State

/-!
# Mycelium app — what an incoming message does

Translation of `AppNode::dispatch_incoming` and of the handlers it calls
(`mycelium-app/src/node.rs`, `src/proximity/`). The app is a state; handling a message
changes its storage and its proximity tables and produces outputs: notifications, messages
for the app's own channels, and calls to the coin node and to the app store, whose results
are only logged.

* `dispatchIncoming` — by the body tag: group, proximity, bulletin, else the payload;
* `handleChat` / `handlePayload` — one program per `AppPayload`.

The clock is read at most once on every path, so a reading is an argument.
-/

namespace Mycelium.App

/-! ## Proximity tables -/

/-- `ProximityMatchState`. -/
structure ProximityMatchState where
  outgoing : List String := []
  incoming : List String := []
deriving DecidableEq

namespace ProximityMatchState

def recordIncoming (s : ProximityMatchState) (encPubkeyHex : String) : ProximityMatchState :=
  { s with incoming :=
      if encPubkeyHex ∈ s.incoming then s.incoming else s.incoming ++ [encPubkeyHex] }

def interestSent (s : ProximityMatchState) (encPubkeyHex : String) : Bool :=
  s.outgoing.contains encPubkeyHex

def interestReceived (s : ProximityMatchState) (encPubkeyHex : String) : Bool :=
  s.incoming.contains encPubkeyHex

def isMutual (s : ProximityMatchState) (encPubkeyHex : String) : Bool :=
  s.interestSent encPubkeyHex && s.interestReceived encPubkeyHex

end ProximityMatchState

structure ProximityReceivedMessage where
  fromEncPubkeyHex : String
  body : String
  receivedAtMs : UInt64
deriving DecidableEq

/-- `ProximityInbox::push`: at most 200 messages, the oldest go first. -/
def inboxPush (messages : List ProximityReceivedMessage) (msg : ProximityReceivedMessage) :
    List ProximityReceivedMessage :=
  (if 200 ≤ messages.length then messages.tail else messages) ++ [msg]

/-- The entry with the least `created_at_ms`, the first of several in the table's order. -/
def oldestSignal : List (Sigma fun _ : Uuid => PresenceSignal) → Option PresenceSignal
  | [] => none
  | e :: rest =>
    match oldestSignal rest with
    | none => some e.2
    | some s => if e.2.createdAtMs ≤ s.createdAtMs then some e.2 else some s

/-- `ProximityStore::insert`: at most 500 signals, an oldest one makes room. -/
def storeSignal (signals : KvTree.Of Uuid PresenceSignal) (signal : PresenceSignal) :
    KvTree.Of Uuid PresenceSignal :=
  let room := if 500 ≤ signals.entries.length then
      match oldestSignal signals.entries with
      | some oldest => signals.erase oldest.ephemeralId
      | none => signals
    else signals
  room.insert signal.ephemeralId signal

/-! ## The app and its outputs -/

/-- Something the app does besides changing its own state. -/
inductive AppOutput where
  /-- `notifier.on_contact_request`. -/
  | onContactRequest (peerId displayName : String)
  /-- `notifier.on_chat_received`. -/
  | onChatReceived (sender preview : String)
  /-- `notifier.on_mail_received`. -/
  | onMailReceived (sender subject : String)
  /-- `notifier.on_bulletin_posted`. -/
  | onBulletinPosted (scope title : String)
  /-- `chat_tx.send(ChatIncoming { .. })`. -/
  | chatIncoming (fromPeer : String) (message : ChatMessage)
  /-- `bulletin_tx.send`. -/
  | bulletinIncoming (post : BulletinPost)
  /-- `mail_tx.send`. -/
  | mailIncoming (mail : MailMessage)
  /-- `appstore_tx.send`. -/
  | listingIncoming (listing : AppStoreListing)
  /-- `coin.handle_incoming(payload, &from_peer)`. -/
  | coinHandleIncoming (payload : Coin.CoinPayload) (fromPeer : String)
  /-- `store.ingest_revocation_gossip(entry)`. -/
  | ingestRevocation (entry : RevocationGossip)
  /-- `store.cache_listing(listing)`. -/
  | cacheListing (listing : AppStoreListing)
deriving DecidableEq

/-- `AppNode`: the parts that incoming messages read and change. -/
structure AppNode where
  localPeerId : String
  /-- `handle.local_enc_pubkey_hex()`. -/
  localEncPubkeyHex : String
  storage : AppStorage := {}
  /-- Whether there is a coin node, and whether there is an app store. -/
  coin : Bool := true
  appStore : Bool := true
  encKeypair : EncryptionKeypair
  proximityStore : KvTree.Of Uuid PresenceSignal := ∅
  proximityMatches : ProximityMatchState := {}
  proximityInbox : List ProximityReceivedMessage := []
  proximityActive : Bool := false
  /-- What the app did so far, oldest first. -/
  out : List AppOutput := []

namespace AppNode

def emit (app : AppNode) (o : AppOutput) : AppNode := { app with out := app.out ++ [o] }

def updateStorage (app : AppNode) (f : AppStorage → AppStorage) : AppNode :=
  { app with storage := f app.storage }

/-- `s.chars().take(n).collect()`. -/
def takeChars (s : String) (n : Nat) : String := String.ofList (s.toList.take n)

/-! ## Group messages -/

/-- The group branch past decryption. -/
def handleGroupChat (groupId fromPeer : String) (m : ChatMessage) (app : AppNode) : AppNode :=
  (((app.updateStorage (·.saveGroupChat groupId m)).updateStorage
    (·.groupRecordPeerSeen groupId fromPeer)).emit (.onChatReceived fromPeer (takeChars m.body 40))
    ).emit (.chatIncoming fromPeer m)

section

variable [Prims] [AppCodec]

/-- The chat message of a group payload, if the group is known, the payload decrypts under
its key and holds a chat message. -/
def openGroupChat (app : AppNode) (groupId : String) (encryptedPayload : Bytes) :
    Option ChatMessage :=
  match app.storage.groupById groupId with
  | none => none
  | some group =>
    match decryptGroup encryptedPayload group.key with
    | .error _ => none
    | .ok plain =>
      match AppCodec.decodeAppMessage plain with
      | some { payload := .chat m } => some m
      | _ => none

/-- The `[mycelium:group]` branch. -/
def handleGroupPayload [Node.WireCodec] (envelope : Envelope) (app : AppNode) : AppNode :=
  match Node.WireCodec.decode envelope.payload with
  | some (.encryptedGroup groupId encryptedPayload) =>
    match app.openGroupChat groupId encryptedPayload with
    | some m => app.handleGroupChat groupId envelope.fromPeer m
    | none => app
  | _ => app

/-! ## Bulletins -/

/-- The post in a payload that is a plain `AppMessage`; `none` when it does not decode. -/
def decodeBulletin (raw : Bytes) : Option (Option BulletinPost) :=
  match AppCodec.decodeAppMessage raw with
  | none => none
  | some { payload := .bulletin post } => some (some post)
  | some _ => some none

/-- `handle_bulletin_payload`; `none` is the source's `Err`. A payload under a known scope
key that decrypts to something else than a bulletin is tried once more as a plain one. -/
def handleBulletinPayload (app : AppNode) (raw : Bytes) (scope : String) :
    Option (Option BulletinPost) :=
  if (asBytes "enc1:").isPrefixOf raw then
    match app.storage.getScopeKey scope with
    -- without the key, or with another one, a sealed post is dropped
    | none => some none
    | some sk =>
      match decryptGroup (raw.drop 5) sk.key with
      | .error _ => some none
      | .ok plaintext =>
        match decodeBulletin plaintext with
        | none => none
        | some (some post) => some (some post)
        -- it opened to something else than a post, so the payload is tried as it came
        | some none => decodeBulletin raw
  else decodeBulletin raw

/-- File a post and announce it. -/
def handleBulletin (post : BulletinPost) (app : AppNode) : AppNode :=
  ((app.updateStorage (·.saveBulletin post)).emit (.onBulletinPosted post.scope post.title)).emit
    (.bulletinIncoming post)

/-! ## Proximity -/

/-- A proximity message that was decrypted. -/
def receiveProximity (now : UInt64) (sender : String) (plain : Bytes) (app : AppNode) : AppNode :=
  let text := fromUtf8Lossy plain
  let msg : ProximityReceivedMessage := { fromEncPubkeyHex := sender, body := text, receivedAtMs := now }
  AppNode.emit { app with proximityInbox := inboxPush app.proximityInbox msg }
    (.onChatReceived "proximity" text)

/-- A proximity message: for this node, from a mutual match, and it decrypts. -/
def handleProximityDirect (now : UInt64) (msg : ProximityDirectMessage) (app : AppNode) : AppNode :=
  if msg.targetEncPubkeyHex ≠ app.localEncPubkeyHex then app
  else if !app.proximityMatches.isMutual msg.senderEncPubkeyHex then app
  else
    match decryptWith msg.encryptedPayload app.encKeypair with
    | .ok plain => app.receiveProximity now msg.senderEncPubkeyHex plain
    | .error _ => app

def handlePresence (now : UInt64) (signal : PresenceSignal) (app : AppNode) : AppNode :=
  if signal.isExpired now then app
  else if signal.encPubkeyHex = app.localEncPubkeyHex then app
  else { app with proximityStore := storeSignal app.proximityStore signal }

def handleMatchIntent (now : UInt64) (intent : ProximityMatchIntent) (app : AppNode) : AppNode :=
  if intent.isExpired now then app
  else if intent.fromEncPubkeyHex = app.localEncPubkeyHex then app
  else { app with proximityMatches := app.proximityMatches.recordIncoming intent.fromEncPubkeyHex }

/-- `handle_proximity_payload`: the three decoders are tried in turn. -/
def handleProximityPayload (now : UInt64) (payload : Bytes) (app : AppNode) : AppNode :=
  if !app.proximityActive then app
  else
    match AppCodec.decodeProximityDirect payload with
    | some msg => app.handleProximityDirect now msg
    | none =>
      match AppCodec.decodePresence payload with
      | some signal => app.handlePresence now signal
      | none =>
        match AppCodec.decodeMatchIntent payload with
        | some intent => app.handleMatchIntent now intent
        | none => app

/-! ## Payloads -/

/-- The name under which an unknown sender becomes a pending contact. -/
def pendingName (peer : String) (m : ChatMessage) : String :=
  if m.fromDisplayName = "" then takeChars peer 12 else m.fromDisplayName

/-- What a chat message does to the contacts: an unknown sender becomes a pending contact,
and the user is asked about a sender who is not accepted. -/
def handleChatContact (now : UInt64) (peer : String) (m : ChatMessage) (app : AppNode) : AppNode :=
  match app.storage.contactById peer with
  | some c =>
    match c.status with
    | .accepted => app
    | .pending => app.emit (.onContactRequest peer c.displayName)
  | none =>
    (app.updateStorage (·.upsertContact now peer (pendingName peer m) .pending)).emit
      (.onContactRequest peer (pendingName peer m))

/-- Whether a chat message of the peer is shown at once. -/
def chatAccepted (app : AppNode) (peer : String) : Bool :=
  match app.storage.contactById peer with
  | some c => c.status = .accepted
  | none => false

/-- File a chat message under a peer; show it if the peer was an accepted contact. -/
def saveAndShowChat (accepted : Bool) (peer : String) (m : ChatMessage) (app : AppNode) : AppNode :=
  let app := app.updateStorage (·.saveChat peer m)
  if accepted then
    (app.emit (.onChatReceived peer (takeChars m.body 40))).emit (.chatIncoming peer m)
  else app

/-- The `Chat` payload. -/
def handleChat (now : UInt64) (peer : String) (m : ChatMessage) (app : AppNode) : AppNode :=
  if peer = app.localPeerId then app
  else (app.handleChatContact now peer m).saveAndShowChat (app.chatAccepted peer) peer m

def handleMail (m : MailMessage) (app : AppNode) : AppNode :=
  ((app.updateStorage (·.saveMailInbox m)).emit (.onMailReceived m.fromDisplayName m.subject)).emit
    (.mailIncoming m)

def handleCoin (fromPeer : String) (inner : Bytes) (app : AppNode) : AppNode :=
  if app.coin then
    match AppCodec.decodeCoinPayload inner with
    | some payload => app.emit (.coinHandleIncoming payload fromPeer)
    | none => app
  else app

def handleRevocation (entry : RevocationGossip) (app : AppNode) : AppNode :=
  if app.appStore then app.emit (.ingestRevocation entry) else app

def handleListing (listing : AppStoreListing) (app : AppNode) : AppNode :=
  if listing.verifySignature && app.appStore then
    (app.emit (.cacheListing listing)).emit (.listingIncoming listing)
  else app

/-- The decoded payload of a message that carries no special body tag. -/
def handlePayload (now : UInt64) (fromPeer : String) (payload : AppPayload) (app : AppNode) :
    AppNode :=
  match payload with
  | .chat m => app.handleChat now fromPeer m
  | .bulletin post => app.handleBulletin post
  | .mail m => app.handleMail m
  | .coin inner => app.handleCoin fromPeer inner
  | .miniAppRevocation entry => app.handleRevocation entry
  | .appStoreListing listing => app.handleListing listing

/-- The scope of a body `[bulletin:<scope>]`. -/
def bulletinScope (body : String) : Option String :=
  (stripPrefix body "[bulletin:").bind (stripSuffix · "]")

/-- `dispatch_incoming`. -/
def dispatchIncoming [Node.WireCodec] (now : UInt64) (msg : DirectMessage) (app : AppNode) :
    AppNode :=
  if msg.body = "[mycelium:group]" then app.handleGroupPayload msg.envelope
  else if msg.body = "[proximity]" then app.handleProximityPayload now msg.envelope.payload
  else
    match bulletinScope msg.body with
    | some scope =>
      match app.handleBulletinPayload msg.envelope.payload scope with
      | some (some post) => app.handleBulletin post
      -- a bulletin tag without a post is dropped, the common decoder does not see it
      | _ => app
    | none =>
      match AppCodec.decodeAppMessage msg.envelope.payload with
      | some appMsg => app.handlePayload now msg.envelope.fromPeer appMsg.payload
      | none => app

end

end AppNode

end Mycelium.App
