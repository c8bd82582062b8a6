import Mycelium.Core.Sealing
import Mycelium.App.Dispatch
import Mycelium.App.Routes
import Mycelium.App.Send

/-!
# Mycelium app — messages to one peer

Translation of `send_chat` and `send_chat_encrypted` (`mycelium-app/src/node.rs`). A message to one
peer is wrapped with the sender's name and sealed under the key the node has for the peer; without
a key nothing is sent. Whoever is written to becomes an accepted contact first, also if the sending
then fails.

* `sendChat_ok`, `sendChat_error` — the two ways it ends;
* `ChatAct.filedBy`, `chats_apply` — what is filed under whom.
-/

namespace Mycelium.App

open Node (NodeCommand)

/-- What sending draws besides: the time a new contact is dated, and the ephemeral key. -/
structure SealDraws extends Draws where
  contactNow : UInt64
  ephemeral : X25519Key

/-- `ensure_contact_accepted_for_send`. -/
def AppStorage.ensureContactAcceptedForSend (st : AppStorage) (now : UInt64)
    (peerId displayName : String) : AppStorage :=
  let name :=
    if displayName = "" then
      match st.contactById peerId with
      | some c => c.displayName
      | none => AppNode.takeChars peerId 12
    else displayName
  st.upsertContact now peerId name .accepted

/-- `enc_key_not_yet_exchanged_err`. -/
def encKeyNotYetExchanged : String :=
  "enc_key_not_yet_exchanged: message not sent. "
    ++ "Connect to the peer first and wait for key exchange."

section

variable [Prims] [AppCodec] [AppEncoder]

/-! ## Sending -/

/-- `send_chat_encrypted`, with the keys the node has. The source panics if its own name is too
long to be wrapped. -/
def sendChatEncrypted (d : SealDraws) (keys : KvTree.Of String X25519Key) (toPeer body : String)
    (app : AppNode) : Except String NodeCommand × AppNode :=
  let app := app.updateStorage (·.ensureContactAcceptedForSend d.contactNow toPeer "")
  let chat := newChat d.toDraws body
  match wrapInner app.localPeerId (AppEncoder.encodeAppMessage { payload := .chat chat }) with
  | none => (.error "author peer id too long for E2E wrap", app)
  | some wrapped =>
    match keys.lookup toPeer with
    | none => (.error encKeyNotYetExchanged, app)
    | some pk =>
      (.ok (.sendWire toPeer (.encryptedDirect toPeer app.localEncPubkeyHex
        (encryptFor d.ephemeral d.nonce wrapped pk) none 0 8)),
        app.updateStorage (·.saveChat toPeer chat))

/-- `send_chat`. -/
def sendChat (d : SealDraws) (keys : KvTree.Of String X25519Key) (toPeer : Option String)
    (body : String) (app : AppNode) : Except String NodeCommand × AppNode :=
  match toPeer with
  | none => (.ok (broadcastChat d.toDraws "mycelium/chat" body), app)
  | some peer =>
    let app := app.updateStorage (·.ensureContactAcceptedForSend d.contactNow peer "")
    if (keys.lookup peer).isSome then sendChatEncrypted d keys peer body app
    else (.error encKeyNotYetExchanged, app)

/-- Who the app is. -/
def AppNode.identity (app : AppNode) : String × String := (app.localPeerId, app.localEncPubkeyHex)

variable {d : SealDraws} {keys : KvTree.Of String X25519Key} {peer text : String}
  {app app' : AppNode}

omit [Prims] [AppCodec] [AppEncoder] in
theorem chats_upsertContact (st : AppStorage) (now : UInt64) (peer name : String)
    (status : ContactStatus) : (st.upsertContact now peer name status).chats = st.chats := by
  unfold AppStorage.upsertContact
  split <;> rfl

omit [AppCodec] in
/-- What is asked of the node depends on who the app is. -/
theorem sendChat_congr (h : app.identity = app'.identity) :
    (sendChat d keys (some peer) text app).1 = (sendChat d keys (some peer) text app').1 := by
  obtain ⟨hlocal, hkey⟩ := Prod.mk.inj h
  unfold sendChat
  dsimp only
  split
  · unfold sendChatEncrypted AppNode.updateStorage
    dsimp only
    rw [hlocal, hkey]
    cases wrapInner app'.localPeerId
        (AppEncoder.encodeAppMessage { payload := .chat (newChat d.toDraws text) }) with
    | none => rfl
    | some wrapped => cases keys.lookup peer <;> rfl
  · rfl

/-- What a message to one peer is, when it is sent: the frame for the node, and the row. -/
structure SentSealed (d : SealDraws) (keys : KvTree.Of String X25519Key) (peer text : String)
    (app : AppNode) (cmd : NodeCommand) (app' : AppNode) : Prop where
  frame : ∃ pk wrapped, keys.lookup peer = some pk
    ∧ wrapInner app.localPeerId
        (AppEncoder.encodeAppMessage { payload := .chat (newChat d.toDraws text) }) = some wrapped
    ∧ cmd = .sendWire peer (.encryptedDirect peer app.localEncPubkeyHex
        (encryptFor d.ephemeral d.nonce wrapped pk) none 0 8)
  chats : app'.storage.chats = app.storage.chats.insert (peer, d.now) (newChat d.toDraws text)
  identity : app'.identity = app.identity

omit [AppCodec] in
theorem sendChat_ok {cmd : NodeCommand} (h : (sendChat d keys (some peer) text app).1 = .ok cmd) :
    SentSealed d keys peer text app cmd (sendChat d keys (some peer) text app).2 := by
  unfold sendChat at h ⊢
  dsimp only at h ⊢
  split at h
  · next hkey =>
    rw [if_pos hkey]
    unfold sendChatEncrypted at h ⊢
    dsimp only at h ⊢
    split at h
    · cases h
    · next wrapped hwrapped =>
      split at h
      · cases h
      · next pk hpk =>
        refine ⟨⟨pk, wrapped, hpk, hwrapped, (Except.ok.inj h).symm⟩, ?_, rfl⟩
        -- the contact is written before the row of the message, and elsewhere
        show AList.insert _ _ (AppStorage.upsertContact (AppStorage.upsertContact _ _ _ _ _) _ _ _ _
          ).chats = _
        rw [chats_upsertContact, chats_upsertContact]
        rfl
  · cases h

omit [AppCodec] in
/-- When it is not sent, it is not filed either. -/
theorem sendChat_error {e : String} (h : (sendChat d keys (some peer) text app).1 = .error e) :
    (sendChat d keys (some peer) text app).2.storage.chats = app.storage.chats
    ∧ (sendChat d keys (some peer) text app).2.identity = app.identity := by
  unfold sendChat at h ⊢
  dsimp only at h ⊢
  split at h
  · next hkey =>
    rw [if_pos hkey]
    unfold sendChatEncrypted at h ⊢
    dsimp only at h ⊢
    split at h
    · refine ⟨?_, rfl⟩
      show (AppStorage.upsertContact (AppStorage.upsertContact _ _ _ _ _) _ _ _ _).chats = _
      rw [chats_upsertContact, chats_upsertContact]
    · split at h
      · next hpk =>
        rw [hpk] at hkey
        cases hkey
      · cases h
  · next hkey =>
    rw [if_neg hkey]
    exact ⟨chats_upsertContact _ _ _ _ _, rfl⟩

/-! ## Receiving -/

/-- Under whom a message is filed that arrives, and as what. -/
def AppNode.chatFiled (app : AppNode) (msg : DirectMessage) : Option (String × ChatMessage) :=
  match app.route msg.body msg.envelope.payload with
  | .payload (.chat m) =>
    if msg.envelope.fromPeer = app.localPeerId then none else some (msg.envelope.fromPeer, m)
  | _ => none

omit [AppEncoder] in
/-- It is filed under the one it is said to come from. -/
theorem fromPeer_of_chatFiled {msg : DirectMessage} {m : ChatMessage}
    (h : app.chatFiled msg = some (peer, m)) : msg.envelope.fromPeer = peer := by
  unfold AppNode.chatFiled at h
  split at h
  · obtain ⟨-, heq⟩ := Option.ite_none_left_eq_some.mp h
    exact (Prod.mk.inj (Option.some.inj heq)).1
  · cases h

omit [Prims] [AppCodec] [AppEncoder] in
theorem handleChat_chats (now : UInt64) (peer : String) (m : ChatMessage) (app : AppNode) :
    (app.handleChat now peer m).storage.chats
      = if peer = app.localPeerId then app.storage.chats
        else app.storage.chats.insert (peer, m.timestampMs) m := by
  unfold AppNode.handleChat
  split
  · rfl
  · have hcontact : (app.handleChatContact now peer m).storage.chats = app.storage.chats := by
      unfold AppNode.handleChatContact
      split
      · split <;> rfl
      · exact chats_upsertContact _ _ _ _ _
    rw [← hcontact]
    unfold AppNode.saveAndShowChat
    split <;> rfl

variable [Node.WireCodec]

omit [AppEncoder] in
/-- **A message that arrives** is filed if it is a chat message of somebody else. -/
theorem chats_dispatch (now : UInt64) (msg : DirectMessage) (app : AppNode) :
    (app.dispatchIncoming now msg).storage.chats
      = match app.chatFiled msg with
        | some (peer, m) => app.storage.chats.insert (peer, m.timestampMs) m
        | none => app.storage.chats := by
  -- by the handler the body and payload select: only a chat of another peer writes a row
  rw [dispatchIncoming_eq_run]
  unfold AppNode.chatFiled
  cases app.route msg.body msg.envelope.payload with
  | group raw =>
    show (app.handleGroupPayload msg.envelope).storage.chats = app.storage.chats
    -- a group chat has a table of its own
    unfold AppNode.handleGroupPayload
    split
    · next groupId _ _ =>
      split
      · show ((AppStorage.saveGroupChat _ _ _).groupRecordPeerSeen groupId _).chats = _
        unfold AppStorage.groupRecordPeerSeen
        split <;> rfl
      · rfl
    · rfl
  | proximity raw =>
    show (app.handleProximityPayload now raw).storage.chats = app.storage.chats
    rw [handleProximityPayload_storage]
  | dropped => rfl
  | payload p =>
    cases p with
    | chat m =>
      show (app.handleChat now msg.envelope.fromPeer m).storage.chats = _
      rw [handleChat_chats]
      by_cases hlocal : msg.envelope.fromPeer = app.localPeerId
      · simp [hlocal]
      · simp [hlocal]
    | bulletin post => rfl
    | mail m => rfl
    | coin inner =>
      show (app.handleCoin msg.envelope.fromPeer inner).storage.chats = app.storage.chats
      unfold AppNode.handleCoin
      split
      · split <;> rfl
      · rfl
    | appStoreListing listing =>
      show (app.handleListing listing).storage.chats = app.storage.chats
      unfold AppNode.handleListing
      split <;> rfl
    | miniAppRevocation entry =>
      show (app.handleRevocation entry).storage.chats = app.storage.chats
      unfold AppNode.handleRevocation
      split <;> rfl

omit [AppEncoder] in
/-- Nothing that arrives changes who the app is. -/
theorem identity_dispatch (now : UInt64) (msg : DirectMessage) (app : AppNode) :
    (app.dispatchIncoming now msg).identity = app.identity := by
  have h := dispatchIncoming_dispatched now msg app
  generalize app.dispatchIncoming now msg = next at h
  cases h with
  | nothing => rfl
  | groupChat groupId encrypted m _ _ _ => rfl
  | proximity _ =>
    unfold AppNode.handleProximityPayload AppNode.handleProximityDirect AppNode.handlePresence
      AppNode.handleMatchIntent
    repeat' split
    all_goals rfl
  | chat m _ _ =>
    unfold AppNode.saveAndShowChat AppNode.handleChatContact
    repeat' split
    all_goals rfl
  | bulletin post => rfl
  | mail m => rfl
  | calls new _ => rfl

/-! ## What an app does -/

/-- The app sends to one peer, when the node has these keys, or it takes what has arrived. -/
inductive ChatAct where
  | send (d : SealDraws) (keys : KvTree.Of String X25519Key) (peer text : String)
  | receive (now : UInt64) (msg : DirectMessage)

namespace ChatAct

def apply (app : AppNode) : ChatAct → AppNode
  | .send d keys peer text => (sendChat d keys (some peer) text app).2
  | .receive now msg => app.dispatchIncoming now msg

/-- Under whom a message is filed, and which. -/
def filedBy (app : AppNode) : ChatAct → Option (String × ChatMessage)
  | .send d keys peer text =>
    match (sendChat d keys (some peer) text app).1 with
    | .ok _ => some (peer, newChat d.toDraws text)
    | .error _ => none
  | .receive _ msg => app.chatFiled msg

end ChatAct

/-- **One step**: what the app files. -/
theorem chats_apply (app : AppNode) (act : ChatAct) :
    (act.apply app).storage.chats
      = match act.filedBy app with
        | some (peer, m) => app.storage.chats.insert (peer, m.timestampMs) m
        | none => app.storage.chats := by
  cases act with
  | receive now msg => exact chats_dispatch now msg app
  | send d keys peer text =>
    show (sendChat d keys (some peer) text app).2.storage.chats = _
    cases hresult : (sendChat d keys (some peer) text app).1 with
    | ok cmd =>
      simp only [ChatAct.filedBy, hresult]
      exact (sendChat_ok hresult).chats
    | error e =>
      simp only [ChatAct.filedBy, hresult]
      exact (sendChat_error hresult).1

theorem identity_apply (app : AppNode) (act : ChatAct) :
    (act.apply app).identity = app.identity := by
  cases act with
  | receive now msg => exact identity_dispatch now msg app
  | send d keys peer text =>
    show (sendChat d keys (some peer) text app).2.identity = _
    cases hresult : (sendChat d keys (some peer) text app).1 with
    | ok cmd => exact (sendChat_ok hresult).identity
    | error e => exact (sendChat_error hresult).2

/-- The app stays who it is. Induction on the acts. -/
theorem identity_foldl (app : AppNode) (acts : List ChatAct) :
    (acts.foldl ChatAct.apply app).identity = app.identity := by
  induction acts generalizing app with
  | nil => rfl
  | cons act acts ih => exact (ih _).trans (identity_apply app act)

end

end Mycelium.App
