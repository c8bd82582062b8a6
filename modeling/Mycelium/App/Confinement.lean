import Mycelium.App.AppStore
import Mycelium.App.Attribution
import Mycelium.Node.Delivery

/-!
# Mycelium app — what an unsigned message can do

The node lets a `Data` message with a gossip tag through without looking at its signature,
because "inner payload carries its own auth". The tag is a body, and the app dispatches on body
*and* payload: under `[appstore]` it looks at the payload alone.

* `Confined` — nothing but authenticated payloads has an effect on the app;
* `Smuggles` — the pairs of tag and payload that do more;
* `unsigned_frame_confined_iff` — these are the only ones.
-/

namespace Mycelium.App

section

variable [Prims] [AppCodec] [Node.WireCodec]

/-- The chat message of a message under the group tag whose payload decrypts under the key of a
known group. -/
def AppNode.groupMessage (app : AppNode) (m : DirectMessage) : Option ChatMessage :=
  if m.body = "[mycelium:group]" then
    match Node.WireCodec.decode m.envelope.payload with
    | some (.encryptedGroup groupId encryptedPayload) => app.openGroupChat groupId encryptedPayload
    | _ => none
  else none

/-- The output is due to a payload that carries its own authentication: a group message under a
known group key, a listing its developer signed, or a revocation that changes an app store only
if its curator signed it. -/
def Authenticated (app : AppNode) (m : DirectMessage) : AppOutput → Prop
  | .onChatReceived _ _ => (app.groupMessage m).isSome = true
  | .chatIncoming _ chat => app.groupMessage m = some chat
  | .cacheListing listing => listing.verifySignature = true
  | .listingIncoming listing => listing.verifySignature = true
  | .ingestRevocation entry => ∀ (store : AppStore) (now now' : UInt64),
      (store.ingestRevocationGossip now now' entry).2 ≠ store → entry.verifySignature = .ok true
  | _ => False

/-- What the message does to the app is due to an authenticated payload; no direct chat, mail,
bulletin or contact is stored, and the coin node is not called. -/
structure Confined (m : DirectMessage) (app app' : AppNode) : Prop where
  chats : app'.storage.chats = app.storage.chats
  contacts : app'.storage.contacts = app.storage.contacts
  bulletins : app'.storage.bulletins = app.storage.bulletins
  mailInbox : app'.storage.mailInbox = app.storage.mailInbox
  scopeKeys : app'.storage.scopeKeys = app.storage.scopeKeys
  groups : (app.groupMessage m).isSome = true
    ∨ app'.storage.groups = app.storage.groups ∧ app'.storage.groupChats = app.storage.groupChats
  proximity : app'.proximityStore = app.proximityStore ∧ app'.proximityMatches = app.proximityMatches
    ∧ app'.proximityInbox = app.proximityInbox
  out : ∃ new, app'.out = app.out ++ new ∧ ∀ o ∈ new, Authenticated app m o

theorem Confined.refl {m : DirectMessage} {app : AppNode} : Confined m app app where
  chats := rfl
  contacts := rfl
  bulletins := rfl
  mailInbox := rfl
  scopeKeys := rfl
  groups := .inr ⟨rfl, rfl⟩
  proximity := ⟨rfl, rfl, rfl⟩
  out := ⟨[], by simp, by simp⟩

/-- One output that is not authenticated is enough. -/
theorem not_confined_of_output {m : DirectMessage} {app app' : AppNode} (o : AppOutput)
    (rest : List AppOutput) (hout : app'.out = app.out ++ o :: rest) (ho : ¬ Authenticated app m o) :
    ¬ Confined m app app' := by
  rintro ⟨-, -, -, -, -, -, -, new, hnew, hauth⟩
  obtain rfl : o :: rest = new := List.append_cancel_left (hout.symm.trans hnew)
  exact ho (hauth o List.mem_cons_self)

/-- A payload without its own authentication, under the tag that does not ask for one. -/
def Smuggles (app : AppNode) (m : DirectMessage) : Prop :=
  m.body = "[appstore]" ∧
    match AppCodec.decodeAppMessage m.envelope.payload with
    | some { payload := .chat _ } => m.envelope.fromPeer ≠ app.localPeerId
    | some { payload := .bulletin _ } => True
    | some { payload := .mail _ } => True
    | some { payload := .coin inner } =>
      app.coin = true ∧ (AppCodec.decodeCoinPayload inner).isSome = true
    | _ => False

/-! ## The group tag -/

omit [Prims] [AppCodec] [Node.WireCodec] in
/-- Recording a member writes the group table only. -/
theorem AppStorage.groupRecordPeerSeen_eq (st : AppStorage) (groupId peerId : String) :
    ∃ groups, st.groupRecordPeerSeen groupId peerId = { st with groups } := by
  unfold AppStorage.groupRecordPeerSeen
  split
  · exact ⟨_, rfl⟩
  · exact ⟨st.groups, rfl⟩

variable {m : DirectMessage} {app : AppNode}

/-- Nothing happens unless the message decrypts under a group key. -/
theorem handleGroupPayload_confined (hbody : m.body = "[mycelium:group]") :
    Confined m app (app.handleGroupPayload m.envelope) := by
  unfold AppNode.handleGroupPayload
  split
  · next groupId encryptedPayload hdecode =>
    have hgroup : app.groupMessage m = app.openGroupChat groupId encryptedPayload := by
      unfold AppNode.groupMessage
      rw [if_pos hbody, hdecode]
    -- the chat is filed and shown only where it opens under the key of the group
    split
    · next chat hopen =>
      rw [hopen] at hgroup
      obtain ⟨groups, hgroups⟩ := AppStorage.groupRecordPeerSeen_eq
        (app.storage.saveGroupChat groupId chat) groupId m.envelope.fromPeer
      have hstorage : (app.handleGroupChat groupId m.envelope.fromPeer chat).storage
          = { app.storage.saveGroupChat groupId chat with groups } := hgroups
      refine ⟨?_, ?_, ?_, ?_, ?_, .inl (by rw [hgroup]; rfl), ⟨rfl, rfl, rfl⟩, ?_⟩
      iterate 5
        rw [hstorage]
        rfl
      refine ⟨[.onChatReceived m.envelope.fromPeer (AppNode.takeChars chat.body 40),
        .chatIncoming m.envelope.fromPeer chat], by simp [AppNode.handleGroupChat, AppNode.emit,
          AppNode.updateStorage], ?_⟩
      -- both notices are about the message that opened
      intro o ho
      rcases List.mem_cons.mp ho with rfl | ho
      · show (app.groupMessage m).isSome = true
        rw [hgroup]
        rfl
      · rw [List.mem_singleton.mp ho]
        exact hgroup
    · exact .refl
  · exact .refl

/-! ## The store tag -/

/-- Under the store tag the payload alone decides. -/
theorem dispatchIncoming_appstore (hbody : m.body = "[appstore]") (now : UInt64) :
    app.dispatchIncoming now m
      = match AppCodec.decodeAppMessage m.envelope.payload with
        | some appMsg => app.handlePayload now m.envelope.fromPeer appMsg.payload
        | none => app := by
  have hscope : AppNode.bulletinScope "[appstore]" = none := by decide
  unfold AppNode.dispatchIncoming
  rw [hbody, if_neg (by decide), if_neg (by decide)]
  cases AppCodec.decodeAppMessage m.envelope.payload with
  | none => simp only [hscope]
  | some appMsg => simp only [hscope]

theorem handleRevocation_confined (entry : RevocationGossip) :
    Confined m app (app.handleRevocation entry) := by
  unfold AppNode.handleRevocation
  split
  · refine ⟨rfl, rfl, rfl, rfl, rfl, .inr ⟨rfl, rfl⟩, ⟨rfl, rfl, rfl⟩, [_], rfl, fun o ho => ?_⟩
    rw [List.mem_singleton.mp ho]
    exact fun _ _ _ hchanged => AppStore.verifySignature_of_ingestRevocationGossip hchanged
  · exact .refl

theorem handleListing_confined (listing : AppStoreListing) :
    Confined m app (app.handleListing listing) := by
  unfold AppNode.handleListing
  split
  · next hverify =>
    have hsigned : listing.verifySignature = true := (Bool.and_eq_true_iff.mp hverify).1
    refine ⟨rfl, rfl, rfl, rfl, rfl, .inr ⟨rfl, rfl⟩, ⟨rfl, rfl, rfl⟩,
      [.cacheListing listing, .listingIncoming listing], by simp [AppNode.emit], fun o ho => ?_⟩
    rcases List.mem_cons.mp ho with rfl | ho
    · exact hsigned
    · rw [List.mem_singleton.mp ho]
      exact hsigned
  · exact .refl

omit [Prims] [AppCodec] [Node.WireCodec] in
/-- A chat message of another peer asks the user about a contact, or is shown. -/
theorem handleChat_out (now : UInt64) {peer : String} (chat : ChatMessage)
    (hpeer : peer ≠ app.localPeerId) :
    ∃ o rest, (app.handleChat now peer chat).out = app.out ++ o :: rest
      ∧ ((∃ name, o = .onContactRequest peer name) ∨ ∃ preview, o = .onChatReceived peer preview) := by
  unfold AppNode.handleChat AppNode.saveAndShowChat AppNode.handleChatContact AppNode.chatAccepted
  rw [if_neg hpeer]
  cases hcontact : app.storage.contactById peer with
  | none => exact ⟨_, [], rfl, .inl ⟨_, rfl⟩⟩
  | some c =>
    cases hstatus : c.status with
    | pending =>
      refine ⟨.onContactRequest peer c.displayName, [], ?_, .inl ⟨_, rfl⟩⟩
      simp [hstatus, AppNode.emit, AppNode.updateStorage]
    | accepted =>
      refine ⟨.onChatReceived peer (AppNode.takeChars chat.body 40), [.chatIncoming peer chat], ?_,
        .inr ⟨_, rfl⟩⟩
      simp [hstatus, AppNode.emit, AppNode.updateStorage]

/-- **The store tag**, payload by payload. -/
theorem handlePayload_confined_iff (hbody : m.body = "[appstore]") {appMsg : AppMessage}
    (hdecode : AppCodec.decodeAppMessage m.envelope.payload = some appMsg) (now : UInt64) :
    Confined m app (app.handlePayload now m.envelope.fromPeer appMsg.payload)
      ↔ ¬ Smuggles app m := by
  have hnogroup : app.groupMessage m = none := by
    unfold AppNode.groupMessage
    rw [hbody, if_neg (by decide)]
  unfold Smuggles
  rw [hdecode]
  obtain ⟨payload⟩ := appMsg
  cases payload with
  | chat chat =>
    simp only [hbody, true_and, ne_eq, not_not]
    constructor
    · intro hconfined
      -- a chat of another peer raises an event
      by_contra hpeer
      obtain ⟨o, rest, hout, ho⟩ := handleChat_out now chat hpeer
      refine not_confined_of_output o rest hout ?_ hconfined
      rcases ho with ⟨name, rfl⟩ | ⟨preview, rfl⟩
      · exact not_false
      · show ¬ (app.groupMessage m).isSome = true
        rw [hnogroup]
        exact Bool.false_ne_true
    · intro hlocal
      have hsame : app.handlePayload now m.envelope.fromPeer (.chat chat) = app := if_pos hlocal
      rw [hsame]
      exact .refl
  | bulletin post =>
    simp only [hbody, true_and, not_true_eq_false, iff_false]
    exact not_confined_of_output (.onBulletinPosted post.scope post.title)
      [.bulletinIncoming post] (by simp [AppNode.handlePayload, AppNode.handleBulletin,
        AppNode.emit, AppNode.updateStorage]) not_false
  | mail mail =>
    simp only [hbody, true_and, not_true_eq_false, iff_false]
    exact not_confined_of_output (.onMailReceived mail.fromDisplayName mail.subject)
      [.mailIncoming mail] (by simp [AppNode.handlePayload, AppNode.handleMail,
        AppNode.emit, AppNode.updateStorage]) not_false
  | coin inner =>
    simp only [hbody, true_and]
    constructor
    · rintro hconfined ⟨hcoin, hsome⟩
      obtain ⟨payload, hpayload⟩ := Option.isSome_iff_exists.mp hsome
      refine not_confined_of_output (.coinHandleIncoming payload m.envelope.fromPeer)
        [] ?_ not_false hconfined
      simp [AppNode.handlePayload, AppNode.handleCoin, hcoin, hpayload, AppNode.emit]
    · -- without a coin node, or without a coin payload, nothing is done
      intro hnone
      have hsame : app.handlePayload now m.envelope.fromPeer (.coin inner) = app := by
        show app.handleCoin m.envelope.fromPeer inner = app
        unfold AppNode.handleCoin
        split
        · next hcoin =>
          split
          · next payload hpayload => exact absurd ⟨hcoin, by rw [hpayload]; rfl⟩ hnone
          · rfl
        · rfl
      rw [hsame]
      exact .refl
  | appStoreListing listing =>
    simp only [hbody, true_and, not_false_eq_true, iff_true]
    exact handleListing_confined listing
  | miniAppRevocation entry =>
    simp only [hbody, true_and, not_false_eq_true, iff_true]
    exact handleRevocation_confined entry

/-- A message with a gossip tag, handed to the app. -/
theorem dispatchIncoming_confined_iff (htag : Node.isGossipRelayBody m.body = true) (now : UInt64) :
    Confined m app (app.dispatchIncoming now m) ↔ ¬ Smuggles app m := by
  have hbody : m.body = "[mycelium:group]" ∨ m.body = "[appstore]" := by
    simpa [Node.isGossipRelayBody] using htag
  rcases hbody with hgroup | hstore
  · have hsmuggles : ¬ Smuggles app m := fun h => absurd (hgroup.symm.trans h.1) (by decide)
    have hdispatch : app.dispatchIncoming now m = app.handleGroupPayload m.envelope := if_pos hgroup
    rw [hdispatch]
    exact iff_of_true (handleGroupPayload_confined hgroup) hsmuggles
  · rw [dispatchIncoming_appstore hstore]
    cases hdecode : AppCodec.decodeAppMessage m.envelope.payload with
    | none =>
      refine iff_of_true .refl ?_
      rintro ⟨-, h⟩
      rw [hdecode] at h
      exact h
    | some appMsg => exact handlePayload_confined_iff hstore hdecode now

/-- **When an unsigned message is confined.** For every node in any state, every `Data` frame
with a gossip tag, whatever its envelope and payload, and every app: what the node hands to the
app from this frame does no more than its authenticated payloads may, exactly when the frame is
refused or is not one of those that smuggle a payload in under the store tag. -/
theorem unsigned_frame_confined_iff [Node.World] (s : Node.NodeRunner) (fromPeer : String)
    (m : DirectMessage) (htag : Node.isGossipRelayBody m.body = true) (app : AppNode) (now : UInt64) :
    (∀ m', .deliver .data m' ∈ Node.frameOutputs s fromPeer (.data m) →
      Confined m' app (app.dispatchIncoming now m'))
      ↔ ¬ (Node.Admits s fromPeer m ∧ Smuggles app m) := by
  have hdelivered : ∀ m', .deliver .data m' ∈ Node.frameOutputs s fromPeer (.data m)
      ↔ m' = m ∧ Node.Admits s fromPeer m := by
    intro m'
    rw [← Node.inputOutputs_frame, Node.deliver_data_iff]
    constructor
    · rintro ⟨fromPeer', hinput, hadmits⟩
      obtain ⟨rfl, rfl⟩ : fromPeer = fromPeer' ∧ m = m' := by simpa using hinput
      exact ⟨rfl, hadmits⟩
    · rintro ⟨rfl, hadmits⟩
      exact ⟨fromPeer, rfl, hadmits⟩
  constructor
  · rintro h ⟨hadmits, hsmuggles⟩
    exact (dispatchIncoming_confined_iff htag now).mp (h m ((hdelivered m).mpr ⟨rfl, hadmits⟩))
      hsmuggles
  · intro h m' hm'
    obtain ⟨rfl, hadmits⟩ := (hdelivered m').mp hm'
    exact (dispatchIncoming_confined_iff htag now).mpr fun hsmuggles => h ⟨hadmits, hsmuggles⟩

end

section

attribute [local instance] symbolicPrims Node.noCodec attributionWorld chatCodec

/-- A message without a signature, in the name of peer 7, under the given tag. -/
def unsignedMessage (body : String) : DirectMessage :=
  { envelope := .newUnsigned 5000000 (Node.symbolicPeer 7) none (asBytes "hi"), body }

/-- Under the group tag the app does nothing with it. -/
theorem unsigned_group_message_confined :
    .deliver .data (unsignedMessage "[mycelium:group]")
        ∈ Node.frameOutputs (Node.symbolicNode 2 3 5000000) (Node.symbolicPeer 4)
          (.data (unsignedMessage "[mycelium:group]"))
    ∧ Confined (unsignedMessage "[mycelium:group]") freshApp
        (freshApp.dispatchIncoming 5000000 (unsignedMessage "[mycelium:group]")) := by
  have hdelivered : .deliver .data (unsignedMessage "[mycelium:group]")
      ∈ Node.frameOutputs (Node.symbolicNode 2 3 5000000) (Node.symbolicPeer 4)
        (.data (unsignedMessage "[mycelium:group]")) := by
    decide +kernel
  refine ⟨hdelivered, (unsigned_frame_confined_iff _ _ _ (by decide) freshApp 5000000).mpr ?_ _
    hdelivered⟩
  rintro ⟨-, hstore, -⟩
  exact absurd hstore (by decide)

/-- Under the store tag peer 7, who signed nothing, becomes a contact and has a chat stored. -/
theorem unsigned_chat_smuggled :
    (unsignedMessage "[appstore]").envelope.signature = none
    ∧ .deliver .data (unsignedMessage "[appstore]")
        ∈ Node.frameOutputs (Node.symbolicNode 2 3 5000000) (Node.symbolicPeer 4)
          (.data (unsignedMessage "[appstore]"))
    ∧ (freshApp.dispatchIncoming 5000000 (unsignedMessage "[appstore]")).storage.chats.lookup
        (Node.symbolicPeer 7, 7) = some symbolicChat
    ∧ ¬ Confined (unsignedMessage "[appstore]") freshApp
        (freshApp.dispatchIncoming 5000000 (unsignedMessage "[appstore]")) := by
  have hcontact : (freshApp.dispatchIncoming 5000000 (unsignedMessage "[appstore]")).storage.contacts.lookup
      (Node.symbolicPeer 7) ≠ freshApp.storage.contacts.lookup (Node.symbolicPeer 7) := by
    decide +kernel
  refine ⟨rfl, by decide +kernel, by decide +kernel, fun hconfined => hcontact ?_⟩
  rw [hconfined.contacts]

end

end Mycelium.App
