import Mycelium.App.Node
import Mycelium.Node.Frames
import Mycelium.Node.Symbolic

/-!
# Mycelium app — under whose name a message is filed

The node checks a signature for the *author* of a message, `author_peer` if it is set; the
app files the content under `from_peer`. The author is not among the signed bytes, so the
two need not be the same peer.

* `dispatchIncoming_onlyUnder` — whatever the payload, a message outside the gossip tags
  changes chat history, contacts, the chat channel and the coin node's view only under its
  `from_peer`;
* `attribution_iff` — that peer is the signer exactly when `author_peer` is absent or names
  the same key.
-/

namespace Mycelium.App

/-- The peer an output is about, for the outputs that name the sender of a message. -/
def AppOutput.attributedTo : AppOutput → Option String
  | .onContactRequest peerId _ => some peerId
  | .chatIncoming fromPeer _ => some fromPeer
  | .coinHandleIncoming _ fromPeer => some fromPeer
  | _ => none

/-- Between two states of the app, something new is filed under `p`: a chat message, a
contact row, or an output that names `p` as its sender. -/
def FiledUnder (p : String) (app app' : AppNode) : Prop :=
  (∃ ts, app'.storage.chats.lookup (p, ts) ≠ app.storage.chats.lookup (p, ts))
  ∨ app'.storage.contacts.lookup p ≠ app.storage.contacts.lookup p
  ∨ ∃ o ∈ app'.out.drop app.out.length, o.attributedTo = some p

/-! ## Handlers file under one peer only -/

/-- What changes between two states of the app is filed under `q`. -/
structure OnlyUnder (q : String) (app app' : AppNode) : Prop where
  chats : ∀ p ts, p ≠ q → app'.storage.chats.lookup (p, ts) = app.storage.chats.lookup (p, ts)
  contacts : ∀ p, p ≠ q → app'.storage.contacts.lookup p = app.storage.contacts.lookup p
  out : ∃ new, app'.out = app.out ++ new ∧ ∀ o ∈ new, ∀ p, o.attributedTo = some p → p = q

namespace OnlyUnder

variable {q : String} {app app' app'' : AppNode}

/-- Nothing was done. -/
theorem refl : OnlyUnder q app app where
  chats _ _ _ := rfl
  contacts _ _ := rfl
  out := ⟨[], by simp, by simp⟩

/-- One thing after the other. -/
theorem trans (h : OnlyUnder q app app') (h' : OnlyUnder q app' app'') : OnlyUnder q app app'' where
  chats p ts hp := (h'.chats p ts hp).trans (h.chats p ts hp)
  contacts p hp := (h'.contacts p hp).trans (h.contacts p hp)
  out := by
    obtain ⟨new, hout, hnew⟩ := h.out
    obtain ⟨new', hout', hnew'⟩ := h'.out
    refine ⟨new ++ new', by rw [hout', hout, List.append_assoc], ?_⟩
    intro o ho
    rcases List.mem_append.mp ho with ho | ho
    · exact hnew o ho
    · exact hnew' o ho

/-- An output under the name, or under none. -/
theorem emit (h : OnlyUnder q app app') {o : AppOutput}
    (ho : ∀ p, o.attributedTo = some p → p = q) : OnlyUnder q app (app'.emit o) := by
  refine h.trans ⟨fun _ _ _ => rfl, fun _ _ => rfl, [o], rfl, ?_⟩
  intro o' ho'
  rw [List.mem_singleton.mp ho']
  exact ho

/-- A change of storage that leaves chats and contacts alone. -/
theorem updateOther (h : OnlyUnder q app app') {f : AppStorage → AppStorage}
    (hchats : (f app'.storage).chats = app'.storage.chats)
    (hcontacts : (f app'.storage).contacts = app'.storage.contacts) :
    OnlyUnder q app (app'.updateStorage f) := by
  refine h.trans ⟨fun p ts _ => ?_, fun p _ => ?_, [], by simp [AppNode.updateStorage], by simp⟩
  · show (f app'.storage).chats.lookup (p, ts) = _
    rw [hchats]
  · show (f app'.storage).contacts.lookup p = _
    rw [hcontacts]

/-- A chat message is saved in the conversation with the sender. -/
theorem saveChat (h : OnlyUnder q app app') (m : ChatMessage) :
    OnlyUnder q app (app'.updateStorage (·.saveChat q m)) := by
  refine h.trans ⟨fun p ts hp => ?_, fun _ _ => rfl, [], by simp [AppNode.updateStorage], by simp⟩
  exact AList.lookup_insert_ne (by simp [hp])

/-- A contact is entered if there is none. -/
theorem upsertContact (h : OnlyUnder q app app') (now : UInt64) (name : String)
    (hnone : app'.storage.contactById q = none) :
    OnlyUnder q app (app'.updateStorage (·.upsertContact now q name .pending)) := by
  have hnew : app'.storage.upsertContact now q name .pending
      = app'.storage.saveContact ⟨q, name, now, .pending⟩ := by
    unfold AppStorage.upsertContact
    rw [hnone]
  refine h.trans ⟨fun p ts _ => ?_, fun p hp => ?_, [], by simp [AppNode.updateStorage], by simp⟩
  · show (app'.storage.upsertContact now q name .pending).chats.lookup (p, ts) = _
    rw [hnew]
    rfl
  · show (app'.storage.upsertContact now q name .pending).contacts.lookup p = _
    rw [hnew]
    exact AList.lookup_insert_ne hp

/-- A change outside storage and outputs. -/
theorem of_same (hstorage : app'.storage = app.storage) (hout : app'.out = app.out) :
    OnlyUnder q app app' where
  chats _ _ _ := by rw [hstorage]
  contacts _ _ := by rw [hstorage]
  out := ⟨[], by simp [hout], by simp⟩

/-- What was filed is filed under `q`. -/
theorem eq_of_filedUnder (h : OnlyUnder q app app') {p : String} (hp : FiledUnder p app app') :
    p = q := by
  rcases hp with ⟨ts, hchat⟩ | hcontact | ⟨o, ho, hattr⟩
  · by_contra hne
    exact hchat (h.chats p ts hne)
  · by_contra hne
    exact hcontact (h.contacts p hne)
  · obtain ⟨new, hout, hnew⟩ := h.out
    rw [hout, List.drop_left] at ho
    exact hnew o ho p hattr

end OnlyUnder

section

variable {q : String}

/-- A chat that asks for contact. -/
theorem handleChatContact_onlyUnder (now : UInt64) (m : ChatMessage) (app : AppNode) :
    OnlyUnder q app (app.handleChatContact now q m) := by
  unfold AppNode.handleChatContact
  split
  · split
    · exact .refl
    · exact OnlyUnder.refl.emit (by simp [AppOutput.attributedTo])
  · next hnone =>
    exact (OnlyUnder.refl.upsertContact now _ hnone).emit (by simp [AppOutput.attributedTo])

/-- A chat. -/
theorem handleChat_onlyUnder (now : UInt64) (m : ChatMessage) (app : AppNode) :
    OnlyUnder q app (app.handleChat now q m) := by
  unfold AppNode.handleChat
  split
  · exact .refl
  · have hsaved := (handleChatContact_onlyUnder (q := q) now m app).saveChat m
    unfold AppNode.saveAndShowChat
    simp only
    split
    · exact (hsaved.emit (by simp [AppOutput.attributedTo])).emit (by simp [AppOutput.attributedTo])
    · exact hsaved

/-- A post is filed under its scope and names no peer. -/
theorem handleBulletin_onlyUnder (post : BulletinPost) (app : AppNode) :
    OnlyUnder q app (app.handleBulletin post) :=
  ((OnlyUnder.refl.updateOther rfl rfl).emit (by simp [AppOutput.attributedTo])).emit
    (by simp [AppOutput.attributedTo])

/-- So is mail. -/
theorem handleMail_onlyUnder (m : MailMessage) (app : AppNode) :
    OnlyUnder q app (app.handleMail m) :=
  ((OnlyUnder.refl.updateOther rfl rfl).emit (by simp [AppOutput.attributedTo])).emit
    (by simp [AppOutput.attributedTo])

/-- A coin payload is passed on with its sender. -/
theorem handleCoin_onlyUnder [AppCodec] (inner : Bytes) (app : AppNode) :
    OnlyUnder q app (app.handleCoin q inner) := by
  unfold AppNode.handleCoin
  split
  · split
    · exact OnlyUnder.refl.emit (by simp [AppOutput.attributedTo])
    · exact .refl
  · exact .refl

/-- A revocation is passed to the store. -/
theorem handleRevocation_onlyUnder (entry : RevocationGossip) (app : AppNode) :
    OnlyUnder q app (app.handleRevocation entry) := by
  unfold AppNode.handleRevocation
  split
  · exact OnlyUnder.refl.emit (by simp [AppOutput.attributedTo])
  · exact .refl

/-- So is a listing. -/
theorem handleListing_onlyUnder [Prims] [AppCodec] (listing : AppStoreListing) (app : AppNode) :
    OnlyUnder q app (app.handleListing listing) := by
  unfold AppNode.handleListing
  split
  · exact (OnlyUnder.refl.emit (by simp [AppOutput.attributedTo])).emit
      (by simp [AppOutput.attributedTo])
  · exact .refl

/-- A proximity message is kept in its own inbox. -/
theorem receiveProximity_onlyUnder (now : UInt64) (sender : String) (plain : Bytes)
    (app : AppNode) : OnlyUnder q app (app.receiveProximity now sender plain) := by
  refine OnlyUnder.emit ?_ (by simp [AppOutput.attributedTo])
  exact .of_same rfl rfl

/-- Sealed or not. -/
theorem handleProximityDirect_onlyUnder [Prims] (now : UInt64) (msg : ProximityDirectMessage)
    (app : AppNode) : OnlyUnder q app (app.handleProximityDirect now msg) := by
  unfold AppNode.handleProximityDirect
  split
  · exact .refl
  · split
    · exact .refl
    · split
      · exact receiveProximity_onlyUnder now _ _ app
      · exact .refl

/-- A presence is kept in the table of those nearby. -/
theorem handlePresence_onlyUnder (now : UInt64) (signal : PresenceSignal) (app : AppNode) :
    OnlyUnder q app (app.handlePresence now signal) := by
  unfold AppNode.handlePresence
  split
  · exact .refl
  · split
    · exact .refl
    · exact .of_same rfl rfl

/-- An intent is noted under its key. -/
theorem handleMatchIntent_onlyUnder (now : UInt64) (intent : ProximityMatchIntent)
    (app : AppNode) : OnlyUnder q app (app.handleMatchIntent now intent) := by
  unfold AppNode.handleMatchIntent
  split
  · exact .refl
  · split
    · exact .refl
    · exact .of_same rfl rfl

variable [Prims] [AppCodec]

/-- Whatever the payload is. -/
theorem handlePayload_onlyUnder (now : UInt64) (payload : AppPayload) (app : AppNode) :
    OnlyUnder q app (app.handlePayload now q payload) := by
  cases payload with
  | chat m => exact handleChat_onlyUnder now m app
  | bulletin post => exact handleBulletin_onlyUnder post app
  | mail m => exact handleMail_onlyUnder m app
  | coin inner => exact handleCoin_onlyUnder inner app
  | miniAppRevocation entry => exact handleRevocation_onlyUnder entry app
  | appStoreListing listing => exact handleListing_onlyUnder listing app

/-- Proximity messages name keys, not peers: nothing is filed under a peer. -/
theorem handleProximityPayload_onlyUnder (now : UInt64) (payload : Bytes) (app : AppNode) :
    OnlyUnder q app (app.handleProximityPayload now payload) := by
  unfold AppNode.handleProximityPayload
  split
  · exact .refl
  · split
    · exact handleProximityDirect_onlyUnder now _ app
    · split
      · exact handlePresence_onlyUnder now _ app
      · split
        · exact handleMatchIntent_onlyUnder now _ app
        · exact .refl

/-- **A message outside the gossip tags is filed under its `from_peer` only.** -/
theorem dispatchIncoming_onlyUnder [Node.WireCodec] (now : UInt64) (msg : DirectMessage)
    (app : AppNode) (hbody : Node.isGossipRelayBody msg.body = false) :
    OnlyUnder msg.envelope.fromPeer app (app.dispatchIncoming now msg) := by
  unfold AppNode.dispatchIncoming
  split
  · next hgroup =>
    rw [hgroup] at hbody
    exact absurd hbody (by decide)
  · split
    · exact handleProximityPayload_onlyUnder now _ app
    · split
      · split
        · exact handleBulletin_onlyUnder _ app
        · exact .refl
      · split
        · exact handlePayload_onlyUnder now _ app
        · exact .refl

/-! ## Who signed -/

/-- The signature of the message checks under the key that `p` carries. -/
def SignedBy (p : String) (m : DirectMessage) : Prop :=
  ∃ id, Prims.parsePeerId p = some id ∧ m.envelope.verify id = true

/-- The two peer ids parse and carry the same key. -/
def SameKey (p q : String) : Prop :=
  ∃ a b pk, Prims.parsePeerId p = some a ∧ Prims.parsePeerId q = some b
    ∧ a.publicKey = some pk ∧ b.publicKey = some pk

omit [AppCodec] in
/-- Once a signature checks for the author, it checks for exactly the peers with the
author's key. -/
theorem verify_iff_publicKey_eq (hideal : Prims.identity.Ideal) {e : Envelope} {author : PeerId}
    (hauthor : e.verify author = true) (id : PeerId) :
    e.verify id = true ↔ id.publicKey = author.publicKey := by
  obtain ⟨sig, pk, hsig, hpk, hchecked⟩ := Envelope.verify_iff.mp hauthor
  obtain ⟨sk, hsk, hmade⟩ := hideal.sound hchecked
  constructor
  · intro hverify
    obtain ⟨sig', pk', hsig', hpk', hchecked'⟩ := Envelope.verify_iff.mp hverify
    obtain rfl : sig' = sig := Option.some.inj (hsig'.symm.trans hsig)
    have hsame : pk' = pk := ((hideal.verify_iff hmade pk' _).mp hchecked').1.trans hsk
    rw [hpk', hpk, hsame]
  · intro hsame
    exact Envelope.verify_iff.mpr ⟨sig, pk, hsig, hsame.trans hpk, hchecked⟩

/-- **When a message is filed under its signer.** For every `Data` message the node accepts
and hands to the app, outside the gossip tags, whatever its payload and whatever the app's
state: each peer the app files something under is the signer exactly when `author_peer` is
absent or carries the key of `from_peer`. -/
theorem attribution_iff [Node.World] [Node.WireCodec] (hideal : Prims.identity.Ideal)
    {s : Node.NodeRunner} {fromPeer : String} {msg : WireMessage} {m : DirectMessage}
    (hdelivered : .deliver .data m ∈ Node.frameOutputs s fromPeer msg)
    (hbody : Node.isGossipRelayBody m.body = false) (app : AppNode) (now : UInt64) {p : String}
    (hfiled : FiledUnder p app (app.dispatchIncoming now m)) :
    SignedBy p m ↔ ∀ a, m.envelope.authorPeer = some a → SameKey a m.envelope.fromPeer := by
  obtain rfl : p = m.envelope.fromPeer :=
    (dispatchIncoming_onlyUnder now m app hbody).eq_of_filedUnder hfiled
  obtain ⟨-, haccepted, -⟩ := Node.frameOutputs_fromFrame _ hdelivered
  obtain ⟨author, hparse, hverify⟩ : ∃ author,
      Prims.parsePeerId m.envelope.signatureAuthorPeer = some author
        ∧ m.envelope.verify author = true := by
    rcases Node.validateDataMessageSignature_ok_iff.mp haccepted with htag | hchecked
    · exact absurd (htag.symm.trans hbody) (by decide)
    · exact hchecked
  obtain ⟨_, pk, _, hpk, _⟩ := Envelope.verify_iff.mp hverify
  constructor
  · rintro ⟨id, hid, hidVerify⟩ a ha
    have hsame := (verify_iff_publicKey_eq hideal hverify id).mp hidVerify
    rw [Envelope.signatureAuthorPeer, ha] at hparse
    exact ⟨author, id, pk, hparse, hid, hpk, hsame.trans hpk⟩
  · intro hcond
    cases ha : m.envelope.authorPeer with
    | none =>
      -- the author is `from_peer` itself
      rw [Envelope.signatureAuthorPeer, ha] at hparse
      exact ⟨author, hparse, hverify⟩
    | some a =>
      obtain ⟨author', id, pk', hparse', hid, hpk', hidpk⟩ := hcond a ha
      rw [Envelope.signatureAuthorPeer, ha] at hparse
      obtain rfl : author = author' := Option.some.inj (hparse.symm.trans hparse')
      exact ⟨id, hid, (verify_iff_publicKey_eq hideal hverify id).mpr (hidpk.trans hpk'.symm)⟩

end

section

attribute [local instance] symbolicPrims Node.noCodec

@[reducible] def attributionWorld : Node.World := Node.stillWorld 5000000

/-- A chat message, and a codec for which every payload is that message. -/
def symbolicChat : ChatMessage :=
  { id := ⟨Vector.replicate 16 0⟩, fromDisplayName := "", body := "hi", timestampMs := 7
    replyTo := none }

@[reducible] def chatCodec : AppCodec where
  decodeAppMessage _ := some { payload := .chat symbolicChat }
  decodeCoinPayload _ := none
  decodeProximityDirect _ := none
  decodePresence _ := none
  decodeMatchIntent _ := none
  manifestJson _ := []
  sourcesJson _ := []

attribute [local instance] attributionWorld chatCodec

/-- The app of peer 2, before anything was received. -/
def freshApp : AppNode :=
  { localPeerId := Node.symbolicPeer 2, localEncPubkeyHex := "", encKeypair := ⟨Vector.replicate 32 2⟩ }

/-- The message of peer 1 to peer 2, which names no author. -/
def honestMessage : DirectMessage := Node.symbolicMessage 1 (Node.symbolicPeer 2) 5000000

/-- A message that peer 1 signed, with `from_peer` peer 7 and `author_peer` itself. -/
def forgedMessage : DirectMessage :=
  { envelope :=
      { ((Envelope.new 5000000 (Node.symbolicPeer 7) (some (Node.symbolicPeer 2))
          (asBytes "hi")).sign (symbolicKey 1)).2 with
        authorPeer := some (Node.symbolicPeer 1) }
    body := "hi" }

/-- The honest message is filed under peer 1, who signed it. -/
theorem attribution_honest :
    FiledUnder (Node.symbolicPeer 1) freshApp (freshApp.dispatchIncoming 5000000 honestMessage)
    ∧ SignedBy (Node.symbolicPeer 1) honestMessage := by
  have hdelivered : .deliver .data honestMessage ∈ Node.frameOutputs (Node.symbolicNode 2 3 5000000)
      (Node.symbolicPeer 1) (.data honestMessage) := by
    decide +kernel
  have hfiled : FiledUnder (Node.symbolicPeer 1) freshApp
      (freshApp.dispatchIncoming 5000000 honestMessage) :=
    .inr (.inl (by decide +kernel))
  refine ⟨hfiled, (attribution_iff symbolicIdentity_ideal hdelivered (by decide) freshApp 5000000
    hfiled).mpr ?_⟩
  have hnone : honestMessage.envelope.authorPeer = none := by decide +kernel
  intro a ha
  cases hnone.symm.trans ha

/-- The node accepts the message that peer 1 signed and the app files it under peer 7, whose
key did not sign it. -/
theorem attribution_forged :
    .deliver .data forgedMessage ∈ Node.frameOutputs (Node.symbolicNode 2 3 5000000)
        (Node.symbolicPeer 1) (.data forgedMessage)
    ∧ Node.isGossipRelayBody forgedMessage.body = false
    ∧ FiledUnder (Node.symbolicPeer 7) freshApp
        (freshApp.dispatchIncoming 5000000 forgedMessage)
    ∧ ¬ SignedBy (Node.symbolicPeer 7) forgedMessage := by
  refine ⟨by decide +kernel, by decide, .inr (.inl (by decide +kernel)), ?_⟩
  rintro ⟨id, hid, hverify⟩
  have hparse : Prims.parsePeerId (Node.symbolicPeer 7)
      = some { code := 0, digest := (symbolicKey 7).secret.toList } := by
    decide +kernel
  obtain rfl := Option.some.inj (hparse.symm.trans hid)
  exact absurd hverify (by decide +kernel)

end

end Mycelium.App
