import Mycelium.App.Routes

/-!
# Mycelium app — everything a message can do

One inversion of `dispatch_incoming`: a message does nothing, or it is a group chat that opened,
or a proximity payload, or one of the payloads that write a store, or it only makes calls. What
holds of every message, and then of every sequence of messages, is read off these cases.

* `Dispatched` / `dispatchIncoming_dispatched` — the cases;
* `dispatchAll` — a sequence of messages, with the clock reading of each.
-/

namespace Mycelium.App

section

variable [Prims] [AppCodec] [Node.WireCodec]

/-- **What becomes of the app**, with what the message needs for it. -/
inductive Dispatched (now : UInt64) (msg : DirectMessage) (app : AppNode) : AppNode → Prop
  | nothing : Dispatched now msg app app
  | groupChat (groupId : String) (encrypted : Bytes) (m : ChatMessage)
      (hbody : msg.body = "[mycelium:group]")
      (hdecode : Node.WireCodec.decode msg.envelope.payload
        = some (.encryptedGroup groupId encrypted))
      (hopen : app.openGroupChat groupId encrypted = some m) :
      Dispatched now msg app (app.handleGroupChat groupId msg.envelope.fromPeer m)
  | proximity (hbody : msg.body = "[proximity]") :
      Dispatched now msg app (app.handleProximityPayload now msg.envelope.payload)
  | chat (m : ChatMessage) (hbody : msg.body ≠ "[mycelium:group]")
      (hpeer : msg.envelope.fromPeer ≠ app.localPeerId) :
      Dispatched now msg app
        ((app.handleChatContact now msg.envelope.fromPeer m).saveAndShowChat
          (app.chatAccepted msg.envelope.fromPeer) msg.envelope.fromPeer m)
  | bulletin (post : BulletinPost) : Dispatched now msg app (app.handleBulletin post)
  | mail (m : MailMessage) : Dispatched now msg app (app.handleMail m)
  /-- Calls to the coin node and to the app store. -/
  | calls (new : List AppOutput) (hnew : ∀ p m, .chatIncoming p m ∉ new) :
      Dispatched now msg app { app with out := app.out ++ new }

/-- The group branch. -/
theorem handleGroupPayload_dispatched {now : UInt64} {msg : DirectMessage} {app : AppNode}
    (hbody : msg.body = "[mycelium:group]") :
    Dispatched now msg app (app.handleGroupPayload msg.envelope) := by
  unfold AppNode.handleGroupPayload
  split
  · next groupId encrypted hdecode =>
    split
    · next m hopen => exact .groupChat groupId encrypted m hbody hdecode hopen
    · exact .nothing
  · exact .nothing

/-- The branch of a decoded payload. -/
theorem handlePayload_dispatched {now : UInt64} {msg : DirectMessage} {app : AppNode}
    (hbody : msg.body ≠ "[mycelium:group]") (p : AppPayload) :
    Dispatched now msg app (app.handlePayload now msg.envelope.fromPeer p) := by
  -- by the kind of payload; the ones whose arm has a guard may do nothing
  cases p with
  | chat m =>
    show Dispatched now msg app (app.handleChat now msg.envelope.fromPeer m)
    unfold AppNode.handleChat
    split
    · exact .nothing
    · next hpeer => exact .chat m hbody hpeer
  | bulletin post => exact .bulletin post
  | mail m => exact .mail m
  | coin inner =>
    show Dispatched now msg app (app.handleCoin msg.envelope.fromPeer inner)
    unfold AppNode.handleCoin
    split
    · split
      · exact .calls [.coinHandleIncoming _ _] (by simp)
      · exact .nothing
    · exact .nothing
  | appStoreListing listing =>
    show Dispatched now msg app (app.handleListing listing)
    unfold AppNode.handleListing
    split
    · have hout : (app.emit (.cacheListing listing)).emit (.listingIncoming listing)
          = { app with out := app.out ++ [.cacheListing listing, .listingIncoming listing] } := by
        simp [AppNode.emit]
      rw [hout]
      exact .calls [.cacheListing listing, .listingIncoming listing] (by simp)
    · exact .nothing
  | miniAppRevocation entry =>
    show Dispatched now msg app (app.handleRevocation entry)
    unfold AppNode.handleRevocation
    split
    · exact .calls [.ingestRevocation entry] (by simp)
    · exact .nothing

/-- **The inversion.** -/
theorem dispatchIncoming_dispatched (now : UInt64) (msg : DirectMessage) (app : AppNode) :
    Dispatched now msg app (app.dispatchIncoming now msg) := by
  unfold AppNode.dispatchIncoming
  split
  · next hbody => exact handleGroupPayload_dispatched hbody
  next hbody =>
  split
  · next hproximity => exact .proximity hproximity
  split
  · split
    · next post _ => exact .bulletin post
    · exact .nothing
  · split
    · next appMsg _ => exact handlePayload_dispatched hbody appMsg.payload
    · exact .nothing

/-! ## Sequences of messages -/

/-- The app takes messages in their order; each is handled at its own time. -/
def dispatchAll (msgs : List (UInt64 × DirectMessage)) (app : AppNode) : AppNode :=
  msgs.foldl (fun app e => app.dispatchIncoming e.1 e.2) app

end

end Mycelium.App
