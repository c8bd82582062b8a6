import Mycelium.App.Announce
import Mycelium.Node.DataFrames

/-!
# Mycelium app — a body that somebody rewrote

The body of a `Data` message is outside the signature of its envelope. The node asks for nothing
but the signature when there is one, and the app looks at the body first: three tags have handlers
of their own. A relay that rewrites the body of a signed message cannot make the node refuse it,
and among bodies with the same tag nothing changes; under another tag the payload meets a handler
that it was not made for. Two of the three drop it. The proximity handler may take its bytes for a
proximity payload, and then changes the proximity tables.

* `BodyTag` — what the app looks for in a body;
* `AppNode.written` — what a message leaves behind: the storage, the proximity tables, and the
  calls to the coin node and to the app store;
* `relabelled_message` — a signed message under any body.
-/

namespace Mycelium.App

/-- What `dispatch_incoming` looks for in a body. -/
inductive BodyTag where
  | group
  | proximity
  | bulletin (scope : String)
  | none
deriving DecidableEq

def bodyTag (body : String) : BodyTag :=
  if body = "[mycelium:group]" then .group
  else if body = "[proximity]" then .proximity
  else
    match AppNode.bulletinScope body with
    | some scope => .bulletin scope
    | none => .none

/-- The calls that reach another store. -/
def AppOutput.isWrite : AppOutput → Bool
  | .coinHandleIncoming _ _ => true
  | .ingestRevocation _ => true
  | .cacheListing _ => true
  | _ => false

/-- The tables of the proximity handler. -/
structure ProximityTables where
  presence : KvTree.Of Uuid PresenceSignal
  matchState : ProximityMatchState
  inbox : List ProximityReceivedMessage

def AppNode.proximityTables (app : AppNode) : ProximityTables where
  presence := app.proximityStore
  matchState := app.proximityMatches
  inbox := app.proximityInbox

/-- What an app has written: its storage, the proximity tables, and through the coin node and the
app store. -/
structure Written where
  storage : AppStorage
  proximity : ProximityTables
  calls : List AppOutput

def AppNode.written (app : AppNode) : Written where
  storage := app.storage
  proximity := app.proximityTables
  calls := app.out.filter AppOutput.isWrite

/-! ## The node -/

section

variable [Prims] [Node.World]

/-- The checks of the node on a signed message do not depend on the body. -/
theorem admits_body {envelope : Envelope} (h : Node.AuthorSigned envelope) {s : Node.NodeRunner}
    {fromPeer body₁ : String} (body₂ : String)
    (hadmits : Node.Admits s fromPeer ⟨envelope, body₁⟩) :
    Node.Admits s fromPeer ⟨envelope, body₂⟩ := by
  have hallow : ∀ now, s.ingestGuard.allowDirect envelope.signatureAuthorPeer ⟨envelope, body₁⟩ now
      = s.ingestGuard.allowDirect envelope.signatureAuthorPeer ⟨envelope, body₂⟩ now := by
    intro now
    simp only [Node.IngestGuard.allowDirect]
  have hexpired : ∀ now, DirectMessage.isExpired ⟨envelope, body₁⟩ now
      = DirectMessage.isExpired ⟨envelope, body₂⟩ now := by
    intro now
    simp only [DirectMessage.isExpired]
  exact {
    free := hadmits.free
    validated := Node.validateDataMessageSignature_ok_iff.mpr (.inr h)
    hops := hadmits.hops
    allowed := (congrArg Prod.fst (hallow _)).symm.trans hadmits.allowed
    unexpired := (hexpired _).symm.trans hadmits.unexpired
    unknown := hadmits.unknown }

/-- The node accepts a signed message under every body, or under none. -/
theorem accepted_body {envelope : Envelope} (h : Node.AuthorSigned envelope) (s : Node.NodeRunner)
    (fromPeer body₁ body₂ : String) :
    Node.dataVerdict s fromPeer ⟨envelope, body₁⟩ = .accepted
      ↔ Node.dataVerdict s fromPeer ⟨envelope, body₂⟩ = .accepted := by
  rw [Node.dataVerdict_accepted_iff, Node.dataVerdict_accepted_iff]
  exact ⟨admits_body h body₂, admits_body h body₁⟩

end

/-! ## The app -/

section

variable [Prims] [AppCodec]

theorem route_eq (app : AppNode) (body : String) (payload : Bytes) :
    app.route body payload = match bodyTag body with
      | .group => .group payload
      | .proximity => .proximity payload
      | .bulletin scope => match app.handleBulletinPayload payload scope with
        | some (some post) => .payload (.bulletin post)
        | _ => .dropped
      | .none => match AppCodec.decodeAppMessage payload with
        | some appMsg => .payload appMsg.payload
        | none => .dropped := by
  unfold AppNode.route bodyTag
  split
  · rfl
  split
  · rfl
  cases AppNode.bulletinScope body with
  | some scope => rfl
  | none => rfl

/-- The handler depends on the tag and on the payload. -/
theorem route_bodyTag {body₁ body₂ : String} (h : bodyTag body₁ = bodyTag body₂) (app : AppNode)
    (payload : Bytes) : app.route body₁ payload = app.route body₂ payload := by
  rw [route_eq, route_eq, h]

omit [Prims] [AppCodec] in
theorem bodyTag_untagged {body : String} (h : Untagged body) : bodyTag body = .none := by
  unfold bodyTag
  rw [if_neg h.group, if_neg h.proximity, h.bulletin]

variable [Node.WireCodec]

theorem dispatchIncoming_bodyTag {body₁ body₂ : String} (h : bodyTag body₁ = bodyTag body₂)
    (now : UInt64) (envelope : Envelope) (app : AppNode) :
    app.dispatchIncoming now ⟨envelope, body₁⟩ = app.dispatchIncoming now ⟨envelope, body₂⟩ := by
  rw [dispatchIncoming_eq_run, dispatchIncoming_eq_run, route_bodyTag h]
  cases app.route body₂ envelope.payload with
  | group payload => rfl
  | proximity payload => rfl
  | payload p => rfl
  | dropped => rfl

omit [Node.WireCodec] in
/-- The proximity handler writes its tables and nothing else. -/
theorem written_handleProximityPayload (now : UInt64) (payload : Bytes) (app : AppNode) :
    (app.handleProximityPayload now payload).written
      = { app.written with
          proximity := (app.handleProximityPayload now payload).proximityTables } := by
  -- every branch leaves the storage, and the only output is a notification
  unfold AppNode.handleProximityPayload AppNode.handleProximityDirect AppNode.receiveProximity
    AppNode.handlePresence AppNode.handleMatchIntent
  repeat' split
  all_goals simp [AppNode.written, AppNode.emit, AppOutput.isWrite]

/-- The payload of a message is no group message. -/
theorem handleGroupPayload_message (hbin : Bincode) {envelope : Envelope} {m : AppMessage}
    (h : AppCodec.decodeAppMessage envelope.payload = some m) (app : AppNode) :
    app.handleGroupPayload envelope = app := by
  unfold AppNode.handleGroupPayload
  split
  · next groupId encrypted hwire =>
    obtain ⟨rest, hraw⟩ := hbin.groupHead _ _ _ hwire
    have hbytes : leBytes 4 7 = 7 :: [0, 0, 0] := by decide +kernel
    rw [hbytes, List.cons_append] at hraw
    exact absurd hraw.symm (hbin.not_seven h _)
  · rfl

/-- Under the tag of a scope a message is handled as what it is, or dropped. -/
theorem dispatchIncoming_bulletinTag (hbin : Bincode) {envelope : Envelope} {m : AppMessage}
    (h : AppCodec.decodeAppMessage envelope.payload = some m) {body scope plain : String}
    (htag : AppNode.bulletinScope body = some scope) (hplain : Untagged plain) (now : UInt64)
    (app : AppNode) :
    app.dispatchIncoming now ⟨envelope, body⟩ = app
      ∨ app.dispatchIncoming now ⟨envelope, body⟩ = app.dispatchIncoming now ⟨envelope, plain⟩ := by
  rw [dispatchIncoming_eq_run, dispatchIncoming_eq_run]
  simp only
  rw [hbin.route_plain h htag app, route_untagged hplain, h]
  simp only
  cases m.payload with
  | bulletin post => exact .inr rfl
  | chat m => exact .inl rfl
  | mail m => exact .inl rfl
  | coin inner => exact .inl rfl
  | appStoreListing listing => exact .inl rfl
  | miniAppRevocation entry => exact .inl rfl

/-- **A message under any other body**: it is handled as what it is, or dropped. -/
theorem dispatchIncoming_message (hbin : Bincode) {envelope : Envelope} {m : AppMessage}
    (h : AppCodec.decodeAppMessage envelope.payload = some m) {plain : String}
    (hplain : Untagged plain) {body : String} (hproximity : body ≠ "[proximity]") (now : UInt64)
    (app : AppNode) :
    app.dispatchIncoming now ⟨envelope, body⟩ = app
      ∨ app.dispatchIncoming now ⟨envelope, body⟩ = app.dispatchIncoming now ⟨envelope, plain⟩ := by
  by_cases hgroup : body = "[mycelium:group]"
  · left
    rw [AppNode.dispatchIncoming, if_pos hgroup, handleGroupPayload_message hbin h]
  cases htag : AppNode.bulletinScope body with
  | some scope => exact dispatchIncoming_bulletinTag hbin h htag hplain now app
  | none =>
    refine .inr (dispatchIncoming_bodyTag ?_ now envelope app)
    rw [bodyTag_untagged ⟨hgroup, hproximity, htag⟩, bodyTag_untagged hplain]

/-- **A signed message whose body was rewritten.** The node decides as before; the app does the
same for every body with the same tag. A chat, a mail, a coin message or any other message of the
app is handled as what it is or dropped under every body but `[proximity]`; under that one it goes
to the proximity handler, which writes nothing but the proximity tables. -/
theorem relabelled_message [Node.World] (hbin : Bincode) {envelope : Envelope}
    (hsigned : Node.AuthorSigned envelope) :
    (∀ s fromPeer body₁ body₂, Node.dataVerdict s fromPeer ⟨envelope, body₁⟩ = .accepted
      ↔ Node.dataVerdict s fromPeer ⟨envelope, body₂⟩ = .accepted)
    ∧ (∀ now app body₁ body₂, bodyTag body₁ = bodyTag body₂ →
      AppNode.dispatchIncoming now ⟨envelope, body₁⟩ app
        = AppNode.dispatchIncoming now ⟨envelope, body₂⟩ app)
    ∧ ∀ m, AppCodec.decodeAppMessage envelope.payload = some m → ∀ plain, Untagged plain →
      ∀ now app,
        (∀ body, body ≠ "[proximity]" →
          AppNode.dispatchIncoming now ⟨envelope, body⟩ app = app
            ∨ AppNode.dispatchIncoming now ⟨envelope, body⟩ app
              = AppNode.dispatchIncoming now ⟨envelope, plain⟩ app)
        ∧ AppNode.dispatchIncoming now ⟨envelope, "[proximity]"⟩ app
            = AppNode.handleProximityPayload now envelope.payload app
        ∧ ∃ proximity, (AppNode.dispatchIncoming now ⟨envelope, "[proximity]"⟩ app).written
            = { app.written with proximity } := by
  refine ⟨?_, ?_, ?_⟩
  · intro s fromPeer body₁ body₂
    exact accepted_body hsigned s fromPeer body₁ body₂
  · intro now app body₁ body₂ htag
    exact dispatchIncoming_bodyTag htag now envelope app
  · intro m hdecode plain hplain now app
    -- `[proximity]` is the one body that hands the decoded bytes to another handler
    have hhandler : AppNode.dispatchIncoming now ⟨envelope, "[proximity]"⟩ app
        = AppNode.handleProximityPayload now envelope.payload app := by
      have hgroup : "[proximity]" ≠ "[mycelium:group]" := by decide
      rw [AppNode.dispatchIncoming, if_neg hgroup, if_pos rfl]
    refine ⟨fun body hbody => ?_, hhandler,
      (app.handleProximityPayload now envelope.payload).proximityTables, ?_⟩
    · exact dispatchIncoming_message hbin hdecode hplain hbody now app
    · rw [hhandler]
      exact written_handleProximityPayload now envelope.payload app

end

section

attribute [local instance] symbolicPrims chatEncoder hiCodec hiGroupCodec attributionWorld

/-- The chat message `hi` that peer 1 signed. -/
def signedHi : Envelope := (directMessage "hi" (hiPayload 0)).envelope

theorem signedHi_signed : Node.AuthorSigned signedHi :=
  ⟨{ code := 0, digest := (symbolicKey 1).secret.toList }, by decide +kernel, by decide +kernel⟩

theorem untagged_hi : Untagged "hi" where
  group := by decide
  proximity := by decide
  bulletin := by decide +kernel

/-- Under the body of a post it is accepted as before, and the app drops it or takes it for what it
is; under the proximity tag no chat is filed. -/
theorem relabelled_message_bulletin :
    Node.dataVerdict (Node.symbolicNode 2 3 5000000) (Node.symbolicPeer 1) ⟨signedHi, "[bulletin:x]"⟩
        = .accepted
    ∧ freshApp.dispatchIncoming 5000000 ⟨signedHi, "hello"⟩
        = freshApp.dispatchIncoming 5000000 ⟨signedHi, "hi"⟩
    ∧ (freshApp.dispatchIncoming 5000000 ⟨signedHi, "[bulletin:x]"⟩ = freshApp
      ∨ freshApp.dispatchIncoming 5000000 ⟨signedHi, "[bulletin:x]"⟩
        = freshApp.dispatchIncoming 5000000 ⟨signedHi, "hi"⟩)
    ∧ (freshApp.dispatchIncoming 5000000 ⟨signedHi, "[proximity]"⟩).storage = freshApp.storage := by
  obtain ⟨hverdict, htag, hmessage⟩ := relabelled_message hiCodec_bincode signedHi_signed
  obtain ⟨hother, -, proximity, hwritten⟩ :=
    hmessage (hiMessage 0) (by decide +kernel) "hi" untagged_hi 5000000 freshApp
  exact ⟨(hverdict _ _ "hi" _).mp (by decide +kernel), htag _ _ _ _ (by decide +kernel),
    hother _ (by decide), congrArg Written.storage hwritten⟩

/-- A relay puts the tag of a proximity message on the chat message: the node accepts both, and
the app files the chat under one body and drops it under the other. -/
theorem chat_relabelled :
    Node.AuthorSigned signedHi
    ∧ Node.dataVerdict (Node.symbolicNode 2 3 5000000) (Node.symbolicPeer 1) ⟨signedHi, "hi"⟩
        = .accepted
    ∧ Node.dataVerdict (Node.symbolicNode 2 3 5000000) (Node.symbolicPeer 1) ⟨signedHi, "[proximity]"⟩
        = .accepted
    ∧ (freshApp.dispatchIncoming 5000000 ⟨signedHi, "hi"⟩).storage
        ≠ (freshApp.dispatchIncoming 5000000 ⟨signedHi, "[proximity]"⟩).storage := by
  refine ⟨signedHi_signed, by decide +kernel, by decide +kernel, ?_⟩
  intro hsame
  have hchats := congrArg (fun st => st.chats.entries.length) hsame
  revert hchats
  decide +kernel

end

end Mycelium.App
