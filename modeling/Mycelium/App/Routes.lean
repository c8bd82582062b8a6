import Mycelium.App.AppStore

/-!
# Mycelium app — the handler of a message

`dispatch_incoming` looks at the body of a message, then at its payload, and ends in one of a few
handlers. `route` is that choice and `Handler.run` the handler; `dispatchIncoming_eq_run` says
that dispatching is the one after the other, so that two messages are compared by their routes
and what a message does is read off its handler.

* `Handler.run_board` — only a bulletin is filed under a scope;
* `Handler.run_storeCalls` — only listings and revocations reach the app store.
-/

namespace Mycelium.App

/-- What a message is handed to. -/
inductive Handler where
  /-- The group branch, with the payload it decodes. -/
  | group (payload : Bytes)
  /-- `handle_proximity_payload`. -/
  | proximity (payload : Bytes)
  /-- The branch of one decoded payload; a bulletin that came under its tag ends here too. -/
  | payload (p : AppPayload)
  /-- Nothing: the payload did not decode, or was not for this branch. -/
  | dropped
deriving DecidableEq

section

variable [Prims] [AppCodec]

/-- The handler of a payload under a body. -/
def AppNode.route (app : AppNode) (body : String) (payload : Bytes) : Handler :=
  if body = "[mycelium:group]" then .group payload
  else if body = "[proximity]" then .proximity payload
  else
    match AppNode.bulletinScope body with
    | some scope =>
      match app.handleBulletinPayload payload scope with
      | some (some post) => .payload (.bulletin post)
      | _ => .dropped
    | none =>
      match AppCodec.decodeAppMessage payload with
      | some appMsg => .payload appMsg.payload
      | none => .dropped

/-- What a handler does. -/
def Handler.run [Node.WireCodec] (now : UInt64) (msg : DirectMessage) (app : AppNode) :
    Handler → AppNode
  | .group _ => app.handleGroupPayload msg.envelope
  | .proximity raw => app.handleProximityPayload now raw
  | .payload p => app.handlePayload now msg.envelope.fromPeer p
  | .dropped => app

/-- Dispatching is running the route: no message is handled otherwise. -/
theorem dispatchIncoming_eq_run [Node.WireCodec] (now : UInt64) (msg : DirectMessage)
    (app : AppNode) :
    app.dispatchIncoming now msg
      = (app.route msg.body msg.envelope.payload).run now msg app := by
  unfold AppNode.dispatchIncoming AppNode.route
  split
  · rfl
  split
  · rfl
  cases AppNode.bulletinScope msg.body with
  | some scope =>
    cases hfound : app.handleBulletinPayload msg.envelope.payload scope with
    | none => simp [hfound, Handler.run]
    | some found =>
      cases found with
      | none => simp [hfound, Handler.run]
      | some post => simp [hfound, Handler.run, AppNode.handlePayload]
  | none =>
    cases AppCodec.decodeAppMessage msg.envelope.payload with
    | some appMsg => rfl
    | none => rfl

end

/-! ## Bulletins -/

/-- The posts and the scope keys are as before. -/
structure SameBoard (app app' : AppNode) : Prop where
  bulletins : app'.storage.bulletins = app.storage.bulletins
  scopeKeys : app'.storage.scopeKeys = app.storage.scopeKeys

/-- Nothing has been posted. -/
theorem SameBoard.refl {app : AppNode} : SameBoard app app := ⟨rfl, rfl⟩

section

variable [Prims] [AppCodec] [Node.WireCodec]

omit [Prims] [AppCodec] [Node.WireCodec] in
/-- A chat writes conversations and contacts. -/
theorem handleChat_sameBoard (now : UInt64) (peer : String) (m : ChatMessage) (app : AppNode) :
    SameBoard app (app.handleChat now peer m) := by
  unfold AppNode.handleChat
  split
  · exact .refl
  -- asking for the contact writes contacts only
  have hcontact : SameBoard app (app.handleChatContact now peer m) := by
    unfold AppNode.handleChatContact
    split
    · split
      · exact .refl
      · exact ⟨rfl, rfl⟩
    · next hnone =>
      have hupsert : ∀ name, app.storage.upsertContact now peer name .pending
          = app.storage.saveContact ⟨peer, name, now, .pending⟩ := by
        intro name
        unfold AppStorage.upsertContact
        rw [hnone]
      refine ⟨?_, ?_⟩
      · show (app.storage.upsertContact now peer _ .pending).bulletins = _
        rw [hupsert]
        rfl
      · show (app.storage.upsertContact now peer _ .pending).scopeKeys = _
        rw [hupsert]
        rfl
  -- what is saved is a chat row, whether it is shown or not
  unfold AppNode.saveAndShowChat
  simp only
  split
  · exact ⟨hcontact.bulletins, hcontact.scopeKeys⟩
  · exact ⟨hcontact.bulletins, hcontact.scopeKeys⟩

/-- A group message writes the group's conversation. -/
theorem handleGroupPayload_sameBoard (envelope : Envelope) (app : AppNode) :
    SameBoard app (app.handleGroupPayload envelope) := by
  unfold AppNode.handleGroupPayload
  split
  · next groupId _ _ =>
    split
    · next m _ =>
      -- recording the member writes the group table alone
      have hseen : ∀ st : AppStorage, (st.groupRecordPeerSeen groupId envelope.fromPeer).bulletins
            = st.bulletins
          ∧ (st.groupRecordPeerSeen groupId envelope.fromPeer).scopeKeys = st.scopeKeys := by
        intro st
        unfold AppStorage.groupRecordPeerSeen
        split <;> exact ⟨rfl, rfl⟩
      exact ⟨(hseen _).1, (hseen _).2⟩
    · exact .refl
  · exact .refl

omit [Node.WireCodec] in
/-- Proximity messages do not reach the storage. -/
theorem handleProximityPayload_storage (now : UInt64) (payload : Bytes) (app : AppNode) :
    (app.handleProximityPayload now payload).storage = app.storage := by
  unfold AppNode.handleProximityPayload AppNode.handleProximityDirect AppNode.handlePresence
    AppNode.handleMatchIntent
  repeat' split
  all_goals rfl

/-- **Only a bulletin changes what is filed under a scope**, and nothing changes the keys. -/
theorem Handler.run_board (now : UInt64) (msg : DirectMessage) (app : AppNode) (h : Handler) :
    SameBoard app (h.run now msg app)
    ∨ ∃ post, h = .payload (.bulletin post)
        ∧ (h.run now msg app).storage = app.storage.saveBulletin post := by
  -- one case for each handler; the two bulletin tables are written by one of them
  cases h with
  | group raw => exact .inl (handleGroupPayload_sameBoard msg.envelope app)
  | proximity raw =>
    have hstorage : (Handler.run now msg app (.proximity raw)).storage = app.storage :=
      handleProximityPayload_storage now raw app
    exact .inl ⟨by rw [hstorage], by rw [hstorage]⟩
  | dropped => exact .inl .refl
  | payload p =>
    cases p with
    | chat m => exact .inl (handleChat_sameBoard now _ m app)
    | bulletin post => exact .inr ⟨post, rfl, rfl⟩
    | mail m => exact .inl ⟨rfl, rfl⟩
    | coin inner =>
      left
      -- coins, listings and revocations go to other stores, which the board does not read
      show SameBoard app (app.handleCoin msg.envelope.fromPeer inner)
      unfold AppNode.handleCoin
      split
      · split <;> exact ⟨rfl, rfl⟩
      · exact .refl
    | appStoreListing listing =>
      left
      show SameBoard app (app.handleListing listing)
      unfold AppNode.handleListing
      split <;> exact ⟨rfl, rfl⟩
    | miniAppRevocation entry =>
      left
      show SameBoard app (app.handleRevocation entry)
      unfold AppNode.handleRevocation
      split <;> exact ⟨rfl, rfl⟩

end

/-! ## Calls to the app store -/

/-- The output is a call to the app store. -/
def AppOutput.isStoreCall : AppOutput → Bool
  | .ingestRevocation _ => true
  | .cacheListing _ => true
  | _ => false

/-- From `app` to `app'` the outputs grew, and `calls` are the new ones that go to the store. -/
structure Calls (app app' : AppNode) (calls : List AppOutput) : Prop where
  appStore : app'.appStore = app.appStore
  out : ∃ new, app'.out = app.out ++ new ∧ new.filter AppOutput.isStoreCall = calls

namespace Calls

variable {app app' : AppNode} {calls : List AppOutput}

/-- Nothing has been called. -/
theorem refl : Calls app app [] := ⟨rfl, [], by simp, rfl⟩

/-- Where the store and the outputs are the same, nothing was called. -/
theorem of_out (hstore : app'.appStore = app.appStore) (hout : app'.out = app.out) :
    Calls app app' [] :=
  ⟨hstore, [], by simp [hout], rfl⟩

/-- An output that is no call of the store. -/
theorem emit (h : Calls app app' calls) {o : AppOutput} (ho : o.isStoreCall = false) :
    Calls app (app'.emit o) calls := by
  obtain ⟨hstore, new, hout, hcalls⟩ := h
  refine ⟨hstore, new ++ [o], ?_, ?_⟩
  · show app'.out ++ [o] = _
    rw [hout, List.append_assoc]
  · rw [List.filter_append, hcalls, List.filter_cons_of_neg (by simp [ho]), List.filter_nil,
      List.append_nil]

/-- One more call of the store. -/
theorem emitCall (h : Calls app app' calls) {o : AppOutput} (ho : o.isStoreCall = true) :
    Calls app (app'.emit o) (calls ++ [o]) := by
  obtain ⟨hstore, new, hout, hcalls⟩ := h
  refine ⟨hstore, new ++ [o], ?_, ?_⟩
  · show app'.out ++ [o] = _
    rw [hout, List.append_assoc]
  · rw [List.filter_append, hcalls, List.filter_cons_of_pos (by simp [ho]), List.filter_nil]

/-- Writing the storage is no call of the store. -/
theorem updateStorage (h : Calls app app' calls) (f : AppStorage → AppStorage) :
    Calls app (app'.updateStorage f) calls := ⟨h.appStore, h.out⟩

end Calls

section

variable [Prims] [AppCodec] [Node.WireCodec]

/-- The calls a handler makes to the app store. -/
def Handler.storeCalls (app : AppNode) : Handler → List AppOutput
  | .payload (.appStoreListing listing) =>
    if listing.verifySignature && app.appStore then [.cacheListing listing] else []
  | .payload (.miniAppRevocation entry) => if app.appStore then [.ingestRevocation entry] else []
  | _ => []

omit [Prims] [AppCodec] [Node.WireCodec] in
/-- A chat calls nothing of the store. -/
theorem handleChat_calls (now : UInt64) (peer : String) (m : ChatMessage) (app : AppNode) :
    Calls app (app.handleChat now peer m) [] := by
  unfold AppNode.handleChat
  split
  · exact .refl
  have hcontact : Calls app (app.handleChatContact now peer m) [] := by
    unfold AppNode.handleChatContact
    split
    · split
      · exact .refl
      · exact Calls.refl.emit rfl
    · exact (Calls.refl.updateStorage _).emit rfl
  unfold AppNode.saveAndShowChat
  simp only
  split
  · exact ((hcontact.updateStorage _).emit rfl).emit rfl
  · exact hcontact.updateStorage _

/-- Nor does a group message. -/
theorem handleGroupPayload_calls (envelope : Envelope) (app : AppNode) :
    Calls app (app.handleGroupPayload envelope) [] := by
  unfold AppNode.handleGroupPayload
  split
  · split
    · exact (((Calls.refl.updateStorage _).updateStorage _).emit rfl).emit rfl
    · exact .refl
  · exact .refl

omit [Node.WireCodec] in
/-- Nor does proximity, whatever its payload is. -/
theorem handleProximityPayload_calls (now : UInt64) (payload : Bytes) (app : AppNode) :
    Calls app (app.handleProximityPayload now payload) [] := by
  unfold AppNode.handleProximityPayload AppNode.handleProximityDirect AppNode.handlePresence
    AppNode.handleMatchIntent
  repeat' split
  -- one branch notifies, the others change the proximity tables or nothing
  all_goals first
    | exact .of_out rfl rfl
    | exact (Calls.of_out (by rfl) (by rfl)).emit rfl

/-- **Listings and revocations alone reach the app store.** -/
theorem Handler.run_storeCalls (now : UInt64) (msg : DirectMessage) (app : AppNode) (h : Handler) :
    Calls app (h.run now msg app) (h.storeCalls app) := by
  -- the calls of the store are read off the handler; only listings and revocations make any
  cases h with
  | group raw => exact handleGroupPayload_calls msg.envelope app
  | proximity raw => exact handleProximityPayload_calls now raw app
  | dropped => exact .refl
  | payload p =>
    cases p with
    | chat m => exact handleChat_calls now _ m app
    | bulletin post => exact ((Calls.refl.updateStorage _).emit rfl).emit rfl
    | mail m => exact ((Calls.refl.updateStorage _).emit rfl).emit rfl
    -- coins are handed to the ledger, which is no call of the app store
    | coin inner =>
      show Calls app (app.handleCoin msg.envelope.fromPeer inner) []
      unfold AppNode.handleCoin
      split
      · split
        · exact Calls.refl.emit rfl
        · exact .refl
      · exact .refl
    | appStoreListing listing =>
      show Calls app (app.handleListing listing) (if _ then _ else _)
      unfold AppNode.handleListing
      split
      · exact (Calls.refl.emitCall rfl).emit rfl
      · exact .refl
    | miniAppRevocation entry =>
      show Calls app (app.handleRevocation entry) (if _ then _ else _)
      unfold AppNode.handleRevocation
      split
      · exact Calls.refl.emitCall rfl
      · exact .refl

end

end Mycelium.App
