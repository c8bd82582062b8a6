import Mycelium.App.Bulletins
import Mycelium.Core.Text
import Mycelium.Node.Broadcast

/-!
# Mycelium app — what the app broadcasts

Translation of the senders of `AppNode` (`mycelium-app/src/node.rs`) and of the coin transport
(`mycelium-ffi/src/lib.rs`) that end in `BroadcastPayload`. The node sends the payload under the
sender's body to the peers that announced the scope; through gossip it arrives under a body made
up from the scope and the bytes (`Node.gossipBody`). The app dispatches on the body.

* `broadcastChat`, `broadcastCoinInner`, `publishAppListing`, `publishAppRevocation`,
  `postBulletin`, `sendGroupMessage` — the senders;
* `Untagged`, `route_untagged`, `route_tagged` — bodies, and where they lead;
* `Bincode` — how the bytes of a message begin, and what follows for the body that gossip gives it
  (`Bincode.route_gossip`, `Bincode.route_sealed`).

A sender reads its display name and the clock and draws an id and a nonce; these are `Draws`.
-/

namespace Mycelium.App

open Node (NodeCommand)

/-- The `bincode` encoders. The `app_id` that a sender writes is the one of its payload. -/
class AppEncoder where
  /-- `AppMessage::encode`. -/
  encodeAppMessage : AppMessage → Bytes
  /-- `bincode::serialize::<WireMessage>`. -/
  encodeWire : WireMessage → Bytes

/-- What a sender reads and draws. -/
structure Draws where
  displayName : String
  id : Uuid
  now : UInt64
  nonce : Vector UInt8 12

/-- A new chat message. -/
def newChat (d : Draws) (body : String) : ChatMessage :=
  { id := d.id, fromDisplayName := d.displayName, body, timestampMs := d.now, replyTo := none }

section

variable [Prims] [AppCodec] [AppEncoder]

/-! ## The senders -/

/-- `broadcast_chat`; `send_chat` without a recipient is this on `mycelium/chat`. -/
def broadcastChat (d : Draws) (scope body : String) : NodeCommand :=
  .broadcastPayload scope body (AppEncoder.encodeAppMessage { payload := .chat (newChat d body) })

/-- `broadcast_coin_inner`. -/
def broadcastCoinInner (coinInner : Bytes) : NodeCommand :=
  .broadcastPayload "mycelium/coin/v1" "[coin]"
    (AppEncoder.encodeAppMessage { payload := .coin coinInner })

/-- `publish_app_listing`. -/
def publishAppListing (listing : AppStoreListing) : Except String NodeCommand :=
  match listing.checkSignature with
  | .error e => .error e
  | .ok false => .error "listing has invalid signature – sign with developer key first"
  | .ok true => .ok (.broadcastPayload "mycelium/appstore/v1" ("[app:" ++ listing.manifest.id ++ "]")
      (AppEncoder.encodeAppMessage { payload := .appStoreListing listing }))

/-- `publish_app_revocation`; the own store, if there is one, then takes the entry as well. -/
def publishAppRevocation (store : Option AppStore) (now now' : UInt64) (entry : RevocationGossip) :
    Except String (NodeCommand × Option AppStore) :=
  match entry.verifySignature with
  | .error e => .error e
  | .ok false => .error "revocation has invalid signature"
  | .ok true => .ok (.broadcastPayload "mycelium/appstore/revocations/v1"
      ("[revoke:" ++ entry.appId ++ "]")
      (AppEncoder.encodeAppMessage { payload := .miniAppRevocation entry }),
      store.map fun store => (store.ingestRevocationGossip now now' entry).2)

/-- The tag under which posts of a scope travel. -/
def bulletinTag (scope : String) : String := "[bulletin:" ++ scope ++ "]"

/-- The post of `post_bulletin`; the time of its expiry wraps. -/
def newPost (d : Draws) (scope title body : String) (ttlSecs : UInt64) : BulletinPost :=
  { id := d.id, fromDisplayName := d.displayName, title, body, scope, timestampMs := d.now
    expiresAtMs := d.now + ttlSecs * 1000 }

/-- The payload of a post: sealed if there is a key for its scope. -/
def bulletinPayload (nonce : Vector UInt8 12) (key : Option ScopeKey) (post : BulletinPost) : Bytes :=
  let plaintext := AppEncoder.encodeAppMessage { payload := .bulletin post }
  match key with
  | some sk => asBytes "enc1:" ++ encryptGroup nonce plaintext sk.key
  | none => plaintext

/-- `post_bulletin`. -/
def postBulletin (d : Draws) (scope title body : String) (ttlSecs : UInt64) (app : AppNode) :
    AppNode × List NodeCommand :=
  let post := newPost d scope title body ttlSecs
  let app := app.updateStorage (·.saveBulletin post)
  (app, [.subscribeBulletinScope scope, .broadcastPayload scope (bulletinTag scope)
    (bulletinPayload d.nonce (app.storage.getScopeKey scope) post)])

/-- The payload of a group message. -/
def groupPayload (nonce : Vector UInt8 12) (group : Group) (m : ChatMessage) : Bytes :=
  AppEncoder.encodeWire (.encryptedGroup group.id
    (encryptGroup nonce (AppEncoder.encodeAppMessage { payload := .chat m }) group.key))

def groupScope (group : Group) : String := "mycelium/group/" ++ group.id

/-- `send_group_message`. -/
def sendGroupMessage (d : Draws) (group : Group) (body : String) (app : AppNode) :
    AppNode × List NodeCommand :=
  let chat := newChat d body
  ((app.updateStorage (·.groupRecordPeerSeen group.id app.localPeerId)).updateStorage
    (·.saveGroupChat group.id chat),
    [.subscribeScope "mycelium/group/*",
      .broadcastPayload (groupScope group) "[group message]" (groupPayload d.nonce group chat)])

/-! ## Bodies -/

omit [Prims] [AppCodec] [AppEncoder]

theorem eq_append_of_stripPrefix {s pre t : String} (h : stripPrefix s pre = some t) :
    s = pre ++ t := by
  unfold stripPrefix at h
  split at h
  · next hpre =>
    obtain ⟨rest, hrest⟩ := List.isPrefixOf_iff_prefix.mp hpre
    rw [← hrest, List.drop_left, Option.some.injEq] at h
    subst h
    apply String.toList_inj.mp
    rw [String.toList_append, String.toList_ofList, hrest]
  · cases h

theorem bulletinScope_bulletinTag (scope : String) :
    AppNode.bulletinScope (bulletinTag scope) = some scope := by
  have htag : (bulletinTag scope).toList = "[bulletin:".toList ++ (scope.toList ++ "]".toList) := by
    simp [bulletinTag]
  have hpre : stripPrefix (bulletinTag scope) "[bulletin:" = some (scope ++ "]") := by
    unfold stripPrefix
    rw [htag, if_pos (List.isPrefixOf_iff_prefix.mpr (List.prefix_append _ _)), List.drop_left,
      ← String.toList_append, String.ofList_toList]
  have hsuffix : stripSuffix (scope ++ "]") "]" = some scope := by
    unfold stripSuffix
    rw [String.toList_append, if_pos (List.isSuffixOf_iff_suffix.mpr (List.suffix_append _ _)),
      List.length_append, Nat.add_sub_cancel, List.take_left, String.ofList_toList]
  unfold AppNode.bulletinScope
  rw [hpre, Option.bind_some, hsuffix]

/-- The body is none of those the dispatcher looks for. -/
structure Untagged (body : String) : Prop where
  group : body ≠ "[mycelium:group]"
  proximity : body ≠ "[proximity]"
  bulletin : AppNode.bulletinScope body = none

/-- The three tags differ in their second byte; a body with another one there is untagged. -/
theorem untagged_of_bytes {body : String} {b c : UInt8} {rest : Bytes}
    (h : asBytes body = b :: c :: rest) (hm : c ≠ 109) (hp : c ≠ 112) (hb : c ≠ 98) :
    Untagged body where
  -- each tag starts with the bracket and a letter of its own, which the bytes have not
  group := by
    rintro rfl
    have hbytes : asBytes "[mycelium:group]" = 91 :: 109 :: (asBytes "[mycelium:group]").drop 2 := by
      decide +kernel
    rw [hbytes, List.cons.injEq, List.cons.injEq] at h
    exact hm h.2.1.symm
  proximity := by
    rintro rfl
    have hbytes : asBytes "[proximity]" = 91 :: 112 :: (asBytes "[proximity]").drop 2 := by
      decide +kernel
    rw [hbytes, List.cons.injEq, List.cons.injEq] at h
    exact hp h.2.1.symm
  bulletin := by
    cases hscope : AppNode.bulletinScope body with
    | none => rfl
    | some scope =>
      obtain ⟨t, ht, -⟩ := Option.bind_eq_some_iff.mp hscope
      have hbytes : asBytes "[bulletin:" = 91 :: 98 :: (asBytes "[bulletin:").drop 2 := by
        decide +kernel
      rw [eq_append_of_stripPrefix ht, asBytes_append, hbytes, List.cons_append, List.cons_append,
        List.cons.injEq, List.cons.injEq] at h
      exact absurd h.2.1.symm hb

theorem untagged_appstore : Untagged "[appstore]" := by
  have hbytes : asBytes "[appstore]" = 91 :: 97 :: (asBytes "[appstore]").drop 2 := by
    decide +kernel
  exact untagged_of_bytes hbytes (by decide) (by decide) (by decide)

/-- Under an untagged body the payload decides. -/
theorem route_untagged [Prims] [AppCodec] {app : AppNode} {body : String} (h : Untagged body)
    (payload : Bytes) :
    app.route body payload = match AppCodec.decodeAppMessage payload with
      | some appMsg => .payload appMsg.payload
      | none => .dropped := by
  unfold AppNode.route
  rw [if_neg h.group, if_neg h.proximity]
  cases AppCodec.decodeAppMessage payload with
  | none => simp [h.bulletin]
  | some appMsg => simp [h.bulletin]

/-- Under a tag the scope's branch does. -/
theorem route_tagged [Prims] [AppCodec] {app : AppNode} {body scope : String}
    (h : AppNode.bulletinScope body = some scope) (payload : Bytes) :
    app.route body payload = match app.handleBulletinPayload payload scope with
      | some (some post) => .payload (.bulletin post)
      | _ => .dropped := by
  -- the other two tags name no scope
  have hother : ∀ tag, AppNode.bulletinScope tag = none → body ≠ tag := by
    rintro tag hnone rfl
    cases h.symm.trans hnone
  have hgroup := hother "[mycelium:group]" (by decide +kernel)
  have hproximity := hother "[proximity]" (by decide +kernel)
  unfold AppNode.route
  rw [if_neg hgroup, if_neg hproximity]
  cases hfound : app.handleBulletinPayload payload scope with
  | none => simp [h, hfound]
  | some found =>
    cases found with
    | none => simp [h, hfound]
    | some post => simp [h, hfound]

end

/-! ## What the bytes of a message begin with -/

section

variable [AppCodec] [Node.WireCodec]

/-- `bincode` writes the variant of an enumeration as four little-endian bytes and reads no
variant that there is not. There are six of `AppId`, and `EncryptedGroup` has number 7 of
`WireMessage`. -/
structure Bincode : Prop where
  appHead : ∀ raw m, AppCodec.decodeAppMessage raw = some m → ∃ i < 6, leBytes 4 i <+: raw
  groupHead : ∀ raw groupId payload,
    Node.WireCodec.decode raw = some (.encryptedGroup groupId payload) → leBytes 4 7 <+: raw

variable (hbin : Bincode)

include hbin

theorem Bincode.head {raw : Bytes} {m : AppMessage} (h : AppCodec.decodeAppMessage raw = some m) :
    ∃ b rest, raw = b :: 0 :: rest ∧ b < 6 := by
  obtain ⟨i, hi, rest, rfl⟩ := hbin.appHead raw m h
  have hhead : ∀ i < 6, leBytes 4 i = UInt8.ofNat i :: 0 :: [0, 0] ∧ UInt8.ofNat i < 6 := by
    decide +kernel
  obtain ⟨hbytes, hlt⟩ := hhead i hi
  exact ⟨UInt8.ofNat i, [0, 0] ++ rest, by rw [hbytes]; rfl, hlt⟩

/-- The bytes of a message are not marked as sealed. -/
theorem Bincode.unmarked {raw : Bytes} {m : AppMessage}
    (h : AppCodec.decodeAppMessage raw = some m) : (asBytes "enc1:").isPrefixOf raw = false := by
  obtain ⟨b, rest, rfl, hlt⟩ := hbin.head h
  have hmark : asBytes "enc1:" = 101 :: (asBytes "enc1:").drop 1 := by decide +kernel
  have hne : (101 : UInt8) ≠ b := by
    rintro rfl
    exact absurd hlt (by decide)
  rw [hmark, List.isPrefixOf_cons_cons]
  simp [hne]

/-- What is marked as sealed is no message. -/
theorem Bincode.decode_marked {raw : Bytes} (hmark : (asBytes "enc1:").isPrefixOf raw = true) :
    AppCodec.decodeAppMessage raw = none := by
  cases hdecode : AppCodec.decodeAppMessage raw with
  | none => rfl
  | some m => cases hmark.symm.trans (hbin.unmarked hdecode)

/-- A message read as text has no tag. -/
theorem Bincode.untagged {raw : Bytes} {m : AppMessage} {body : String}
    (h : AppCodec.decodeAppMessage raw = some m) (hbody : fromUtf8 raw = some body) :
    Untagged body := by
  obtain ⟨b, rest, rfl, -⟩ := hbin.head h
  exact untagged_of_bytes (asBytes_of_fromUtf8 hbody) (by decide) (by decide) (by decide)

/-- What does not begin with the number of `EncryptedGroup` is not taken for a group message. -/
theorem Bincode.gossipBody_eq {raw : Bytes} (h : ∀ rest, raw ≠ 7 :: rest) (scope : String) :
    Node.gossipBody scope raw
      = if scope = "mycelium/appstore/v1" then some "[appstore]"
        else if scope = "mycelium/proximity/v1" then some "[proximity]"
        else if (asBytes "enc1:").isPrefixOf raw || (fromUtf8 raw).isNone then
          some (bulletinTag scope)
        else fromUtf8 raw := by
  unfold Node.gossipBody
  split
  · next groupId payload hwire =>
    obtain ⟨rest, rfl⟩ := hbin.groupHead raw groupId payload hwire
    have hbytes : leBytes 4 7 = 7 :: [0, 0, 0] := by decide +kernel
    exact absurd (by rw [hbytes]; rfl) (h ([0, 0, 0] ++ rest))
  · rw [Bool.and_false, if_neg (by simp)]
    rfl

theorem Bincode.not_seven {raw : Bytes} {m : AppMessage}
    (h : AppCodec.decodeAppMessage raw = some m) : ∀ rest, raw ≠ 7 :: rest := by
  obtain ⟨b, rest, rfl, hlt⟩ := hbin.head h
  rintro rest' heq
  obtain rfl : b = 7 := (List.cons.inj heq).1
  exact absurd hlt (by decide)

/-! ## Where a message goes -/

variable [Prims]

/-- Under the tag of a scope a message in the open is handled if it is a post. -/
theorem Bincode.route_plain {raw : Bytes} {m : AppMessage} {body scope : String}
    (h : AppCodec.decodeAppMessage raw = some m) (htag : AppNode.bulletinScope body = some scope)
    (app : AppNode) :
    app.route body raw
      = match m.payload with
        | .bulletin post => .payload (.bulletin post)
        | _ => .dropped := by
  have hpayload : app.handleBulletinPayload raw scope = AppNode.decodeBulletin raw := by
    unfold AppNode.handleBulletinPayload
    rw [hbin.unmarked h, if_neg (by simp)]
  rw [route_tagged htag, hpayload, AppNode.decodeBulletin, h]
  obtain ⟨p⟩ := m
  cases p <;> rfl

/-- Through gossip, on a scope without a rule of its own, a message is handled if its bytes are
text by chance, or if it is a post. -/
theorem Bincode.route_gossip {raw : Bytes} {m : AppMessage} {scope body : String}
    (h : AppCodec.decodeAppMessage raw = some m) (hstore : scope ≠ "mycelium/appstore/v1")
    (hproximity : scope ≠ "mycelium/proximity/v1")
    (hbody : Node.gossipBody scope raw = some body) (app : AppNode) :
    app.route body raw
      = if (fromUtf8 raw).isSome then .payload m.payload
        else match m.payload with
          | .bulletin post => .payload (.bulletin post)
          | _ => .dropped := by
  rw [hbin.gossipBody_eq (hbin.not_seven h), if_neg hstore, if_neg hproximity, hbin.unmarked h,
    Bool.false_or] at hbody
  cases htext : fromUtf8 raw with
  | none =>
    rw [htext] at hbody
    obtain rfl : bulletinTag scope = body := by simpa using hbody
    exact hbin.route_plain h (bulletinScope_bulletinTag scope) app
  | some text =>
    rw [htext] at hbody
    obtain rfl : text = body := by simpa using hbody
    rw [route_untagged (hbin.untagged h htext), h]
    rfl

/-- Under the tag of a scope a payload marked as sealed is what the key of the scope opens. -/
theorem Bincode.route_sealed {raw : Bytes} {body scope : String}
    (hmark : (asBytes "enc1:").isPrefixOf raw = true)
    (htag : AppNode.bulletinScope body = some scope) (app : AppNode) :
    app.route body raw
      = match (app.storage.getScopeKey scope).bind fun sk => sealedPost sk.key raw with
        | some post => .payload (.bulletin post)
        | none => .dropped := by
  have hraw := hbin.decode_marked hmark
  rw [route_tagged htag]
  unfold AppNode.handleBulletinPayload
  rw [if_pos hmark]
  cases app.storage.getScopeKey scope with
  | none => rfl
  | some sk =>
    simp only [Option.bind_some, sealedPost, if_pos hmark]
    cases decryptGroup (raw.drop 5) sk.key with
    | error e => rfl
    | ok plaintext =>
      simp only [AppNode.decodeBulletin, openPost, hraw]
      cases AppCodec.decodeAppMessage plaintext with
      | none => rfl
      | some m =>
        obtain ⟨p⟩ := m
        -- anything but a post is tried again as it came, and does not decode
        cases p <;> rfl

end

/-! ## An encoder to evaluate on -/

/-- `bincode` of a string. -/
def bincodeStr (s : String) : Bytes := leBytes 8 (asBytes s).length ++ asBytes s

/-- `bincode` of a chat message that is no reply. -/
def bincodeChat (m : ChatMessage) : Bytes :=
  leBytes 8 16 ++ m.id.bytes.toList ++ bincodeStr m.fromDisplayName ++ bincodeStr m.body
    ++ leBytes 8 m.timestampMs.toNat ++ [0]

/-- The encoders, for chat messages and group frames. -/
@[reducible] def chatEncoder : AppEncoder where
  encodeAppMessage m :=
    match m.payload with
    | .chat m => leBytes 4 0 ++ leBytes 4 0 ++ bincodeChat m
    | _ => []
  encodeWire w :=
    match w with
    | .encryptedGroup groupId payload =>
      leBytes 4 7 ++ bincodeStr groupId ++ leBytes 8 payload.length ++ payload
    | _ => []

/-- The draws of a message whose id consists of the byte `b`. -/
def symbolicDraws (b : UInt8) : Draws :=
  { displayName := "", id := ⟨Vector.replicate 16 b⟩, now := 5000000, nonce := Vector.replicate 12 0 }

end Mycelium.App
