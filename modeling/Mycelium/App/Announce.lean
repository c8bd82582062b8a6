import Mycelium.App.Send

/-!
# Mycelium app — one message, two ways

An honest node broadcasts a message. To a peer that announced the scope it goes as a `Data`
message under the sender's body; through gossip it arrives under a body that the receiving node
makes up, which depends on whether the bytes happen to be text.

* `Announced` — the broadcasts of an honest node;
* `SameRoute` — when the two bodies lead the app to the same handler, one case per payload;
* `routes_agree_iff` — they do exactly then.
-/

namespace Mycelium.App

open Node (NodeCommand)

section

variable [Prims] [AppCodec]

/-- The two ways of a broadcast end in the same handler of the receiving app. -/
def SameRoute (app : AppNode) (payload : Bytes) : AppPayload → Prop
  | .chat m => m.body ≠ "[mycelium:group]" ∧ m.body ≠ "[proximity]"
      ∧ ((fromUtf8 payload).isSome ↔ AppNode.bulletinScope m.body = none)
  | .coin _ => (fromUtf8 payload).isSome
  | .miniAppRevocation _ => (fromUtf8 payload).isSome
  | .appStoreListing _ => True
  | .bulletin post => post.scope ≠ "mycelium/proximity/v1"
      ∧ (post.scope = "mycelium/appstore/v1" →
          ∀ sk, app.storage.getScopeKey post.scope = some sk → sealedPost sk.key payload = none)
  | .mail _ => True

variable [Node.WireCodec] {app : AppNode} {raw : Bytes}

/-- The body of a chat message is its text, whatever that says. -/
theorem chat_routes_iff (hbin : Bincode) {m : ChatMessage} {gossip : String}
    (h : AppCodec.decodeAppMessage raw = some { payload := .chat m })
    (hgossip : Node.gossipBody "mycelium/chat" raw = some gossip) :
    app.route m.body raw = app.route gossip raw ↔ SameRoute app raw (.chat m) := by
  have hroute : app.route gossip raw
      = if (fromUtf8 raw).isSome then .payload (.chat m) else .dropped :=
    hbin.route_gossip h (by decide) (by decide) hgossip app
  rw [hroute]
  by_cases hgroup : m.body = "[mycelium:group]"
  · have hdirect : app.route m.body raw = .group raw := if_pos hgroup
    rw [hdirect]
    refine ⟨fun heq => ?_, fun hsame => absurd hgroup hsame.1⟩
    split at heq <;> cases heq
  by_cases hproximity : m.body = "[proximity]"
  · have hdirect : app.route m.body raw = .proximity raw := by
      unfold AppNode.route
      rw [if_neg hgroup, if_pos hproximity]
    rw [hdirect]
    refine ⟨fun heq => ?_, fun hsame => absurd hproximity hsame.2.1⟩
    split at heq <;> cases heq
  have hsame : SameRoute app raw (.chat m)
      ↔ ((fromUtf8 raw).isSome ↔ AppNode.bulletinScope m.body = none) :=
    ⟨fun h => h.2.2, fun h => ⟨hgroup, hproximity, h⟩⟩
  rw [hsame]
  -- past the two fixed tags, a chat message is handled unless its text is the tag of a scope
  cases htag : AppNode.bulletinScope m.body with
  | some scope =>
    have hdirect : app.route m.body raw = .dropped := hbin.route_plain h htag app
    rw [hdirect]
    split
    · next htext => simp [htext]
    · next htext => simp [htext]
  | none =>
    have hdirect : app.route m.body raw = .payload (.chat m) := by
      rw [route_untagged ⟨hgroup, hproximity, htag⟩, h]
    rw [hdirect]
    split
    · next htext => simp [htext]
    · next htext => simp [htext]

/-- A message that is not a post, under a body of its own without a tag. -/
theorem untagged_routes_iff (hbin : Bincode) {p : AppPayload} {scope body gossip : String}
    (h : AppCodec.decodeAppMessage raw = some { payload := p }) (hbody : Untagged body)
    (hpost : ∀ post, p ≠ .bulletin post) (hstore : scope ≠ "mycelium/appstore/v1")
    (hproximity : scope ≠ "mycelium/proximity/v1")
    (hgossip : Node.gossipBody scope raw = some gossip) :
    app.route body raw = app.route gossip raw ↔ (fromUtf8 raw).isSome := by
  have hroute : app.route gossip raw = if (fromUtf8 raw).isSome then .payload p else .dropped := by
    rw [hbin.route_gossip h hstore hproximity hgossip]
    cases p with
    | bulletin post => exact absurd rfl (hpost post)
    | _ => rfl
  have hdirect : app.route body raw = .payload p := by
    rw [route_untagged hbody, h]
  rw [hroute, hdirect]
  split
  · next htext => simp [htext]
  · next htext => simp [htext]

/-- Listings have a body of their own through gossip too. -/
theorem listing_routes (hbin : Bincode) {l : AppStoreListing} {body gossip : String}
    (h : AppCodec.decodeAppMessage raw = some { payload := .appStoreListing l })
    (hbody : Untagged body) (hgossip : Node.gossipBody "mycelium/appstore/v1" raw = some gossip) :
    app.route body raw = app.route gossip raw := by
  rw [hbin.gossipBody_eq (hbin.not_seven h), if_pos rfl, Option.some.injEq] at hgossip
  subst hgossip
  rw [route_untagged hbody, route_untagged untagged_appstore]

omit [Prims] [AppCodec] [Node.WireCodec] in
theorem marked_not_seven (hmark : (asBytes "enc1:").isPrefixOf raw = true) :
    ∀ rest, raw ≠ 7 :: rest := by
  rintro rest rfl
  have hhead : asBytes "enc1:" = 101 :: (asBytes "enc1:").drop 1 := by decide +kernel
  rw [hhead, List.isPrefixOf_cons_cons] at hmark
  simp at hmark

/-- A post in the open goes the same way, except on the proximity scope. -/
theorem open_post_routes_iff (hbin : Bincode) {post : BulletinPost} {gossip : String}
    (h : AppCodec.decodeAppMessage raw = some { payload := .bulletin post })
    (hgossip : Node.gossipBody post.scope raw = some gossip) :
    app.route (bulletinTag post.scope) raw = app.route gossip raw
      ↔ SameRoute app raw (.bulletin post) := by
  have hdirect : app.route (bulletinTag post.scope) raw = .payload (.bulletin post) :=
    hbin.route_plain h (bulletinScope_bulletinTag post.scope) app
  have hopen : ∀ key, sealedPost key raw = none := fun key => by
    rw [sealedPost, hbin.unmarked h, if_neg (by simp)]
  rw [hdirect]
  -- the proximity scope is the one whose gossip tag has a handler of its own
  by_cases hproximity : post.scope = "mycelium/proximity/v1"
  · rw [hproximity, hbin.gossipBody_eq (hbin.not_seven h), if_neg (by decide), if_pos rfl,
      Option.some.injEq] at hgossip
    subst hgossip
    have hroute : app.route "[proximity]" raw = .proximity raw := rfl
    rw [hroute]
    refine ⟨fun heq => ?_, fun hsame => absurd hproximity hsame.1⟩
    cases heq
  -- on every other scope the gossip tag leaves the payload to the common decoder
  have hroute : app.route gossip raw = .payload (.bulletin post) := by
    by_cases hstore : post.scope = "mycelium/appstore/v1"
    · rw [hbin.gossipBody_eq (hbin.not_seven h), if_pos hstore, Option.some.injEq] at hgossip
      subst hgossip
      rw [route_untagged untagged_appstore, h]
    · rw [hbin.route_gossip h hstore hproximity hgossip]
      split <;> rfl
  rw [hroute]
  exact ⟨fun _ => ⟨hproximity, fun _ sk _ => hopen sk.key⟩, fun _ => rfl⟩

/-- A sealed post does too, except that on the scope of the app store the body hides it. -/
theorem sealed_post_routes_iff (hbin : Bincode) {post : BulletinPost} {gossip : String}
    (hmark : (asBytes "enc1:").isPrefixOf raw = true)
    (hgossip : Node.gossipBody post.scope raw = some gossip) :
    app.route (bulletinTag post.scope) raw = app.route gossip raw
      ↔ SameRoute app raw (.bulletin post) := by
  rw [hbin.gossipBody_eq (marked_not_seven hmark), hmark, Bool.true_or] at hgossip
  by_cases hproximity : post.scope = "mycelium/proximity/v1"
  · rw [if_neg (by rw [hproximity]; decide), if_pos hproximity, Option.some.injEq] at hgossip
    subst hgossip
    have hroute : app.route "[proximity]" raw = .proximity raw := rfl
    rw [hroute, route_tagged (bulletinScope_bulletinTag post.scope)]
    refine ⟨fun heq => ?_, fun hsame => absurd hproximity hsame.1⟩
    split at heq <;> cases heq
  by_cases hstore : post.scope = "mycelium/appstore/v1"
  · rw [if_pos hstore, Option.some.injEq] at hgossip
    subst hgossip
    rw [route_untagged untagged_appstore, hbin.decode_marked hmark,
      hbin.route_sealed hmark (bulletinScope_bulletinTag post.scope)]
    have hsame : SameRoute app raw (.bulletin post)
        ↔ ∀ sk, app.storage.getScopeKey post.scope = some sk → sealedPost sk.key raw = none :=
      ⟨fun h => h.2 hstore, fun h => ⟨hproximity, fun _ => h⟩⟩
    rw [hsame]
    cases app.storage.getScopeKey post.scope with
    | none => simp
    | some sk =>
      rw [Option.bind_some]
      cases hpost : sealedPost sk.key raw with
      | none => simp [hpost]
      | some post' => simp [hpost]
  · -- both ways carry the tag of the scope
    rw [if_neg hstore, if_neg hproximity, if_pos rfl, Option.some.injEq] at hgossip
    subst hgossip
    exact ⟨fun _ => ⟨hproximity, fun h => absurd h hstore⟩, fun _ => rfl⟩

end

section

variable [Prims] [AppCodec] [AppEncoder]

/-- The command is a broadcast of an honest node, and `p` is what it announces. -/
inductive Announced (cmd : NodeCommand) : AppPayload → Prop where
  | chat (d : Draws) (body : String) (h : cmd = broadcastChat d "mycelium/chat" body) :
      Announced cmd (.chat (newChat d body))
  | coin (coinInner : Bytes) (h : cmd = broadcastCoinInner coinInner) :
      Announced cmd (.coin coinInner)
  | listing (l : AppStoreListing) (h : publishAppListing l = .ok cmd) :
      Announced cmd (.appStoreListing l)
  | revocation (store : Option AppStore) (now now' : UInt64) (entry : RevocationGossip)
      (h : (publishAppRevocation store now now' entry).map Prod.fst = .ok cmd) :
      Announced cmd (.miniAppRevocation entry)
  | bulletin (d : Draws) (scope title body : String) (ttlSecs : UInt64) (app : AppNode)
      (h : cmd ∈ (postBulletin d scope title body ttlSecs app).2) :
      Announced cmd (.bulletin (newPost d scope title body ttlSecs))

omit [Prims] [AppCodec] [AppEncoder] in
/-- Bodies that name an app are not tags. -/
theorem untagged_append {head text : String} {b c : UInt8} {rest : Bytes}
    (h : asBytes head = b :: c :: rest) (hm : c ≠ 109) (hp : c ≠ 112) (hb : c ≠ 98) :
    Untagged (head ++ text) :=
  untagged_of_bytes (by rw [asBytes_append, h]; rfl) hm hp hb

omit [AppCodec] in
/-- A payload of `post_bulletin` is the post in the open, or marked as sealed. -/
theorem bulletinPayload_cases (nonce : Vector UInt8 12) (key : Option ScopeKey)
    (post : BulletinPost) :
    bulletinPayload nonce key post = AppEncoder.encodeAppMessage { payload := .bulletin post }
    ∨ (asBytes "enc1:").isPrefixOf (bulletinPayload nonce key post) = true := by
  cases key with
  | none => exact .inl rfl
  | some sk => exact .inr (List.isPrefixOf_iff_prefix.mpr (List.prefix_append _ _))

omit [AppCodec] in
/-- The broadcast among the commands of `post_bulletin`. -/
theorem postBulletin_broadcast {d : Draws} {scope scope' title text body : String}
    {ttlSecs : UInt64} {app : AppNode} {payload : Bytes}
    (h : .broadcastPayload scope body payload ∈ (postBulletin d scope' title text ttlSecs app).2) :
    scope = scope' ∧ body = bulletinTag scope' ∧ ∃ key,
      payload = bulletinPayload d.nonce key (newPost d scope' title text ttlSecs) := by
  simp only [postBulletin, List.mem_cons, List.not_mem_nil, or_false, reduceCtorEq, false_or,
    Node.NodeCommand.broadcastPayload.injEq] at h
  exact ⟨h.1, h.2.1, _, h.2.2⟩

/-- The body of the sender and the body through gossip lead to the same handler exactly then. -/
theorem announced_routes_iff [Node.WireCodec] (hbin : Bincode) {app : AppNode}
    {scope body gossip : String} {payload : Bytes} {p : AppPayload}
    (h : Announced (.broadcastPayload scope body payload) p)
    (hround : AppCodec.decodeAppMessage (AppEncoder.encodeAppMessage { payload := p })
      = some { payload := p })
    (hgossip : Node.gossipBody scope payload = some gossip) :
    app.route body payload = app.route gossip payload ↔ SameRoute app payload p := by
  cases h with
  | chat d text h =>
    simp only [broadcastChat, Node.NodeCommand.broadcastPayload.injEq] at h
    obtain ⟨rfl, rfl, rfl⟩ := h
    exact chat_routes_iff hbin hround hgossip
  | coin coinInner h =>
    simp only [broadcastCoinInner, Node.NodeCommand.broadcastPayload.injEq] at h
    obtain ⟨rfl, rfl, rfl⟩ := h
    -- no tag of another kind begins like the body
    have hbytes : asBytes "[coin]" = 91 :: 99 :: (asBytes "[coin]").drop 2 := by decide +kernel
    have hbody := untagged_of_bytes hbytes (by decide) (by decide) (by decide)
    exact untagged_routes_iff hbin hround hbody (by simp) (by decide) (by decide) hgossip
  | listing l h =>
    unfold publishAppListing at h
    split at h
    · cases h
    · cases h
    simp only [Except.ok.injEq, Node.NodeCommand.broadcastPayload.injEq] at h
    obtain ⟨rfl, rfl, rfl⟩ := h
    have hbytes : asBytes "[app:" = 91 :: 97 :: (asBytes "[app:").drop 2 := by decide +kernel
    have hbody : Untagged ("[app:" ++ l.manifest.id ++ "]") := by
      rw [String.append_assoc]
      exact untagged_append hbytes (by decide) (by decide) (by decide)
    exact ⟨fun _ => trivial, fun _ => listing_routes hbin hround hbody hgossip⟩
  | revocation store now now' entry h =>
    unfold publishAppRevocation at h
    split at h
    · cases h
    · cases h
    simp only [Except.map, Except.ok.injEq, Node.NodeCommand.broadcastPayload.injEq] at h
    obtain ⟨rfl, rfl, rfl⟩ := h
    have hbytes : asBytes "[revoke:" = 91 :: 114 :: (asBytes "[revoke:").drop 2 := by decide +kernel
    have hbody : Untagged ("[revoke:" ++ entry.appId ++ "]") := by
      rw [String.append_assoc]
      exact untagged_append hbytes (by decide) (by decide) (by decide)
    exact untagged_routes_iff hbin hround hbody (by simp) (by decide) (by decide) hgossip
  | bulletin d scope' title text ttlSecs sender h =>
    obtain ⟨rfl, rfl, key, hpayload⟩ := postBulletin_broadcast h
    obtain ⟨post, hpost, hscope⟩ : ∃ post, newPost d scope title text ttlSecs = post
        ∧ post.scope = scope := ⟨_, rfl, rfl⟩
    rw [hpost] at hround hpayload ⊢
    subst hpayload hscope
    -- posted in the open, or sealed under the key of the scope
    obtain hplain | hmark := bulletinPayload_cases d.nonce key post
    · rw [hplain] at hgossip ⊢
      exact open_post_routes_iff hbin hround hgossip
    · exact sealed_post_routes_iff hbin hmark hgossip

/-- **The two ways of a broadcast.** An honest node broadcasts `p`. Once, in a state with peers
that announced the scope, it arrives as `m₁`; once, in a state without, it arrives through gossip
as `m₂`. The receiving app hands both to the same handler with the same payload if and only if
`SameRoute` holds. -/
theorem routes_agree_iff [Node.World] [Node.WireCodec] (hbin : Bincode)
    {scope body : String} {payload : Bytes} {p : AppPayload}
    (h : Announced (.broadcastPayload scope body payload) p)
    (hround : AppCodec.decodeAppMessage (AppEncoder.encodeAppMessage { payload := p })
      = some { payload := p })
    {s₁ r₁ s₂ r₂ : Node.NodeRunner} {m₁ m₂ : DirectMessage}
    (hpeers : Node.targetsForScope s₁.peerScopes scope ≠ [])
    (h₁ : Node.ReachesApp s₁ r₁ scope body payload m₁)
    (hnone : Node.targetsForScope s₂.peerScopes scope = [])
    (h₂ : Node.ReachesApp s₂ r₂ scope body payload m₂) (app : AppNode) :
    app.route m₁.body m₁.envelope.payload = app.route m₂.body m₂.envelope.payload
      ↔ SameRoute app payload p := by
  obtain ⟨hpayload₁, ⟨-, hbody₁⟩ | ⟨hnone₁, -⟩⟩ := h₁.cases
  case inr => exact absurd hnone₁ hpeers
  obtain ⟨hpayload₂, ⟨hpeers₂, -⟩ | ⟨-, hbody₂⟩⟩ := h₂.cases
  case inl => exact absurd hnone hpeers₂
  rw [hpayload₁, hbody₁, hpayload₂]
  exact announced_routes_iff hbin h hround hbody₂

end

/-! ## Two chat messages -/

section

attribute [local instance] symbolicPrims chatEncoder

/-- The text `hi`, under such an id. -/
def hiMessage (b : UInt8) : AppMessage := { payload := .chat (newChat (symbolicDraws b) "hi") }

/-- A decoder that knows two of them. -/
@[reducible] def hiCodec : AppCodec :=
  { chatCodec with
    decodeAppMessage := fun raw =>
      [hiMessage 0, hiMessage 255].find? fun m => AppEncoder.encodeAppMessage m = raw }

def symbolicGroup : Group :=
  { id := "g", name := "", key := Vector.replicate 32 4, members := [], createdAtMs := 0 }

def hiGroupPayload : Bytes :=
  groupPayload (symbolicDraws 0).nonce symbolicGroup (newChat (symbolicDraws 0) "hi")

@[reducible] def hiGroupCodec : Node.WireCodec where
  decode raw :=
    if raw = hiGroupPayload then
      some (.encryptedGroup "g" (encryptGroup (symbolicDraws 0).nonce
        (AppEncoder.encodeAppMessage (hiMessage 0)) symbolicGroup.key))
    else none

attribute [local instance] hiCodec hiGroupCodec attributionWorld

theorem hiCodec_bincode : Bincode where
  appHead raw m h := by
    have hmem := List.mem_of_find?_eq_some h
    have hraw : AppEncoder.encodeAppMessage m = raw := by simpa using List.find?_some h
    refine ⟨0, by decide, ?_⟩
    rw [← hraw]
    simp only [List.mem_cons, List.not_mem_nil, or_false] at hmem
    rcases hmem with rfl | rfl
    · exact ⟨_, List.append_assoc _ _ _ |>.symm⟩
    · exact ⟨_, List.append_assoc _ _ _ |>.symm⟩
  groupHead raw groupId payload h := by
    have hraw : raw = hiGroupPayload := by
      by_contra hne
      have hnone : Node.WireCodec.decode raw = none := if_neg hne
      cases hnone.symm.trans h
    rw [hraw]
    refine ⟨hiGroupPayload.drop 4, ?_⟩
    decide +kernel

/-- Node 1 knows peer 2, who announced the scope. -/
def announcedNode (scope : String) : Node.NodeRunner :=
  { Node.symbolicNode 1 3 5000000 with peerScopes := AList.singleton (Node.symbolicPeer 2) [scope] }

/-- The payload of the text under the id of `b`. -/
def hiPayload (b : UInt8) : Bytes := AppEncoder.encodeAppMessage (hiMessage b)

/-- What peer 2 gets when node 1 sends a payload under a body of its own. -/
def directMessage (body : String) (payload : Bytes) : DirectMessage :=
  { envelope := ((Envelope.new 5000000 (Node.symbolicPeer 1) none payload).sign (symbolicKey 1)).2
    body }

/-- What it gets when the payload comes through gossip. -/
def gossipMessage (body : String) (payload : Bytes) : DirectMessage :=
  { envelope := .newUnsigned 5000000 (Node.symbolicPeer 1) none payload, body }

/-- The text, sent to a peer that announced the scope. -/
theorem hiPayload_direct (b : UInt8) (hb : b = 0 ∨ b = 255) :
    Node.ReachesApp (announcedNode "mycelium/chat") (Node.symbolicNode 2 3 5000000) "mycelium/chat" "hi"
      (hiPayload b) (directMessage "hi" (hiPayload b)) := by
  refine .direct (Node.symbolicPeer 2) (Node.symbolicPeer 1) ?_ ?_
  · rcases hb with rfl | rfl <;> decide +kernel
  · rcases hb with rfl | rfl <;> decide +kernel

/-- An id of zero bytes is text, and so is the message. -/
theorem routes_agree_text :
    freshApp.route "hi" (hiPayload 0)
        = freshApp.route ((fromUtf8 (hiPayload 0)).getD "") (hiPayload 0)
    ∧ freshApp.route "hi" (hiPayload 0) = .payload (hiMessage 0).payload := by
  have harrives : Node.ReachesApp (Node.symbolicNode 1 3 5000000) (Node.symbolicNode 2 3 5000000)
      "mycelium/chat" "hi" (hiPayload 0)
      (gossipMessage ((fromUtf8 (hiPayload 0)).getD "") (hiPayload 0)) :=
    .gossip (Node.symbolicPeer 1) (by decide +kernel) (by decide +kernel)
  refine ⟨(routes_agree_iff hiCodec_bincode (.chat (symbolicDraws 0) "hi" rfl) (by decide +kernel)
    (by decide +kernel) (hiPayload_direct 0 (.inl rfl)) (by decide +kernel) harrives freshApp).mpr ?_,
    by decide +kernel⟩
  exact ⟨by decide, by decide, by decide +kernel⟩

/-- An id of bytes that are no text makes the node take the message for a post, and the app drops
it; to the announced peer it is the same chat message as before. -/
theorem chat_lost_in_gossip :
    Announced (.broadcastPayload "mycelium/chat" "hi" (hiPayload 255)) (hiMessage 255).payload
    ∧ Node.ReachesApp (announcedNode "mycelium/chat") (Node.symbolicNode 2 3 5000000) "mycelium/chat" "hi"
        (hiPayload 255) (directMessage "hi" (hiPayload 255))
    ∧ Node.ReachesApp (Node.symbolicNode 1 3 5000000) (Node.symbolicNode 2 3 5000000) "mycelium/chat" "hi"
        (hiPayload 255) (gossipMessage "[bulletin:mycelium/chat]" (hiPayload 255))
    ∧ freshApp.route "hi" (hiPayload 255) = .payload (hiMessage 255).payload
    ∧ freshApp.route "[bulletin:mycelium/chat]" (hiPayload 255) = .dropped :=
  ⟨.chat (symbolicDraws 255) "hi" rfl, hiPayload_direct 255 (.inr rfl),
    .gossip (Node.symbolicPeer 1) (by decide +kernel) (by decide +kernel), by decide +kernel,
    by decide +kernel⟩

end

end Mycelium.App
