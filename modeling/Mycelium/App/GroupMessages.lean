import Mycelium.App.Announce
import Mycelium.Node.Durability

/-!
# Mycelium app — group messages

`send_group_message` gives its payload the body `[group message]`, the dispatcher looks for
`[mycelium:group]`. Through gossip the receiving node writes the tag the dispatcher looks for; to
an announced peer the sender's body goes along, and the app tries to read the frame as a message
of its own.

* `GroupRoundTrip` — the round trips that a group message relies on;
* `group_message_stored_iff` — it is stored exactly if it went through gossip.
-/

namespace Mycelium.App

section

variable [Prims] [AppCodec] [AppEncoder]

omit [AppCodec] in
/-- The broadcast among the commands of `send_group_message`. -/
theorem sendGroupMessage_broadcast {d : Draws} {group : Group} {text scope body : String}
    {app : AppNode} {payload : Bytes}
    (h : .broadcastPayload scope body payload ∈ (sendGroupMessage d group text app).2) :
    scope = groupScope group ∧ body = "[group message]"
      ∧ payload = groupPayload d.nonce group (newChat d text) := by
  simpa only [sendGroupMessage, List.mem_cons, List.not_mem_nil, or_false, reduceCtorEq, false_or,
    Node.NodeCommand.broadcastPayload.injEq] using h

/-- What the round trips of a group message are. -/
structure GroupRoundTrip [Node.WireCodec] (d : Draws) (group : Group) (m : ChatMessage) : Prop where
  chat : AppCodec.decodeAppMessage (AppEncoder.encodeAppMessage { payload := .chat m })
    = some { payload := .chat m }
  wire : Node.WireCodec.decode (groupPayload d.nonce group m)
    = some (.encryptedGroup group.id
        (encryptGroup d.nonce (AppEncoder.encodeAppMessage { payload := .chat m }) group.key))
  aead : ∀ (key : Bytes32) (nonce plaintext : Bytes),
    Prims.chachaDecrypt key nonce (Prims.chachaEncrypt key nonce plaintext) = some plaintext

variable [Node.WireCodec] {d : Draws} {group : Group} {m : ChatMessage}

/-- Through gossip a group message has the tag of group messages. -/
theorem GroupRoundTrip.gossipBody (h : GroupRoundTrip d group m) :
    Node.gossipBody (groupScope group) (groupPayload d.nonce group m)
      = some "[mycelium:group]" := by
  have hscope : startsWith (groupScope group) "mycelium/group/" = true := by
    unfold startsWith groupScope
    rw [String.toList_append]
    exact List.isPrefixOf_iff_prefix.mpr (List.prefix_append _ _)
  unfold Node.gossipBody
  rw [h.wire, hscope]
  rfl

/-- Under that tag a member stores it. -/
theorem GroupRoundTrip.stored (h : GroupRoundTrip d group m) {app : AppNode} {g : Group}
    (hgroup : app.storage.groupById group.id = some g) (hkey : g.key = group.key) (now : UInt64)
    {msg : DirectMessage} (hbody : msg.body = "[mycelium:group]")
    (hpayload : msg.envelope.payload = groupPayload d.nonce group m) :
    (app.dispatchIncoming now msg).storage.groupChats
      = (app.storage.saveGroupChat group.id m).groupChats := by
  have hopen : app.openGroupChat group.id (encryptGroup d.nonce
      (AppEncoder.encodeAppMessage { payload := .chat m }) group.key) = some m := by
    unfold AppNode.openGroupChat
    simp only [hgroup, hkey, decryptGroup_encryptGroup h.aead, h.chat]
  have hdispatch : app.dispatchIncoming now msg
      = app.handleGroupChat group.id msg.envelope.fromPeer m := by
    unfold AppNode.dispatchIncoming AppNode.handleGroupPayload
    rw [if_pos hbody, hpayload, h.wire]
    simp only [hopen]
  rw [hdispatch]
  show ((app.storage.saveGroupChat group.id m).groupRecordPeerSeen group.id _).groupChats = _
  unfold AppStorage.groupRecordPeerSeen
  split <;> rfl

/-- Under the body of the sender it is no message of the app. -/
theorem GroupRoundTrip.dropped (h : GroupRoundTrip d group m) (hbin : Bincode) (app : AppNode)
    (now : UInt64) {msg : DirectMessage} (hbody : msg.body = "[group message]")
    (hpayload : msg.envelope.payload = groupPayload d.nonce group m) :
    app.dispatchIncoming now msg = app := by
  have hbytes : asBytes "[group message]" = 91 :: 103 :: (asBytes "[group message]").drop 2 := by
    decide +kernel
  have hdecode : AppCodec.decodeAppMessage (groupPayload d.nonce group m) = none := by
    cases hdecode : AppCodec.decodeAppMessage (groupPayload d.nonce group m) with
    | none => rfl
    | some appMsg =>
      obtain ⟨rest, hrest⟩ := hbin.groupHead _ _ _ h.wire
      have hseven : groupPayload d.nonce group m = 7 :: ([0, 0, 0] ++ rest) := hrest.symm
      exact absurd hseven (hbin.not_seven hdecode _)
  rw [dispatchIncoming_eq_run, hbody, hpayload,
    route_untagged (untagged_of_bytes hbytes (by decide) (by decide) (by decide)), hdecode]
  rfl

/-- **Group messages.** A member sends a text to a group; the broadcast arrives as `m` at another
node. Every member's app there stores the sent chat message under the group if and only if no
peer of the sender had announced the scope of the group, so that it went through gossip. -/
theorem group_message_stored_iff [Node.World] (hbin : Bincode) {text : String}
    (hround : GroupRoundTrip d group (newChat d text)) {sender : AppNode} {scope body : String}
    {payload : Bytes}
    (hcmd : .broadcastPayload scope body payload ∈ (sendGroupMessage d group text sender).2)
    {s r : Node.NodeRunner} {msg : DirectMessage} (h : Node.ReachesApp s r scope body payload msg) :
    (∀ (app : AppNode) (g : Group) (now : UInt64), app.storage.groupById group.id = some g →
        g.key = group.key →
        (app.dispatchIncoming now msg).storage.groupChats
          = (app.storage.saveGroupChat group.id (newChat d text)).groupChats)
      ↔ Node.targetsForScope s.peerScopes scope = [] := by
  obtain ⟨rfl, rfl, rfl⟩ := sendGroupMessage_broadcast hcmd
  obtain ⟨hpayload, ⟨hpeers, hbody⟩ | ⟨hnone, hbody⟩⟩ := h.cases
  · refine ⟨fun hstored => ?_, fun hnone => absurd hnone hpeers⟩
    -- a member that has no chats yet still has none
    let member : AppNode :=
      { localPeerId := "", localEncPubkeyHex := "", encKeypair := ⟨Vector.replicate 32 0⟩
        storage := { groups := (∅ : KvTree.Of String Group).insert group.id group } }
    have hmember : member.storage.groupById group.id = some group := AList.lookup_insert _
    have hchats := hstored member group 0 hmember rfl
    rw [hround.dropped hbin member 0 hbody hpayload] at hchats
    have hsaved : (member.storage.saveGroupChat group.id (newChat d text)).groupChats.lookup
        (group.id, tsUuidKey d.now d.id) = some (newChat d text) := AList.lookup_insert _
    rw [← hchats] at hsaved
    cases hsaved
  · refine ⟨fun _ => hnone, fun _ app g now hgroup hkey => ?_⟩
    rw [hround.gossipBody, Option.some.injEq] at hbody
    exact hround.stored hgroup hkey now hbody.symm hpayload

end

section

attribute [local instance] symbolicPrims chatEncoder hiCodec hiGroupCodec attributionWorld

theorem hiGroup_roundTrip :
    GroupRoundTrip (symbolicDraws 0) symbolicGroup (newChat (symbolicDraws 0) "hi") where
  chat := by decide +kernel
  wire := by decide +kernel
  aead := symbolicPrims_aeadLaws.decrypt_encrypt

/-- A node of a member, which listens to its groups. -/
def listeningNode : Node.NodeRunner :=
  { Node.symbolicNode 2 3 5000000 with subscribedScopes := ["mycelium/group/*"] }

/-- The app of a member. -/
def memberApp : AppNode :=
  { freshApp with storage := { groups := AList.singleton "g" symbolicGroup } }

/-- The text `hi` to the group, through gossip. -/
theorem group_message_stored_gossip :
    (memberApp.dispatchIncoming 5000000
        (gossipMessage "[mycelium:group]" hiGroupPayload)).storage.groupChats
      = (memberApp.storage.saveGroupChat "g" (newChat (symbolicDraws 0) "hi")).groupChats := by
  have harrives : Node.ReachesApp (Node.symbolicNode 1 3 5000000) listeningNode "mycelium/group/g"
      "[group message]" hiGroupPayload (gossipMessage "[mycelium:group]" hiGroupPayload) :=
    .gossip (Node.symbolicPeer 1) (by decide +kernel) (by decide +kernel)
  have hcmd : .broadcastPayload "mycelium/group/g" "[group message]" hiGroupPayload
      ∈ (sendGroupMessage (symbolicDraws 0) symbolicGroup "hi" memberApp).2 := by
    decide +kernel
  exact (group_message_stored_iff hiCodec_bincode hiGroup_roundTrip hcmd harrives).mpr
    (by decide +kernel) memberApp symbolicGroup 5000000 (by decide +kernel) rfl

/-- The same text to the same group, when a peer announced its groups: the member's app gets the
message and stores nothing. -/
theorem group_message_lost :
    .broadcastPayload "mycelium/group/g" "[group message]" hiGroupPayload
      ∈ (sendGroupMessage (symbolicDraws 0) symbolicGroup "hi" memberApp).2
    ∧ Node.ReachesApp (announcedNode "mycelium/group/*") listeningNode "mycelium/group/g"
        "[group message]" hiGroupPayload (directMessage "[group message]" hiGroupPayload)
    ∧ memberApp.storage.groupById "g" = some symbolicGroup
    ∧ (memberApp.dispatchIncoming 5000000
        (directMessage "[group message]" hiGroupPayload)).storage.groupChats.lookup
          ("g", tsUuidKey 5000000 (symbolicDraws 0).id) = none :=
  ⟨by decide +kernel,
    .direct (Node.symbolicPeer 2) (Node.symbolicPeer 1) (by decide +kernel) (by decide +kernel),
    by decide +kernel, by decide +kernel⟩

end

end Mycelium.App
