import Mycelium.App.Dispatch
import Mycelium.App.GroupMessages

/-!
# Mycelium app — the members of a group

A group lists the peers that were seen in it. What proves membership is the key, under which a
message must open; what is listed is `from_peer` of the envelope, which on a relayed or gossiped
message is whoever passed it on. So a name in the list leads back to a message that somebody with
the key has sealed, and to the peer that delivered it.

* `OpensFor` — a message that opens under a key as a chat of a group;
* `SeenBy` — where the members of the rows come from, message by message;
* `group_members_seen` — over every sequence of messages;
* `forwarder_listed` — a peer without the key is listed.
-/

namespace Mycelium.App

/-- Rows are stored under the id of their group, as `save_group` stores them. -/
def AppStorage.GroupsKeyed (st : AppStorage) : Prop :=
  ∀ {id g}, st.groupById id = some g → g.id = id

theorem AppStorage.groupById_saveGroup (st : AppStorage) (g : Group) (id : String) :
    (st.saveGroup g).groupById id = if id = g.id then some g else st.groupById id := by
  show (st.groups.insert g.id g).lookup id = _
  split
  · next heq =>
    rw [heq]
    exact AList.lookup_insert _
  · next hne => exact AList.lookup_insert_ne hne

theorem Group.recordPeerSeen_id (g : Group) (peer : String) : (g.recordPeerSeen peer).id = g.id := by
  unfold Group.recordPeerSeen
  split
  · rfl
  split
  · rfl
  · rfl

theorem Group.recordPeerSeen_key (g : Group) (peer : String) :
    (g.recordPeerSeen peer).key = g.key := by
  unfold Group.recordPeerSeen
  split
  · rfl
  split
  · rfl
  · rfl

/-- A name that appears is the peer's, and not empty. -/
theorem Group.mem_recordPeerSeen {g : Group} {peer other : String}
    (h : other ∈ (g.recordPeerSeen peer).members) :
    other ∈ g.members ∨ other = peer ∧ peer ≠ "" := by
  unfold Group.recordPeerSeen at h
  split at h
  · exact .inl h
  next hpeer =>
  split at h
  · exact .inl h
  · rcases List.mem_append.mp h with h | h
    · exact .inl h
    · exact .inr ⟨List.mem_singleton.mp h, hpeer⟩

section

variable [Prims] [AppCodec] [Node.WireCodec]

/-- The message is a group frame that opens under the key and holds a chat message. -/
def OpensFor (groupId : String) (key : Bytes32) (msg : DirectMessage) : Prop :=
  msg.body = "[mycelium:group]" ∧ ∃ encrypted plain m,
    Node.WireCodec.decode msg.envelope.payload = some (.encryptedGroup groupId encrypted)
    ∧ decryptGroup encrypted key = .ok plain
    ∧ AppCodec.decodeAppMessage plain = some { payload := .chat m }

omit [Node.WireCodec] in
theorem openGroupChat_some {app : AppNode} {groupId : String} {encrypted : Bytes} {m : ChatMessage}
    (h : app.openGroupChat groupId encrypted = some m) :
    ∃ g plain, app.storage.groupById groupId = some g ∧ decryptGroup encrypted g.key = .ok plain
      ∧ AppCodec.decodeAppMessage plain = some { payload := .chat m } := by
  unfold AppNode.openGroupChat at h
  cases hgroup : app.storage.groupById groupId with
  | none =>
    rw [hgroup] at h
    cases h
  | some g =>
    rw [hgroup] at h
    cases hplain : decryptGroup encrypted g.key with
    | error e =>
      simp only [hplain] at h
      cases h
    | ok plain =>
      simp only [hplain] at h
      split at h
      · next m' hdecode =>
        cases h
        exact ⟨g, plain, rfl, hplain, hdecode⟩
      · cases h

/-- From `st` to `st'` no group came or went, the keys are the same, and a member that was not
there delivered one of the messages that open under the key. -/
structure SeenBy (msgs : List DirectMessage) (st st' : AppStorage) : Prop where
  keyed : st.GroupsKeyed → st'.GroupsKeyed
  row : ∀ {id g'}, st.GroupsKeyed → st'.groupById id = some g' →
    ∃ g, st.groupById id = some g ∧ g'.key = g.key ∧ ∀ peer ∈ g'.members,
      peer ∈ g.members ∨ peer ≠ "" ∧ ∃ msg ∈ msgs, msg.envelope.fromPeer = peer
        ∧ OpensFor id g.key msg

namespace SeenBy

variable {msgs msgs' : List DirectMessage} {st st' st'' : AppStorage}

theorem of_groups (h : st'.groups = st.groups) : SeenBy msgs st st' := by
  have hrow : ∀ id, st'.groupById id = st.groupById id := by
    intro id
    rw [AppStorage.groupById, h]
    rfl
  refine ⟨fun hkeyed id g hg => hkeyed (hrow id ▸ hg), ?_⟩
  intro id g' _ hg'
  exact ⟨g', hrow id ▸ hg', rfl, fun peer hmem => .inl hmem⟩

theorem trans (h : SeenBy msgs st st') (h' : SeenBy msgs' st' st'') :
    SeenBy (msgs ++ msgs') st st'' where
  keyed := fun hkeyed => h'.keyed (h.keyed hkeyed)
  row := by
    intro id g'' hkeyed hg''
    obtain ⟨g', hg', hkey', hmembers'⟩ := h'.row (h.keyed hkeyed) hg''
    obtain ⟨g, hg, hkey, hmembers⟩ := h.row hkeyed hg'
    refine ⟨g, hg, hkey'.trans hkey, ?_⟩
    intro peer hmem
    rcases hmembers' peer hmem with hmem | ⟨hne, msg, hmsg, hfrom, hopens⟩
    · rcases hmembers peer hmem with hmem | ⟨hne, msg, hmsg, hrest⟩
      · exact .inl hmem
      · exact .inr ⟨hne, msg, List.mem_append_left _ hmsg, hrest⟩
    · -- the key is the one the group had at the start
      rw [hkey] at hopens
      exact .inr ⟨hne, msg, List.mem_append_right _ hmsg, hfrom, hopens⟩

end SeenBy

/-! ## One message -/

theorem groupRecordPeerSeen_seenBy {st : AppStorage} {groupId : String} {g : Group}
    {msg : DirectMessage} (hg : st.groupById groupId = some g)
    (hopens : OpensFor groupId g.key msg) :
    SeenBy [msg] st (st.groupRecordPeerSeen groupId msg.envelope.fromPeer) := by
  have hrow : ∀ id, (st.groupRecordPeerSeen groupId msg.envelope.fromPeer).groupById id
      = if id = g.id then some (g.recordPeerSeen msg.envelope.fromPeer)
        else st.groupById id := by
    intro id
    unfold AppStorage.groupRecordPeerSeen
    rw [hg]
    simp only
    rw [AppStorage.groupById_saveGroup, Group.recordPeerSeen_id]
  refine ⟨?_, ?_⟩
  · intro hkeyed id g' hg'
    rw [hrow] at hg'
    split at hg'
    · next hid =>
      cases hg'
      rw [Group.recordPeerSeen_id, hid]
    · exact hkeyed hg'
  · intro id g' hkeyed hg'
    rw [hrow] at hg'
    split at hg'
    · next hid =>
      cases hg'
      -- the row that was read is the row that is written
      have hgroupId : id = groupId := hid.trans (hkeyed hg)
      subst hgroupId
      refine ⟨g, hg, Group.recordPeerSeen_key g _, ?_⟩
      intro peer hmem
      rcases Group.mem_recordPeerSeen hmem with hmem | ⟨rfl, hne⟩
      · exact .inl hmem
      · exact .inr ⟨hne, msg, List.mem_singleton_self msg, rfl, hopens⟩
    · exact ⟨g', hg', rfl, fun peer hmem => .inl hmem⟩

theorem Dispatched.seenBy {now : UInt64} {msg : DirectMessage} {app app' : AppNode}
    (h : Dispatched now msg app app') : SeenBy [msg] app.storage app'.storage := by
  cases h with
  | nothing => exact .of_groups rfl
  | groupChat groupId encrypted m hbody hdecode hopen =>
    obtain ⟨g, plain, hg, hplain, hchat⟩ := openGroupChat_some hopen
    -- filing the chat changes no group; the peer is recorded seen by the frame's own sender
    have hsaved : SeenBy [] app.storage (app.storage.saveGroupChat groupId m) := .of_groups rfl
    exact hsaved.trans (groupRecordPeerSeen_seenBy hg
      ⟨hbody, encrypted, plain, m, hdecode, hplain, hchat⟩)
  | proximity _ => exact .of_groups (by rw [handleProximityPayload_storage])
  | chat m _ _ =>
    refine .of_groups ?_
    -- neither branch of the two touches the groups
    have hshow : ∀ (app : AppNode) accepted, (app.saveAndShowChat accepted msg.envelope.fromPeer
        m).storage.groups = app.storage.groups := by
      intro app accepted
      cases accepted with
      | true => rfl
      | false => rfl
    rw [hshow]
    unfold AppNode.handleChatContact
    split
    · split
      · rfl
      · rfl
    · show (app.storage.upsertContact now _ _ _).groups = _
      unfold AppStorage.upsertContact
      split
      · rfl
      · rfl
  | bulletin post => exact .of_groups rfl
  | mail m => exact .of_groups rfl
  | calls new _ => exact .of_groups rfl

/-! ## Every sequence of messages -/

theorem dispatchAll_seenBy (msgs : List (UInt64 × DirectMessage)) : ∀ app : AppNode,
    SeenBy (msgs.map Prod.snd) app.storage (dispatchAll msgs app).storage := by
  induction msgs with
  | nil => exact fun app => .of_groups rfl
  | cons e msgs ih =>
    exact fun app => (dispatchIncoming_dispatched e.1 e.2 app).seenBy.trans (ih _)

/-- **A listed member delivered a message of the group.** Over every sequence of messages, a name
that appears in the list of a group is the `from_peer` of a group frame among them that opens
under the key of that group and holds a chat message. -/
theorem group_members_seen (app : AppNode) (hkeyed : app.storage.GroupsKeyed)
    (msgs : List (UInt64 × DirectMessage)) {id : String} {g' : Group}
    (hg' : (dispatchAll msgs app).storage.groupById id = some g') :
    ∃ g, app.storage.groupById id = some g ∧ g'.key = g.key ∧ ∀ peer ∈ g'.members,
      peer ∉ g.members →
        peer ≠ "" ∧ ∃ e ∈ msgs, e.2.envelope.fromPeer = peer ∧ OpensFor id g.key e.2 := by
  obtain ⟨g, hg, hkey, hmembers⟩ := (dispatchAll_seenBy msgs app).row hkeyed hg'
  refine ⟨g, hg, hkey, ?_⟩
  intro peer hmem hnew
  rcases hmembers peer hmem with hold | ⟨hne, msg, hmsg, hrest⟩
  · exact absurd hold hnew
  · obtain ⟨e, he, rfl⟩ := List.mem_map.mp hmsg
    exact ⟨hne, e, he, hrest⟩

end

/-! ## A forwarder -/

/-- Somebody encrypted something under a key. -/
structure Encryption where
  peer : String
  key : Bytes32
  ciphertext : Bytes

section

variable [Prims] [AppCodec] [Node.WireCodec]

/-- Given who encrypted what, every member that the messages add to a group is the local peer or
encrypted something under the key of the group. -/
def MembersEncrypted (made : List Encryption) (msgs : List (UInt64 × DirectMessage))
    (app : AppNode) : Prop :=
  ∀ id g', (dispatchAll msgs app).storage.groupById id = some g' → ∀ peer ∈ g'.members,
    (∃ g, app.storage.groupById id = some g ∧ peer ∈ g.members) ∨ peer = app.localPeerId
      ∨ ∃ e ∈ made, e.peer = peer ∧ e.key = g'.key

end

section

attribute [local instance] symbolicPrims chatEncoder hiCodec hiGroupCodec attributionWorld

/-- What node 2 hands to its app when peer 4 passes the text `hi` of the group on. -/
def forwardedMessage : DirectMessage :=
  { envelope := .newUnsigned 5000000 (Node.symbolicPeer 4) none hiGroupPayload
    body := "[mycelium:group]" }

theorem forwardedMessage_listed :
    (dispatchAll [(5000000, forwardedMessage)] memberApp).storage.groupById "g"
      = some { symbolicGroup with members := [Node.symbolicPeer 4] } := by
  decide +kernel

/-- A member of the group that has seen nobody gets the text `hi` from peer 4, who is listed, and
the text opens. -/
theorem group_members_seen_forwarded : ∃ g, memberApp.storage.groupById "g" = some g
    ∧ Node.symbolicPeer 4 ∉ g.members ∧ OpensFor "g" g.key forwardedMessage := by
  have hkeyed : memberApp.storage.GroupsKeyed := by
    intro id g hg
    have hid : id = "g" := by
      by_contra hne
      have hnone : memberApp.storage.groupById id = none :=
        AList.lookup_eq_none.mpr fun hmem => hne (List.mem_singleton.mp hmem)
      cases hnone.symm.trans hg
    subst hid
    have hrow : memberApp.storage.groupById "g" = some symbolicGroup := by decide +kernel
    cases hrow.symm.trans hg
    rfl
  obtain ⟨g, hg, -, hmembers⟩ :=
    group_members_seen memberApp hkeyed [(5000000, forwardedMessage)] forwardedMessage_listed
  have hrow : memberApp.storage.groupById "g" = some symbolicGroup := by decide +kernel
  cases hrow.symm.trans hg
  have hnew : Node.symbolicPeer 4 ∉ symbolicGroup.members := by simp [symbolicGroup]
  obtain ⟨-, e, he, -, hopens⟩ := hmembers (Node.symbolicPeer 4) (by simp) hnew
  obtain rfl := List.mem_singleton.mp he
  exact ⟨symbolicGroup, rfl, hnew, hopens⟩

/-- Peer 1 encrypts the text `hi` under the key of the group and publishes it; peer 4, who has
encrypted nothing, forwards it; the node of a member takes it from gossip, and its app lists peer 4
as a member. -/
theorem forwarder_listed :
    .broadcastPayload "mycelium/group/g" "[group message]" hiGroupPayload
      ∈ (sendGroupMessage (symbolicDraws 0) symbolicGroup "hi" memberApp).2
    ∧ .deliver .gossip forwardedMessage ∈ Node.inputOutputs listeningNode
        (.transportEvent (.scopedReceived (Node.symbolicPeer 4) "mycelium/group/g" hiGroupPayload))
    ∧ ¬ MembersEncrypted
        [⟨Node.symbolicPeer 1, symbolicGroup.key, encryptGroup (symbolicDraws 0).nonce
          (AppEncoder.encodeAppMessage (hiMessage 0)) symbolicGroup.key⟩]
        [(5000000, forwardedMessage)] memberApp := by
  refine ⟨by decide +kernel, by decide +kernel, ?_⟩
  intro hsound
  have hrow : memberApp.storage.groupById "g" = some symbolicGroup := by decide +kernel
  rcases hsound "g" _ forwardedMessage_listed (Node.symbolicPeer 4) (by simp) with
    ⟨g, hg, hmem⟩ | hlocal | ⟨e, he, hpeer, -⟩
  · cases hrow.symm.trans hg
    cases hmem
  · exact absurd hlocal (by decide +kernel)
  · obtain rfl := List.mem_singleton.mp he
    exact absurd hpeer (by decide +kernel)

end

end Mycelium.App
