import Mycelium.Lib.Replicas
import Mycelium.App.GroupMessages
import Mycelium.App.Histories
import Mycelium.App.Dispatch

/-!
# Mycelium app — the conversation of a group

The apps of a network send messages to groups and handle what reaches them: group messages of
others, lost, repeated and in any order, and whatever else there is. Nobody keeps the conversation
but the members, each for itself.

* `filedBy`, `groupChats_run` — what an app files under a group, and that its history is just that;
* `filed_sent` — it was sent to the group;
* `group_conversation` — so the members that everything has reached read the same history.
-/

namespace Mycelium.App

open KvTree

/-- What one of the apps does. -/
inductive GroupAct where
  | send (d : Draws) (group : Group) (text : String)
  | receive (now : UInt64) (msg : DirectMessage)

/-- One of the apps takes its turn. -/
structure GroupTurn (ι : Type) where
  node : ι
  act : GroupAct

/-- The key of a group message, with its group. -/
def groupKey (groupId : String) (m : ChatMessage) : String × String :=
  (groupId, tsUuidKey m.timestampMs m.id)

/-- The order in which histories of groups are read. -/
def groupOrder (key : String × String) : List Nat := byteOrder (asBytes key.2)

section

variable [Prims] [AppCodec] [AppEncoder] [Node.WireCodec]

namespace GroupAct

def apply (app : AppNode) : GroupAct → AppNode
  | .send d group text => (sendGroupMessage d group text app).1
  | .receive now msg => app.dispatchIncoming now msg

omit [AppEncoder] in
/-- The message that the app files under the group. -/
def filedBy (groupId : String) (app : AppNode) : GroupAct → Option ChatMessage
  | .send d group text => if group.id = groupId then some (newChat d text) else none
  | .receive _ msg =>
    if msg.body = "[mycelium:group]" then
      match Node.WireCodec.decode msg.envelope.payload with
      | some (.encryptedGroup id encrypted) =>
        if id = groupId then app.openGroupChat id encrypted else none
      | _ => none
    else none

end GroupAct

/-! ## What an app files -/

omit [Prims] [AppCodec] [AppEncoder] [Node.WireCodec] in
/-- A message under some group, seen from one of them. -/
theorem restrict_insert_groupKey (groupId id : String) (m : ChatMessage)
    (chats : KvTree.Of (String × String) ChatMessage) :
    restrict (fun k => k.1 = groupId) (chats.insert (groupKey id m) m)
      = if id = groupId then (restrict (fun k => k.1 = groupId) chats).insert (groupKey groupId m) m
        else restrict (fun k => k.1 = groupId) chats := by
  rw [restrict_insert]
  by_cases hid : id = groupId
  · subst hid
    simp [groupKey]
  · simp [groupKey, hid]

omit [AppEncoder] in
/-- Messages that are not tagged as group messages leave the histories of groups alone. -/
theorem groupChats_untagged {now : UInt64} {msg : DirectMessage} {app next : AppNode}
    (h : Dispatched now msg app next) (hbody : msg.body ≠ "[mycelium:group]") :
    next.storage.groupChats = app.storage.groupChats := by
  cases h with
  | nothing => rfl
  | groupChat groupId encrypted m hgroup _ _ => exact absurd hgroup hbody
  | proximity _ => rw [handleProximityPayload_storage]
  | chat m _ _ =>
    have hcontact : (app.handleChatContact now msg.envelope.fromPeer m).storage.groupChats
        = app.storage.groupChats := by
      unfold AppNode.handleChatContact
      split
      · split <;> rfl
      · show (app.storage.upsertContact now _ _ .pending).groupChats = _
        unfold AppStorage.upsertContact
        split <;> rfl
    rw [← hcontact]
    unfold AppNode.saveAndShowChat
    split <;> rfl
  | bulletin post => rfl
  | mail m => rfl
  | calls new _ => rfl

omit [AppEncoder] in
/-- **A message that arrives** is filed if it is a group message that opens. -/
theorem groupChats_dispatch (now : UInt64) (msg : DirectMessage) (app : AppNode) (groupId : String) :
    restrict (fun k => k.1 = groupId) (app.dispatchIncoming now msg).storage.groupChats
      = match GroupAct.filedBy groupId app (.receive now msg) with
        | some m => (restrict (fun k => k.1 = groupId) app.storage.groupChats).insert
            (groupKey groupId m) m
        | none => restrict (fun k => k.1 = groupId) app.storage.groupChats := by
  -- only the group tag files, and only what opens
  by_cases hbody : msg.body = "[mycelium:group]"
  · have hdispatch : app.dispatchIncoming now msg = app.handleGroupPayload msg.envelope := if_pos hbody
    rw [hdispatch]
    simp only [GroupAct.filedBy, if_pos hbody]
    unfold AppNode.handleGroupPayload
    cases hdecode : Node.WireCodec.decode msg.envelope.payload with
    | none => rfl
    | some wire =>
      cases wire with
      | encryptedGroup id encrypted =>
        cases hopen : app.openGroupChat id encrypted with
        | none => simp [hopen]
        | some m =>
          have hchats : (app.handleGroupChat id msg.envelope.fromPeer m).storage.groupChats
              = app.storage.groupChats.insert (groupKey id m) m := by
            show ((app.storage.saveGroupChat id m).groupRecordPeerSeen id _).groupChats = _
            unfold AppStorage.groupRecordPeerSeen
            split <;> rfl
          simp only [hopen]
          rw [hchats, restrict_insert_groupKey]
          -- a group chat is filed under the id in its frame, which another group may not have
          by_cases hid : id = groupId
          · rw [if_pos hid, if_pos hid]
          · rw [if_neg hid, if_neg hid]
      | _ => rfl
  · have hnone : GroupAct.filedBy groupId app (.receive now msg) = none := if_neg hbody
    rw [hnone, groupChats_untagged (dispatchIncoming_dispatched now msg app) hbody]

/-- **One step**: the history of the group gets what the app files under it. -/
theorem groupChats_apply (app : AppNode) (act : GroupAct) (groupId : String) :
    restrict (fun k => k.1 = groupId) (act.apply app).storage.groupChats
      = match act.filedBy groupId app with
        | some m => (restrict (fun k => k.1 = groupId) app.storage.groupChats).insert
            (groupKey groupId m) m
        | none => restrict (fun k => k.1 = groupId) app.storage.groupChats := by
  cases act with
  | receive now msg => exact groupChats_dispatch now msg app groupId
  | send d group text =>
    have hchats : (sendGroupMessage d group text app).1.storage.groupChats
        = app.storage.groupChats.insert (groupKey group.id (newChat d text)) (newChat d text) := by
      show ((app.storage.groupRecordPeerSeen group.id _).saveGroupChat group.id _).groupChats = _
      unfold AppStorage.groupRecordPeerSeen
      split <;> rfl
    show restrict _ (sendGroupMessage d group text app).1.storage.groupChats = _
    rw [hchats, restrict_insert_groupKey]
    by_cases hid : group.id = groupId
    · simp only [GroupAct.filedBy, if_pos hid]
    · simp only [GroupAct.filedBy, if_neg hid]

/-- What the app files under the group during the acts. -/
def filed (groupId : String) : AppNode → List GroupAct → List ChatMessage :=
  written GroupAct.apply fun app act => act.filedBy groupId app

/-- **A whole run**: the history of the group consists of what the app filed. -/
theorem groupChats_run {app : AppNode} (hempty : app.storage.groupChats = ∅) (groupId : String)
    (acts : List GroupAct) :
    restrict (fun k => k.1 = groupId) (acts.foldl GroupAct.apply app).storage.groupChats
      = rows (groupKey groupId) (filed groupId app acts) := by
  refine foldl_eq_rows_written
    (fun app : AppNode => restrict (fun k => k.1 = groupId) app.storage.groupChats)
    (by rw [hempty]; rfl) (fun app act => ?_) acts
  rw [groupChats_apply]
  cases GroupAct.filedBy groupId app act <;> rfl

/-! ## The network -/

variable {ι : Type} [DecidableEq ι]

/-- What happens at one of the nodes. -/
def actsOf (events : List (GroupTurn ι)) (i : ι) : List GroupAct :=
  (events.filter fun e => e.node = i).map GroupTurn.act

def appAfter (start : ι → AppNode) (events : List (GroupTurn ι)) (i : ι) : AppNode :=
  (actsOf events i).foldl GroupAct.apply (start i)

/-- The messages that were sent to the group, by anybody. -/
def sentTo (groupId : String) (events : List (GroupTurn ι)) : List ChatMessage :=
  events.filterMap fun e => match e.act with
    | .send d group text => if group.id = groupId then some (newChat d text) else none
    | .receive _ _ => none

/-- The event can happen after `events`: a group message that opens is one of those that were sent
before. Which group it was sent to, and by whom, is left open. -/
def Genuine (start : ι → AppNode) (events : List (GroupTurn ι)) (e : GroupTurn ι) : Prop :=
  ∀ now msg groupId m, e.act = .receive now msg →
    e.act.filedBy groupId (appAfter start events e.node) = some m →
    ∃ e' ∈ events, ∃ d group text, e'.act = .send d group text
      ∧ msg.envelope.payload = groupPayload d.nonce group (newChat d text)

/-- The events make up a run of the network. -/
inductive GroupRun (start : ι → AppNode) : List (GroupTurn ι) → Prop
  | nil : GroupRun start []
  | append {events : List (GroupTurn ι)} {e : GroupTurn ι} : GroupRun start events →
      Genuine start events e → GroupRun start (events ++ [e])

variable {start : ι → AppNode} {events : List (GroupTurn ι)}

omit [Prims] [AppCodec] [AppEncoder] [Node.WireCodec] in
theorem actsOf_append (events : List (GroupTurn ι)) (e : GroupTurn ι) (i : ι) :
    actsOf (events ++ [e]) i = actsOf events i ++ if e.node = i then [e.act] else [] := by
  unfold actsOf
  rw [List.filter_append, List.map_append]
  by_cases hi : e.node = i
  · rw [if_pos hi, List.filter_cons_of_pos (by simpa using hi)]
    rfl
  · rw [if_neg hi, List.filter_cons_of_neg (by simpa using hi)]
    rfl

omit [Prims] [AppCodec] [AppEncoder] [Node.WireCodec] [DecidableEq ι] in
theorem mem_sentTo {groupId : String} {m : ChatMessage} :
    m ∈ sentTo groupId events ↔ ∃ e ∈ events, ∃ d group text, e.act = .send d group text
      ∧ group.id = groupId ∧ newChat d text = m := by
  unfold sentTo
  rw [List.mem_filterMap]
  refine exists_congr fun e => and_congr_right fun _ => ?_
  cases hact : e.act with
  | receive now msg => simp
  | send d group text => simp [eq_comm]

omit [Node.WireCodec] in
/-- A payload opens where the group has the key it was sealed under, and only there. -/
theorem openGroupChat_encryptGroup (haead : Prims.AeadLaws) {app : AppNode} {group : Group}
    {m : ChatMessage} (hchat : AppCodec.decodeAppMessage
      (AppEncoder.encodeAppMessage { payload := .chat m }) = some { payload := .chat m })
    (nonce : Vector UInt8 12) :
    app.openGroupChat group.id (encryptGroup nonce
        (AppEncoder.encodeAppMessage { payload := .chat m }) group.key)
      = if (app.storage.groupById group.id).map Group.key = some group.key then some m else none := by
  unfold AppNode.openGroupChat
  cases hgroup : app.storage.groupById group.id with
  | none => simp
  | some g =>
    by_cases hkey : g.key = group.key
    · simp [hkey, decryptGroup_encryptGroup haead.decrypt_encrypt, hchat]
    · have hnone : decryptGroup (encryptGroup nonce
          (AppEncoder.encodeAppMessage { payload := .chat m }) group.key) g.key
          = .error "group decryption failed" := by
        unfold decryptGroup encryptGroup
        rw [if_neg (by simp), List.take_left' (by simp), List.drop_left' (by simp),
          haead.decrypt_other _ _ hkey]
      simp [hkey, hnone]

/-- What is filed of a group message is what was sent. -/
theorem filedBy_groupPayload (haead : Prims.AeadLaws) {d : Draws} {group : Group} {text : String}
    (hround : GroupRoundTrip d group (newChat d text)) {app : AppNode} {groupId : String}
    {now : UInt64} {msg : DirectMessage} {m : ChatMessage}
    (hpayload : msg.envelope.payload = groupPayload d.nonce group (newChat d text))
    (h : GroupAct.filedBy groupId app (.receive now msg) = some m) :
    group.id = groupId ∧ newChat d text = m := by
  simp only [GroupAct.filedBy, hpayload, hround.wire] at h
  split at h
  · split at h
    · next hid =>
      rw [openGroupChat_encryptGroup haead hround.chat] at h
      exact ⟨hid, (Option.ite_none_right_eq_some.mp h).2 |> Option.some.inj⟩
    · cases h
  · cases h

/-- Every message that is sent goes through the encodings and comes back. -/
def RoundTrips (events : List (GroupTurn ι)) : Prop :=
  ∀ e ∈ events, ∀ d group text, e.act = .send d group text → GroupRoundTrip d group (newChat d text)

/-- **What is filed was sent**, to this group and as it stands. Induction on the run. -/
theorem filed_sent (haead : Prims.AeadLaws) (hrun : GroupRun start events)
    (hround : RoundTrips events) (i : ι) (groupId : String) :
    ∀ m ∈ filed groupId (start i) (actsOf events i), m ∈ sentTo groupId events := by
  induction hrun with
  | nil => exact nofun
  | @append events e _ hgenuine ih =>
    intro m hm
    have hkept : m ∈ sentTo groupId events → m ∈ sentTo groupId (events ++ [e]) := by
      intro h
      unfold sentTo at h ⊢
      rw [List.filterMap_append]
      exact List.mem_append_left _ h
    have hround' : RoundTrips events := fun e' he' => hround e' (List.mem_append_left _ he')
    rw [actsOf_append] at hm
    by_cases hi : e.node = i
    · subst hi
      rw [if_pos rfl] at hm
      rcases mem_written_concat.mp hm with hold | hfiled
      · exact hkept (ih hround' m hold)
      cases hact : e.act with
      | receive now msg =>
        -- it is one of the messages of the run, opened where it belongs
        obtain ⟨e', he', d, group, text, hsend, hpayload⟩ := hgenuine now msg groupId m hact hfiled
        rw [hact] at hfiled
        obtain ⟨hid, hm⟩ :=
          filedBy_groupPayload haead (hround' e' he' d group text hsend) hpayload hfiled
        exact hkept (mem_sentTo.mpr ⟨e', he', d, group, text, hsend, hid, hm⟩)
      | send d group text =>
        rw [hact] at hfiled
        obtain ⟨hid, hm⟩ := Option.ite_none_right_eq_some.mp hfiled
        exact mem_sentTo.mpr ⟨e, List.mem_append_right _ (List.mem_singleton.mpr rfl), d, group,
          text, hact, hid, Option.some.inj hm⟩
    · rw [if_neg hi, List.append_nil] at hm
      exact hkept (ih hround' m hm)

/-- The message of a send has reached a member: it is its own, or it came through gossip when the
member held the group. -/
def Reached (start : ι → AppNode) (events : List (GroupTurn ι)) (i : ι) (e : GroupTurn ι)
    (d : Draws) (group : Group) (text : String) : Prop :=
  e.node = i ∨ ∃ before now msg after g, actsOf events i = before ++ .receive now msg :: after
    ∧ msg.body = "[mycelium:group]"
    ∧ msg.envelope.payload = groupPayload d.nonce group (newChat d text)
    ∧ (before.foldl GroupAct.apply (start i)).storage.groupById group.id = some g
    ∧ g.key = group.key

/-- Every message of the group has reached the member. -/
def AllReached (start : ι → AppNode) (events : List (GroupTurn ι)) (groupId : String) (i : ι) :
    Prop :=
  ∀ e ∈ events, ∀ d group text, e.act = .send d group text → group.id = groupId →
    Reached start events i e d group text

/-- What has reached a member is filed there. -/
theorem filed_of_reached (haead : Prims.AeadLaws) {i : ι} {e : GroupTurn ι} (he : e ∈ events)
    {d : Draws} {group : Group} {text : String} (hact : e.act = .send d group text)
    (hround : GroupRoundTrip d group (newChat d text))
    (h : Reached start events i e d group text) :
    newChat d text ∈ filed group.id (start i) (actsOf events i) := by
  rcases h with hown | ⟨before, now, msg, after, g, hsplit, hbody, hpayload, hgroup, hkey⟩
  · have hmem : e.act ∈ actsOf events i :=
      List.mem_map.mpr ⟨e, List.mem_filter.mpr ⟨he, decide_eq_true hown⟩, rfl⟩
    obtain ⟨before, after, hsplit⟩ := List.append_of_mem hmem
    rw [hsplit]
    refine mem_written_of_split ?_
    rw [hact]
    exact if_pos rfl
  · rw [hsplit]
    refine mem_written_of_split ?_
    have hopen : (before.foldl GroupAct.apply (start i)).openGroupChat group.id (encryptGroup d.nonce
        (AppEncoder.encodeAppMessage { payload := .chat (newChat d text) }) group.key)
        = some (newChat d text) := by
      rw [openGroupChat_encryptGroup haead hround.chat, hgroup]
      simp [hkey]
    simp only [GroupAct.filedBy, if_pos hbody, hpayload, hround.wire, if_true, hopen]

omit [Prims] [AppCodec] [AppEncoder] [Node.WireCodec] in
/-- Messages with ids of their own can be told apart by their place in the history. -/
theorem groupOrder_injOn {groupId : String} {l : List ChatMessage}
    (hids : (l.map ChatMessage.id).Nodup) :
    Set.InjOn (fun m => groupOrder (groupKey groupId m)) {m | m ∈ l} := by
  intro m hm m' hm' heq
  have hbytes : Function.Injective byteOrder := by
    intro b b' h
    exact List.map_injective_iff.mpr (fun x y hxy => UInt8.toNat_inj.mp hxy) h
  have hkey : tsUuidKey m.timestampMs m.id = tsUuidKey m'.timestampMs m'.id :=
    asBytes_injective (hbytes heq)
  exact List.inj_on_of_nodup_map hids hm hm' (tsUuidKey_inj.mp hkey).2

/-- **The conversation of a group.** In every run, with the messages of a group all under ids of
their own: what anybody reads in the history of the group was sent to it. Who has been reached by
every message reads the newest of all messages, as many as are asked for and newest first, and any
two who have read the same. -/
theorem group_conversation (haead : Prims.AeadLaws) (start : ι → AppNode)
    (hstart : ∀ i, (start i).storage.groupChats = ∅) {events : List (GroupTurn ι)}
    (hrun : GroupRun start events) (hround : RoundTrips events) (groupId : String)
    (hids : ((sentTo groupId events).map ChatMessage.id).Nodup) (limit : Nat) :
    (∀ i, ∀ m ∈ (appAfter start events i).storage.groupChatHistory groupId limit,
      m ∈ sentTo groupId events)
    ∧ (∀ i, AllReached start events groupId i →
      Newest (fun m : ChatMessage => m.timestampMs.toNat) limit (sentTo groupId events)
        ((appAfter start events i).storage.groupChatHistory groupId limit))
    ∧ ∀ i j, AllReached start events groupId i → AllReached start events groupId j →
      (appAfter start events i).storage.groupChatHistory groupId limit
        = (appAfter start events j).storage.groupChatHistory groupId limit := by
  have hread : ∀ i, (appAfter start events i).storage.groupChatHistory groupId limit
      = lastValues groupOrder limit
        (rows (groupKey groupId) (filed groupId (start i) (actsOf events i))) :=
    fun i => congrArg (lastValues groupOrder limit) (groupChats_run (hstart i) groupId _)
  -- whom everything has reached has filed just what was sent
  have hall : ∀ i, AllReached start events groupId i →
      (appAfter start events i).storage.groupChatHistory groupId limit
        = lastValues groupOrder limit (rows (groupKey groupId) (sentTo groupId events)) := by
    intro i hreached
    have hsame : ∀ m, m ∈ sentTo groupId events
        ↔ m ∈ filed groupId (start i) (actsOf events i) := by
      refine fun m => ⟨fun hm => ?_, filed_sent haead hrun hround i groupId m⟩
      obtain ⟨e, he, d, group, text, hact, hid, rfl⟩ := mem_sentTo.mp hm
      have hfiled := filed_of_reached haead he hact (hround e he d group text hact)
        (hreached e he d group text hact hid)
      rwa [hid] at hfiled
    rw [hread]
    exact (lastValues_rows_eq (fun _ => rfl) (groupOrder_injOn hids) hsame limit).symm
  refine ⟨fun i m hm => ?_, fun i hi => ?_, fun i j hi hj => (hall i hi).trans (hall j hj).symm⟩
  · rw [hread] at hm
    exact filed_sent haead hrun hround i groupId m (mem_of_mem_lastValues_rows hm)
  · rw [hall i hi]
    have hkeys : ((sentTo groupId events).map (groupKey groupId)).Nodup := by
      refine (List.Nodup.of_map _ hids).map_on fun m hm m' hm' heq => ?_
      exact groupOrder_injOn hids hm hm' (congrArg groupOrder heq)
    refine newest_rows (fun m m' hlt => ?_) hkeys limit
    exact tsUuidKey_lt (U64.lt_iff.mpr hlt) m.id m'.id

end

section

attribute [local instance] symbolicPrims chatEncoder hiCodec hiGroupCodec

/-- One of two members sends `hi`, and the other gets it twice. -/
def hiEvents : List (GroupTurn Bool) :=
  [⟨true, .send (symbolicDraws 0) symbolicGroup "hi"⟩,
    ⟨false, .receive 5000000 (gossipMessage "[mycelium:group]" hiGroupPayload)⟩,
    ⟨false, .receive 6000000 (gossipMessage "[mycelium:group]" hiGroupPayload)⟩]

theorem hiEvents_genuine {events : List (GroupTurn Bool)} (e : GroupTurn Bool)
    (hsent : ⟨true, .send (symbolicDraws 0) symbolicGroup "hi"⟩ ∈ events)
    (he : ∀ now msg, e.act = .receive now msg → msg.envelope.payload = hiGroupPayload) :
    Genuine (fun _ => memberApp) events e :=
  fun now msg _ _ hact _ => ⟨_, hsent, symbolicDraws 0, symbolicGroup, "hi", rfl, he now msg hact⟩

/-- Both read the same, and it is the message. -/
theorem group_conversation_hi :
    (appAfter (fun _ => memberApp) hiEvents false).storage.groupChatHistory "g" 10
        = (appAfter (fun _ => memberApp) hiEvents true).storage.groupChatHistory "g" 10
    ∧ (appAfter (fun _ => memberApp) hiEvents false).storage.groupChatHistory "g" 10
        = [newChat (symbolicDraws 0) "hi"] := by
  -- the run: one member sends, and both members receive what the transport brings
  have hrun : GroupRun (fun _ => memberApp) hiEvents := by
    have hsend : GroupRun (fun _ => memberApp) [hiEvents[0]] :=
      .append .nil (fun now msg groupId m hact _ => by cases hact)
    refine .append (.append hsend (hiEvents_genuine _ (by simp [hiEvents]) ?_))
      (hiEvents_genuine _ (by simp [hiEvents]) ?_)
    · rintro now msg ⟨⟩
      rfl
    · rintro now msg ⟨⟩
      rfl
  have hsends : ∀ e ∈ hiEvents, ∀ d group text, e.act = .send d group text →
      e.node = true ∧ d = symbolicDraws 0 ∧ group = symbolicGroup ∧ text = "hi" := by
    intro e he d group text hact
    simp only [hiEvents, List.mem_cons, List.not_mem_nil, or_false] at he
    rcases he with rfl | rfl | rfl
    · obtain ⟨rfl, rfl, rfl⟩ := GroupAct.send.inj hact
      exact ⟨rfl, rfl, rfl, rfl⟩
    · cases hact
    · cases hact
  have hround : RoundTrips hiEvents := by
    intro e he d group text hact
    obtain ⟨-, rfl, rfl, rfl⟩ := hsends e he d group text hact
    exact hiGroup_roundTrip
  -- the sender has its own message, the other member received it at the second event
  have hreached : ∀ i, AllReached (fun _ => memberApp) hiEvents "g" i := by
    intro i e he d group text hact _
    obtain ⟨hnode, rfl, rfl, rfl⟩ := hsends e he d group text hact
    cases i with
    | true => exact .inl hnode
    | false =>
      exact .inr ⟨[], 5000000, gossipMessage "[mycelium:group]" hiGroupPayload, _, symbolicGroup,
        rfl, rfl, rfl, by decide +kernel, rfl⟩
  refine ⟨(group_conversation symbolicPrims_aeadLaws (fun _ => memberApp) (fun _ => rfl) hrun hround
    "g" (by decide +kernel) 10).2.2 false true (hreached false) (hreached true), by decide +kernel⟩

end

end Mycelium.App
