import Mycelium.Lib.Replicas
import Mycelium.App.Announce
import Mycelium.App.DirectMessages
import Mycelium.App.Histories
import Mycelium.Node.HonestKeys

/-!
# Mycelium app — the conversation of two

Apps on the nodes of a network write to each other. A message is sealed under the key that the
sender's node has at the time, becomes a command of that node, and travels as a frame; it may be
relayed, repeated, lost or overtaken, and what is opened in the end is handed to the other app.
Everybody is honest, but nothing is assumed about the keys.

* `MeshRun` — a run of nodes and apps together; `MeshRun.honest` — as a run of the nodes alone;
* `opened_sent` — what an app is handed was sent to it, by the app it is said to come from;
* `direct_conversation` — so if no two messages have the same time, and all have arrived, the two
  read the same.
-/

namespace Mycelium.App

open KvTree Node

/-- A node handles an input, or the app on it acts. -/
inductive MeshEvent (ι : Type) where
  | net (e : NetEvent ι)
  | act (node : ι) (act : ChatAct)

section

variable {ι : Type} [DecidableEq ι]

def MeshEvent.toNet : MeshEvent ι → Option (NetEvent ι)
  | .net e => some e
  | .act _ _ => none

def MeshEvent.toAct (i : ι) : MeshEvent ι → Option ChatAct
  | .net _ => none
  | .act j a => if j = i then some a else none

/-- What the nodes do. -/
def netEvents (events : List (MeshEvent ι)) : List (NetEvent ι) := events.filterMap MeshEvent.toNet

/-- What one of the apps does. -/
def chatActs (events : List (MeshEvent ι)) (i : ι) : List ChatAct :=
  events.filterMap (MeshEvent.toAct i)

variable [Prims] [AppCodec] [AppEncoder] [WireCodec]

def chatApp (start : ι → AppNode) (events : List (MeshEvent ι)) (i : ι) : AppNode :=
  (chatActs events i).foldl ChatAct.apply (start i)

/-- What can happen after `events`. A frame that the app wants sent is one that it made; it makes
frames with the keys its node has; and what it files was opened by its node. -/
inductive Happens (host : ι → Node.Host) (start : ι → AppNode) (events : List (MeshEvent ι)) :
    MeshEvent ι → Prop
  | net (e : NetEvent ι) (harrives : Arrives host (netEvents events) e)
      (hmade : ∀ toPeer w, e.input = .command (.sendWire toPeer w) →
        ∃ before after d keys peer text,
          events = before ++ .act e.node (.send d keys peer text) :: after
          ∧ (sendChat d keys (some peer) text (chatApp start before e.node)).1
            = .ok (.sendWire toPeer w)) :
      Happens host start events (.net e)
  | send (i : ι) (d : SealDraws) (peer text : String) (s : NodeRunner)
      (hrun : (host i).run (inputsOf (netEvents events) i) = .ok () s) :
      Happens host start events (.act i (.send d s.peerX25519 peer text))
  | receive (i : ι) (now : UInt64) (msg : DirectMessage)
      (hopened : ∀ peer m, (chatApp start events i).chatFiled msg = some (peer, m) →
        .deliver .encrypted msg ∈ (host i).outputs (inputsOf (netEvents events) i)) :
      Happens host start events (.act i (.receive now msg))

/-- The events make up a run. -/
inductive MeshRun (host : ι → Node.Host) (start : ι → AppNode) : List (MeshEvent ι) → Prop
  | nil : MeshRun host start []
  | append {events : List (MeshEvent ι)} {e : MeshEvent ι} : MeshRun host start events →
      Happens host start events e → MeshRun host start (events ++ [e])

/-- The apps are those of the nodes, and have no histories yet. -/
structure Fits (host : ι → Node.Host) (start : ι → AppNode) : Prop where
  identity : ∀ i, (start i).identity = ((host i).peerId, (host i).config.encKeypair.publicHex)
  chats : ∀ i, (start i).storage.chats = ∅

variable {host : ι → Node.Host} {start : ι → AppNode} {events : List (MeshEvent ι)} {i j : ι}

/-- Every event could happen when it did. Induction on the run. -/
theorem MeshRun.happens (hrun : MeshRun host start events) {before after : List (MeshEvent ι)}
    {e : MeshEvent ι} (hsplit : events = before ++ e :: after) :
    MeshRun host start before ∧ Happens host start before e := by
  induction hrun generalizing after with
  | nil => simp at hsplit
  | @append events last hrun hlast ih =>
    rcases List.eq_nil_or_concat after with rfl | ⟨after', e', rfl⟩
    · obtain ⟨rfl, heq⟩ := List.append_inj' hsplit rfl
      obtain rfl : last = e := by simpa using heq
      exact ⟨hrun, hlast⟩
    · have hsplit' : events ++ [last] = (before ++ e :: after') ++ [e'] := by simpa using hsplit
      obtain ⟨heq, -⟩ := List.append_inj' hsplit' rfl
      exact ih heq

omit [Prims] [AppCodec] [AppEncoder] [WireCodec] in
/-- A turn of one of the acts, among all events. -/
theorem split_of_chatActs {acts acts' : List ChatAct} {a : ChatAct}
    (h : chatActs events i = acts ++ a :: acts') :
    ∃ before after, events = before ++ .act i a :: after ∧ chatActs before i = acts := by
  obtain ⟨front, back, rfl, hfront, hback⟩ := List.filterMap_eq_append_iff.mp h
  obtain ⟨skipped, e, after, rfl, hskipped, he, -⟩ := List.filterMap_eq_cons_iff.mp hback
  have hact : e = .act i a := by
    cases e with
    | net e => cases he
    | act k b =>
      obtain ⟨rfl, hb⟩ := Option.ite_none_right_eq_some.mp he
      rw [Option.some.inj hb]
  subst hact
  refine ⟨front ++ skipped, after, by rw [List.append_assoc], ?_⟩
  unfold chatActs
  rw [List.filterMap_append, hfront, List.filterMap_eq_nil_iff.mpr hskipped, List.append_nil]

theorem identity_chatApp (events : List (MeshEvent ι)) (i : ι) :
    (chatApp start events i).identity = (start i).identity :=
  identity_foldl _ _

/-- So what it asks of the node could as well be said of it as it was at first. -/
theorem sendChat_chatApp (events : List (MeshEvent ι)) (i : ι) (d : SealDraws)
    (keys : KvTree.Of String X25519Key) (peer text : String) :
    (sendChat d keys (some peer) text (chatApp start events i)).1
      = (sendChat d keys (some peer) text (start i)).1 :=
  sendChat_congr (identity_chatApp events i)

/-! ## The nodes -/

omit [AppCodec] [WireCodec] [DecidableEq ι] in
/-- The frame of a message to one peer is one of the host's own. -/
theorem seals_of_sent (hfits : Fits host start) {d : SealDraws} {keys : KvTree.Of String X25519Key}
    {peer text : String} {cmd : NodeCommand}
    (h : (sendChat d keys (some peer) text (start i)).1 = .ok cmd) :
    ∃ w, cmd = .sendWire peer w ∧ Seals (host i) keys peer
      (AppEncoder.encodeAppMessage { payload := .chat (newChat d.toDraws text) }) w := by
  obtain ⟨pk, wrapped, hpk, hwrapped, rfl⟩ := (sendChat_ok h).frame
  obtain ⟨hlocal, hkey⟩ := Prod.mk.inj (hfits.identity i)
  rw [hlocal] at hwrapped
  exact ⟨_, rfl, pk, wrapped, d.ephemeral, d.nonce, hpk, hwrapped, by rw [hkey]⟩

omit [Prims] [AppCodec] [AppEncoder] [WireCodec] [DecidableEq ι] in
theorem netEvents_concat (events : List (MeshEvent ι)) (e : MeshEvent ι) :
    netEvents (events ++ [e]) = netEvents events ++ e.toNet.toList := by
  unfold netEvents
  rw [List.filterMap_append]
  cases e <;> rfl

omit [Prims] [AppCodec] [AppEncoder] [WireCodec] [DecidableEq ι] in
theorem netEvents_prefix {before after : List (MeshEvent ι)} :
    netEvents before <+: netEvents (before ++ after) := by
  unfold netEvents
  rw [List.filterMap_append]
  exact List.prefix_append _ _

/-- **The nodes are honest.** Induction on the run; what an app does is no event of the nodes. -/
theorem MeshRun.honest (hfits : Fits host start) (hrun : MeshRun host start events) :
    HonestRun host (netEvents events) := by
  induction hrun with
  | nil => exact .nil
  | @append events e hrun he ih =>
    rw [netEvents_concat]
    cases he with
    | net e harrives hmade =>
      refine .append ih harrives fun toPeer w hinput => ?_
      obtain ⟨before, after, d, keys, peer, text, rfl, hsent⟩ := hmade toPeer w hinput
      rw [sendChat_chatApp] at hsent
      obtain ⟨_, hthen⟩ := hrun.happens rfl
      cases hthen with
      | send _ _ _ _ s hs =>
        obtain ⟨w', hcmd, hseals⟩ := seals_of_sent hfits hsent
        obtain ⟨rfl, rfl⟩ := NodeCommand.sendWire.inj hcmd
        exact ⟨netEvents before, s, toPeer, _, netEvents_prefix, hs, hseals⟩
    | send i d peer text s hs => exact (List.append_nil (netEvents events)).symm ▸ ih
    | receive i now msg hopened => exact (List.append_nil (netEvents events)).symm ▸ ih

variable (hlaws : SealLaws) (hinj : Function.Injective fun i => (host i).peerId)
  (hnames : ∀ i, (host i).peerId ≠ "") (hfits : Fits host start)

/-- The app of `j` sent `text` to host `i`. -/
def Sent (host : ι → Node.Host) (start : ι → AppNode) (events : List (MeshEvent ι)) (j i : ι)
    (d : SealDraws) (text : String) : Prop :=
  ∃ keys cmd, .act j (.send d keys (host i).peerId text) ∈ events
    ∧ (sendChat d keys (some (host i).peerId) text (start j)).1 = .ok cmd

/-- The message brings what the app of `j` sent. -/
structure Brings (host : ι → Node.Host) (j : ι) (d : SealDraws) (text : String)
    (msg : DirectMessage) : Prop where
  body : msg.body = "[encrypted]"
  fromPeer : msg.envelope.fromPeer = (host j).peerId
  payload : msg.envelope.payload
    = AppEncoder.encodeAppMessage { payload := .chat (newChat d.toDraws text) }

include hlaws hinj hnames hfits in
/-- **What is opened was sent**, to this host and by the one it is said to come from. -/
theorem opened_sent (hrun : MeshRun host start events) {msg : DirectMessage}
    (h : .deliver .encrypted msg ∈ (host i).outputs (inputsOf (netEvents events) i)) :
    ∃ j d text, Sent host start events j i d text ∧ Brings host j d text msg := by
  have hhonest := hrun.honest hfits
  obtain ⟨e, he, toPeer, key, payload, sig, hop, maxHops, hinput, hmade, hfrom, hbody⟩ :=
    opened_madeBy hlaws hinj hnames hhonest h
  -- the command was made of something that the app sent
  obtain ⟨e', he', hnet⟩ := List.mem_filterMap.mp he
  obtain ⟨middle, after, rfl⟩ := List.append_of_mem he'
  cases e' with
  | act k a => cases hnet
  | net e' =>
    obtain rfl := Option.some.inj hnet
    obtain ⟨hrun', hthen⟩ := hrun.happens rfl
    cases hthen with
    | net _ _ hissued =>
      obtain ⟨before, after', d, keys, peer, text, rfl, hsent⟩ := hissued _ _ hinput
      rw [sendChat_chatApp] at hsent
      obtain ⟨hrun'', hbefore⟩ := hrun'.happens rfl
      cases hbefore with
      | send _ _ _ _ s hs =>
        obtain ⟨w, hcmd, pk, wrapped, ephemeral, nonce, hlookup, hwrapped, hw⟩ :=
          seals_of_sent hfits hsent
        obtain ⟨rfl, rfl⟩ := NodeCommand.sendWire.inj hcmd
        obtain ⟨rfl, hkey, hpayload, -⟩ := WireMessage.encryptedDirect.inj hw
        -- under the key of this host, so that it is opened in one way only
        obtain ⟨k, hk, rfl⟩ :=
          keysRight hlaws hinj hnames (hrun''.honest hfits) _ (List.prefix_refl _) e'.node s hs _ _
            hlookup
        obtain rfl : k = i := hinj hk
        have hown : MadeBy host e'.node k
            (AppEncoder.encodeAppMessage { payload := .chat (newChat d.toDraws text) }) key
            payload :=
          ⟨hkey, wrapped, ephemeral, nonce, hwrapped, hpayload⟩
        refine ⟨e'.node, d, text, ⟨s.peerX25519, _, ?_, hsent⟩, hbody, hfrom,
          hmade.unique hlaws (hnames _) (hnames _) hown⟩
        simp

/-! ## The histories -/

/-- The message, if it was sent from `i` to `j` or the other way. -/
def MeshEvent.between (host : ι → Node.Host) (start : ι → AppNode) (i j : ι) :
    MeshEvent ι → Option ChatMessage
  | .act k (.send d keys peer text) =>
    if (k = i ∧ peer = (host j).peerId) ∨ (k = j ∧ peer = (host i).peerId) then
      ((ChatAct.send d keys peer text).filedBy (start k)).map Prod.snd
    else none
  | _ => none

/-- What the two have sent to each other. -/
def conversation (host : ι → Node.Host) (start : ι → AppNode) (events : List (MeshEvent ι))
    (i j : ι) : List ChatMessage :=
  events.filterMap (MeshEvent.between host start i j)

/-- Everything that `j` sent to `i` has arrived at the app of `i`, some time and any number of
times. -/
def AllArrived (host : ι → Node.Host) (start : ι → AppNode) (events : List (MeshEvent ι))
    (j i : ι) : Prop :=
  ∀ d text, Sent host start events j i d text →
    ∃ now msg, .act i (.receive now msg) ∈ events ∧ Brings host j d text msg

omit [WireCodec] in
theorem filedBy_send {app : AppNode} {d : SealDraws} {keys : KvTree.Of String X25519Key}
    {peer text : String} {e : String × ChatMessage} :
    (ChatAct.send d keys peer text).filedBy app = some e
      ↔ (∃ cmd, (sendChat d keys (some peer) text app).1 = .ok cmd)
        ∧ e = (peer, newChat d.toDraws text) := by
  unfold ChatAct.filedBy
  cases hresult : (sendChat d keys (some peer) text app).1 with
  | ok cmd => simp [hresult, eq_comm]
  | error e => simp [hresult]

omit [WireCodec] in
theorem mem_conversation {m : ChatMessage} :
    m ∈ conversation host start events i j ↔ ∃ d text, newChat d.toDraws text = m
      ∧ (Sent host start events i j d text ∨ Sent host start events j i d text) := by
  unfold conversation
  rw [List.mem_filterMap]
  refine ⟨?_, ?_⟩
  -- only a send makes a message, and only between the two
  · rintro ⟨e, he, hbetween⟩
    cases e with
    | net e => cases hbetween
    | act k a =>
      cases a with
      | receive now msg => cases hbetween
      | send d keys peer text =>
        obtain ⟨hpeers, hfiled⟩ := Option.ite_none_right_eq_some.mp hbetween
        obtain ⟨e, hfiledBy, rfl⟩ := Option.map_eq_some_iff.mp hfiled
        obtain ⟨⟨cmd, hcmd⟩, rfl⟩ := filedBy_send.mp hfiledBy
        rcases hpeers with ⟨rfl, rfl⟩ | ⟨rfl, rfl⟩
        · exact ⟨d, text, rfl, .inl ⟨keys, cmd, he, hcmd⟩⟩
        · exact ⟨d, text, rfl, .inr ⟨keys, cmd, he, hcmd⟩⟩
  -- either direction of sending gives the same event of the conversation
  · rintro ⟨d, text, rfl, ⟨keys, cmd, hmem, hcmd⟩ | ⟨keys, cmd, hmem, hcmd⟩⟩
    · refine ⟨_, hmem, (if_pos (.inl ⟨rfl, rfl⟩)).trans ?_⟩
      rw [filedBy_send.mpr ⟨⟨cmd, hcmd⟩, rfl⟩]
      rfl
    · refine ⟨_, hmem, (if_pos (.inr ⟨rfl, rfl⟩)).trans ?_⟩
      rw [filedBy_send.mpr ⟨⟨cmd, hcmd⟩, rfl⟩]
      rfl

/-- What an app files under a peer. -/
def filedUnder (peer : String) : AppNode → List ChatAct → List ChatMessage :=
  written ChatAct.apply fun app a =>
    (a.filedBy app).bind fun e => if e.1 = peer then some e.2 else none

omit [DecidableEq ι] in
/-- The history of a peer consists of what the app has filed. -/
theorem chats_run (hfits : Fits host start) (i : ι) (peer : String) (acts : List ChatAct) :
    restrict (fun k => k.1 = peer) (acts.foldl ChatAct.apply (start i)).storage.chats
      = rows (fun m => (peer, m.timestampMs)) (filedUnder peer (start i) acts) := by
  refine foldl_eq_rows_written
    (fun app : AppNode => restrict (fun k => k.1 = peer) app.storage.chats)
    (by rw [hfits.chats i]; rfl) (fun app a => ?_) acts
  rw [chats_apply]
  cases hfiled : a.filedBy app with
  | none => rfl
  | some e =>
    obtain ⟨p, m⟩ := e
    show restrict _ (app.storage.chats.insert (p, m.timestampMs) m) = _
    rw [restrict_insert]
    by_cases hp : p = peer
    · simp [hp]
    · simp [hp]

omit [DecidableEq ι] [WireCodec] in
/-- A message that brings something is filed under the one who sent it. -/
theorem Brings.filed {d : SealDraws} {text : String} {msg : DirectMessage} {app : AppNode}
    (h : Brings host j d text msg) (happ : app.localPeerId ≠ (host j).peerId)
    (hcodec : AppCodec.decodeAppMessage
        (AppEncoder.encodeAppMessage { payload := .chat (newChat d.toDraws text) })
      = some { payload := .chat (newChat d.toDraws text) }) :
    app.chatFiled msg = some ((host j).peerId, newChat d.toDraws text) := by
  have huntagged : Untagged "[encrypted]" := by
    have hbytes : asBytes "[encrypted]" = 91 :: 101 :: (asBytes "[encrypted]").drop 2 := by
      decide +kernel
    exact untagged_of_bytes hbytes (by decide) (by decide) (by decide)
  unfold AppNode.chatFiled
  rw [h.body, h.payload, route_untagged huntagged, hcodec, h.fromPeer]
  exact if_neg (Ne.symm happ)

/-- Every message that is sent is decoded as it was encoded. -/
def Decodes (events : List (MeshEvent ι)) : Prop :=
  ∀ i d keys peer text, .act i (.send d keys peer text) ∈ events →
    AppCodec.decodeAppMessage (AppEncoder.encodeAppMessage
        { payload := .chat (newChat d.toDraws text) })
      = some { payload := .chat (newChat d.toDraws text) }

omit [DecidableEq ι] in
include hinj hfits in
theorem local_ne (hij : i ≠ j) (acts : List ChatAct) :
    (acts.foldl ChatAct.apply (start i)).localPeerId ≠ (host j).peerId := by
  have hlocal : (acts.foldl ChatAct.apply (start i)).localPeerId = (host i).peerId :=
    congrArg Prod.fst ((identity_foldl (start i) acts).trans (hfits.identity i))
  rw [hlocal]
  exact fun heq => hij (hinj heq)

include hlaws hinj hnames hfits in
/-- **What is filed was said** between the two. -/
theorem filed_said (hrun : MeshRun host start events) (hdecodes : Decodes events) (hij : i ≠ j)
    {m : ChatMessage}
    (h : m ∈ filedUnder (host j).peerId (start i) (chatActs events i)) :
    m ∈ conversation host start events i j := by
  obtain ⟨acts, a, acts', hsplit, hwritten⟩ := split_of_mem_written h
  obtain ⟨before, after, rfl, rfl⟩ := split_of_chatActs hsplit
  obtain ⟨⟨peer, m'⟩, hfiled, hpeer⟩ := Option.bind_eq_some_iff.mp hwritten
  obtain ⟨rfl, hm⟩ := Option.ite_none_right_eq_some.mp hpeer
  obtain rfl : m' = m := Option.some.inj hm
  obtain ⟨hbefore, hthen⟩ := hrun.happens rfl
  rw [mem_conversation]
  cases hthen with
  | send _ d peer text s hs =>
    obtain ⟨⟨cmd, hcmd⟩, heq⟩ := filedBy_send.mp hfiled
    obtain ⟨rfl, rfl⟩ := Prod.mk.inj heq
    refine ⟨d, text, rfl, .inl ⟨_, cmd, List.mem_append_right _ List.mem_cons_self, ?_⟩⟩
    rw [← hcmd]
    exact (sendChat_chatApp before i d s.peerX25519 _ text).symm
  | receive _ now msg hopened =>
    -- it came from a message that some host sent, and that is `j`
    obtain ⟨k, d, text, ⟨keys, cmd, hmem, hcmd⟩, hbrings⟩ :=
      opened_sent hlaws hinj hnames hfits hbefore (hopened _ _ hfiled)
    have hmem' : .act k (.send d keys (host i).peerId text)
        ∈ before ++ .act i (.receive now msg) :: after := List.mem_append_left _ hmem
    have hfrom : msg.envelope.fromPeer = (host j).peerId := fromPeer_of_chatFiled hfiled
    obtain rfl : k = j := hinj (hbrings.fromPeer.symm.trans hfrom)
    have hown := hbrings.filed (local_ne hinj hfits hij (chatActs before i))
      (hdecodes k d keys _ text hmem')
    have heq : some ((host k).peerId, newChat d.toDraws text) = some ((host k).peerId, m') :=
      hown.symm.trans hfiled
    exact ⟨d, text, (Prod.mk.inj (Option.some.inj heq)).2, .inr ⟨keys, cmd, hmem', hcmd⟩⟩

include hinj hfits in
/-- **What was said is filed**, once it has arrived. -/
theorem said_filed (hdecodes : Decodes events) (hij : i ≠ j)
    (harrived : AllArrived host start events j i) {m : ChatMessage}
    (h : m ∈ conversation host start events i j) :
    m ∈ filedUnder (host j).peerId (start i) (chatActs events i) := by
  have hact : ∀ a, .act i a ∈ events → (∀ acts : List ChatAct,
      a.filedBy (acts.foldl ChatAct.apply (start i)) = some ((host j).peerId, m)) →
      m ∈ filedUnder (host j).peerId (start i) (chatActs events i) := by
    intro a hmem hfiled
    have hmem' : a ∈ chatActs events i := List.mem_filterMap.mpr ⟨_, hmem, if_pos rfl⟩
    obtain ⟨acts, acts', hsplit⟩ := List.append_of_mem hmem'
    rw [hsplit]
    refine mem_written_of_split ?_
    rw [hfiled acts]
    exact if_pos rfl
  obtain ⟨d, text, rfl, ⟨keys, cmd, hmem, hcmd⟩ | hsent⟩ := mem_conversation.mp h
  · refine hact _ hmem fun acts => filedBy_send.mpr ⟨⟨cmd, ?_⟩, rfl⟩
    rw [← hcmd]
    exact sendChat_congr (identity_foldl _ _)
  · obtain ⟨now, msg, hmem, hbrings⟩ := harrived d text hsent
    obtain ⟨keys, _, hsend, -⟩ := hsent
    exact hact _ hmem fun acts =>
      hbrings.filed (local_ne hinj hfits hij acts) (hdecodes j d keys _ text hsend)

/-- The order in which histories of peers are read. -/
def chatOrder (key : String × UInt64) : List Nat := byteOrder (tsKey key.2)

omit [Prims] [AppCodec] [AppEncoder] [WireCodec] in
theorem chatOrder_injective (peer : String) :
    Function.Injective fun ts : UInt64 => chatOrder (peer, ts) := by
  intro ts ts' heq
  have hless : ∀ {a b : UInt64}, a < b → chatOrder (peer, a) ≠ chatOrder (peer, b) :=
    fun hlt => (tsKey_lt hlt).ne
  by_contra hne
  rcases Nat.lt_or_gt_of_ne (fun h => hne (UInt64.toNat_inj.mp h)) with hlt | hlt
  · exact hless (U64.lt_iff.mpr hlt) heq
  · exact hless (U64.lt_iff.mpr hlt) heq.symm

include hlaws hinj hnames hfits in
/-- **The conversation of two.** In every run of a network of honest nodes with their apps, with
any relays, losses, repetitions and delays: what one reads in the history of the other was said
between the two. Who has got everything from the other reads the newest of what was said, as many
as are asked for and newest first, if no two messages have the same time; and if both have got
everything, they read the same. -/
theorem direct_conversation (hrun : MeshRun host start events) (hdecodes : Decodes events)
    (hij : i ≠ j) (htimes : ((conversation host start events i j).map ChatMessage.timestampMs).Nodup)
    (limit : Nat) :
    (∀ m ∈ (chatApp start events i).storage.chatHistory (host j).peerId limit,
      m ∈ conversation host start events i j)
    ∧ (AllArrived host start events j i →
      Newest (fun m : ChatMessage => m.timestampMs.toNat) limit (conversation host start events i j)
        ((chatApp start events i).storage.chatHistory (host j).peerId limit))
    ∧ (AllArrived host start events j i → AllArrived host start events i j →
      (chatApp start events i).storage.chatHistory (host j).peerId limit
        = (chatApp start events j).storage.chatHistory (host i).peerId limit) := by
  have hread : ∀ k peer, (chatApp start events k).storage.chatHistory peer limit
      = lastValues chatOrder limit
        (rows (fun m => (peer, m.timestampMs)) (filedUnder peer (start k) (chatActs events k))) :=
    fun k peer => congrArg (lastValues chatOrder limit) (chats_run hfits k peer _)
  have hkeys : ∀ peer, Set.InjOn (fun m : ChatMessage => chatOrder (peer, m.timestampMs))
      {m | m ∈ conversation host start events i j} := by
    intro peer m hm m' hm' heq
    exact List.inj_on_of_nodup_map htimes hm hm' (chatOrder_injective peer heq)
  -- who has got everything has filed what was said, whatever it is filed under
  have hall : ∀ {k l : ι}, k ≠ l → AllArrived host start events l k →
      (∀ m, m ∈ conversation host start events i j ↔ m ∈ conversation host start events k l) →
      (chatApp start events k).storage.chatHistory (host l).peerId limit
        = lastValues chatOrder limit
          (rows (fun m => ((host j).peerId, m.timestampMs))
            (conversation host start events i j)) := by
    intro k l hkl harrived hsame
    rw [hread, eq_comm]
    have hfiled : ∀ m, m ∈ conversation host start events i j
        ↔ m ∈ filedUnder (host l).peerId (start k) (chatActs events k) := fun m =>
      (hsame m).trans ⟨said_filed hinj hfits hdecodes hkl harrived,
        filed_said hlaws hinj hnames hfits hrun hdecodes hkl⟩
    -- the order goes by the times, not by the peer they are stored under
    have horder : ∀ m : ChatMessage, chatOrder ((host l).peerId, m.timestampMs)
        = chatOrder ((host j).peerId, m.timestampMs) := fun _ => rfl
    exact lastValues_rows_eq horder (hkeys (host j).peerId) hfiled limit
  refine ⟨fun m hm => ?_, fun harrived => ?_, fun harrived harrived' => ?_⟩
  · rw [hread] at hm
    exact filed_said hlaws hinj hnames hfits hrun hdecodes hij (mem_of_mem_lastValues_rows hm)
  · rw [hall hij harrived fun _ => Iff.rfl]
    have hnodup : ((conversation host start events i j).map
        fun m => ((host j).peerId, m.timestampMs)).Nodup :=
      (List.Nodup.of_map _ htimes).map_on fun m hm m' hm' heq =>
        List.inj_on_of_nodup_map htimes hm hm' (Prod.mk.inj heq).2
    refine newest_rows (fun m m' hlt => ?_) hnodup limit
    exact tsKey_lt (U64.lt_iff.mpr hlt)
  · rw [hall hij harrived fun _ => Iff.rfl, hall hij.symm harrived' fun m => ?_]
    rw [mem_conversation, mem_conversation]
    exact exists_congr fun d => exists_congr fun text => and_congr_right fun _ => or_comm

end

section

attribute [local instance] symbolicPrims chatEncoder hiCodec noCodec

/-- The apps on the two nodes. -/
def pairApp (i : Bool) : AppNode where
  localPeerId := (pair i).peerId
  localEncPubkeyHex := (pair i).config.encKeypair.publicHex
  encKeypair := (pair i).config.encKeypair

def hiDraws : SealDraws :=
  { symbolicDraws 0 with contactNow := 5000000, ephemeral := Vector.replicate 32 9 }

/-- The app of peer 1 sends `hi`, with the keys that the node has when the two have met. -/
def hiSent : ChatAct :=
  .send hiDraws (finalState ((pair true).run (inputsOf pairMeets true))).peerX25519
    (symbolicPeer 2) "hi"

/-- The frame that it makes of it. -/
def hiFrame : WireMessage :=
  .encryptedDirect (symbolicPeer 2) (pair true).config.encKeypair.publicHex
    (encryptFor hiDraws.ephemeral hiDraws.nonce
      ((wrapInner (symbolicPeer 1) (AppEncoder.encodeAppMessage (hiMessage 0))).getD [])
      (Vector.replicate 32 2)) none 0 8

/-- The node of peer 1 sends the frame, and the one of peer 2 opens it. -/
def hiNet : List (NetEvent Bool) :=
  pairMeets ++ [pairEvent true (.command (.sendWire (symbolicPeer 2) hiFrame))]
    ++ [pairEvent false (.frame (symbolicPeer 1) (signEncryptedDirect hiFrame (symbolicKey 1)).2)]

/-- What the app of peer 2 gets. -/
def hiOpened : DirectMessage where
  envelope := Envelope.new 5000000 (symbolicPeer 1) (some (symbolicPeer 2))
    (AppEncoder.encodeAppMessage (hiMessage 0))
  body := "[encrypted]"

/-- Both together. -/
def hiMesh : List (MeshEvent Bool) :=
  [.net pairUp, .net pairAnnounced, .act true hiSent,
    .net (pairEvent true (.command (.sendWire (symbolicPeer 2) hiFrame))),
    .net (pairEvent false (.frame (symbolicPeer 1) (signEncryptedDirect hiFrame (symbolicKey 1)).2)),
    .act false (.receive 5000000 hiOpened)]

theorem hiMesh_run : MeshRun pair pairApp hiMesh := by
  have hmeets : MeshRun pair pairApp [.net pairUp, .net pairAnnounced] := by
    refine .append (.append .nil (.net pairUp (by decide +kernel) ?_))
      (.net _ pairAnnounced_arrives ?_)
    · rintro toPeer w ⟨⟩
    · rintro toPeer w ⟨⟩
  refine .append (.append (.append (.append hmeets (.send true hiDraws _ "hi" _ pairMeets_run))
    (.net _ (by decide +kernel) ?_)) (.net _ (by decide +kernel) ?_))
    (.receive _ _ _ fun _ _ _ => ?_)
  · rintro toPeer w ⟨⟩
    exact ⟨[.net pairUp, .net pairAnnounced], [], hiDraws, _, _, "hi", rfl, by decide +kernel⟩
  · rintro toPeer w ⟨⟩
  · show _ ∈ (pair false).outputs (inputsOf hiNet false)
    decide +kernel

/-- Both read the same, and it is the message. -/
theorem direct_conversation_hi :
    (chatApp pairApp hiMesh false).storage.chatHistory (symbolicPeer 1) 10
        = (chatApp pairApp hiMesh true).storage.chatHistory (symbolicPeer 2) 10
    ∧ (chatApp pairApp hiMesh false).storage.chatHistory (symbolicPeer 1) 10
        = [newChat (symbolicDraws 0) "hi"] := by
  -- one message is sent, by peer 2, and it reached peer 1
  have hsends : ∀ i d keys peer text, .act i (.send d keys peer text) ∈ hiMesh →
      i = true ∧ d = hiDraws ∧ text = "hi" := by
    intro i d keys peer text hmem
    simp only [hiMesh, List.mem_cons, List.not_mem_nil, or_false, reduceCtorEq, false_or,
      MeshEvent.act.injEq, and_false] at hmem
    obtain ⟨rfl, hact⟩ := hmem
    obtain ⟨rfl, -, -, rfl⟩ := ChatAct.send.inj hact
    exact ⟨rfl, rfl, rfl⟩
  have hdecodes : Decodes hiMesh := by
    intro i d keys peer text hmem
    obtain ⟨-, rfl, rfl⟩ := hsends i d keys peer text hmem
    decide +kernel
  have harrived : AllArrived pair pairApp hiMesh true false := by
    rintro d text ⟨keys, _, hmem, -⟩
    obtain ⟨-, rfl, rfl⟩ := hsends _ d keys _ text hmem
    exact ⟨5000000, hiOpened, by simp [hiMesh], rfl, rfl, rfl⟩
  have harrived' : AllArrived pair pairApp hiMesh false true := by
    rintro d text ⟨keys, _, hmem, -⟩
    obtain ⟨hside, -⟩ := hsends _ d keys _ text hmem
    cases hside
  exact ⟨(direct_conversation symbolicPrims_sealLaws (by decide +kernel) (by decide +kernel)
    ⟨fun _ => rfl, fun _ => rfl⟩ hiMesh_run hdecodes (i := false) (j := true) (by decide)
    (by decide +kernel) 10).2.2 harrived harrived', by decide +kernel⟩

end

end Mycelium.App
