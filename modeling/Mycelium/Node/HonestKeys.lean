import Mycelium.Core.Sealing
import Mycelium.Node.KeyBinding
import Mycelium.Node.Network
import Mycelium.Node.RemoteFrames
import Mycelium.Node.Signals

/-!
# Mycelium node — keys among honest nodes

In a network in which every node runs this code, and every app seals what it sends under the key
its node has for the recipient, the key tables are right: what is stored for a peer is the key of
that peer. So what is sealed for a node is opened there, and the app is told who sealed it, however
many relays are in between and in whatever order things happen.

* `HonestRun` — a run of such a network;
* `underway_sent` — a sealed frame that travels was put on its way by a command;
* `honest_keys` — the tables, and what the apps are handed.
-/

namespace Mycelium.Node

/-- The key is read back from its text. -/
theorem parseX25519PublicHex_hexEncode (key : X25519Key) :
    parseX25519PublicHex (hexEncode key.toList) = some key := by
  unfold parseX25519PublicHex
  rw [trim_hexEncode, hexDecode_hexEncode]
  exact toBytes32_toList key

section

variable [Prims]

/-- The frame is one of the host's own: `app`, sealed for `dest` in the host's name, under the key
that the table has for `dest`. -/
def Seals (h : Host) (keys : KvTree.Of String X25519Key) (dest : String) (app : Bytes)
    (w : WireMessage) : Prop :=
  ∃ pk wrapped ephemeral nonce, keys.lookup dest = some pk
    ∧ wrapInner h.peerId app = some wrapped
    ∧ w = .encryptedDirect dest h.config.encKeypair.publicHex
        (encryptFor ephemeral nonce wrapped pk) none 0 8

variable {ι : Type} [DecidableEq ι]

/-- The event can happen after `events`: frames that the app wants sent are its own, made when the
table was as it was at some earlier time. -/
def Issued (host : ι → Host) (events : List (NetEvent ι)) (e : NetEvent ι) : Prop :=
  ∀ toPeer w, e.input = .command (.sendWire toPeer w) →
    ∃ before s dest app, before <+: events
      ∧ (host e.node).run (inputsOf before e.node) = .ok () s
      ∧ Seals (host e.node) s.peerX25519 dest app w

/-- A run of a network in which everybody is honest. -/
inductive HonestRun (host : ι → Host) : List (NetEvent ι) → Prop
  | nil : HonestRun host []
  | append {events : List (NetEvent ι)} {e : NetEvent ι} : HonestRun host events →
      Arrives host events e → Issued host events e → HonestRun host (events ++ [e])

variable {host : ι → Host} {events : List (NetEvent ι)} {i : ι}

/-! ## One more event -/

omit [Prims] in
theorem inputsOf_append (events : List (NetEvent ι)) (e : NetEvent ι) (i : ι) :
    inputsOf (events ++ [e]) i
      = inputsOf events i ++ if e.node = i then [(e.view, e.input)] else [] := by
  unfold inputsOf
  rw [List.filter_append, List.map_append]
  by_cases hi : e.node = i
  · rw [if_pos hi, List.filter_cons_of_pos (by simpa using hi)]
    rfl
  · rw [if_neg hi, List.filter_cons_of_neg (by simpa using hi)]
    rfl

/-- What a node has done after one more event. -/
theorem outputs_event {e : NetEvent ι} {o : Output}
    (h : o ∈ (host i).outputs (inputsOf (events ++ [e]) i)) :
    o ∈ (host i).outputs (inputsOf events i)
      ∨ e.node = i ∧ ∃ s, (host i).run (inputsOf events i) = .ok () s
          ∧ o ∈ (host i).inputOutputs { s with transport := e.view } e.input := by
  let _ := (host i).world
  let _ := (host i).codec
  rw [inputsOf_append] at h
  by_cases hi : e.node = i
  · have heq : (host i).outputs (inputsOf events i ++ [(e.view, e.input)]) = _ :=
      outputs_append_singleton (host i).config (inputsOf events i) e.view e.input
    rw [if_pos hi, heq] at h
    rcases List.mem_append.mp h with hold | hnew
    · exact .inl hold
    · cases hrun : runLoop (inputsOf events i) (.new (host i).config) with
      | ok u s =>
        rw [hrun] at hnew
        exact .inr ⟨hi, s, hrun, hnew⟩
      | error msg s =>
        rw [hrun] at hnew
        cases hnew
  · rw [if_neg hi, List.append_nil] at h
    exact .inl h

/-- The state a node is in after one more event. -/
theorem run_event {e : NetEvent ι} {s : NodeRunner}
    (h : (host i).run (inputsOf (events ++ [e]) i) = .ok () s) :
    (host i).run (inputsOf events i) = .ok () s
      ∨ e.node = i ∧ ∃ s₀, (host i).run (inputsOf events i) = .ok () s₀
          ∧ @handleInput _ (host i).world (host i).codec e.input { s₀ with transport := e.view }
            = .ok () s := by
  let _ := (host i).world
  let _ := (host i).codec
  rw [inputsOf_append] at h
  by_cases hi : e.node = i
  · rw [if_pos hi] at h
    have hstep : (runLoop (inputsOf events i) >>= fun _ => step e.view e.input)
        (.new (host i).config) = .ok () s := by
      rw [← h, ← runLoop_append_singleton (inputsOf events i) (e.view, e.input)]
      rfl
    cases hrun : runLoop (inputsOf events i) (.new (host i).config) with
    | error msg s₀ =>
      rw [run_bind_of_error hrun] at hstep
      cases hstep
    | ok u s₀ =>
      rw [run_bind_of_ok hrun] at hstep
      exact .inr ⟨hi, s₀, hrun, hstep⟩
  · rw [if_neg hi, List.append_nil] at h
    exact .inl h

/-- A node keeps its name and its key. -/
theorem identity_run {s : NodeRunner} (h : (host i).run (inputsOf events i) = .ok () s) :
    s.localPeerId = (host i).peerId ∧ s.encKeypair = (host i).config.encKeypair := by
  let _ := (host i).world
  let _ := (host i).codec
  have hserving := serving_reachable (c := (host i).config) ⟨inputsOf events i, h⟩
  exact ⟨hserving.localPeerId, hserving.encKeypair⟩

/-! ## Where frames come from -/

/-- A frame with this content was put on its way by a command of an earlier event. -/
def Underway (events : List (NetEvent ι)) (dest key : String) (payload : Bytes) : Prop :=
  ∃ e ∈ events, ∃ toPeer sig hop maxHops,
    e.input = .command (.sendWire toPeer (.encryptedDirect dest key payload sig hop maxHops))

omit [Prims] [DecidableEq ι] in
theorem Underway.append {dest key : String} {payload : Bytes} (h : Underway events dest key payload)
    (e : NetEvent ι) : Underway (events ++ [e]) dest key payload := by
  obtain ⟨e', he', hcmd⟩ := h
  exact ⟨e', List.mem_append_left _ he', hcmd⟩

/-- What the nodes have sent: their own keys, and what is underway. -/
structure SentHonestly (host : ι → Host) (events : List (NetEvent ι)) : Prop where
  key : ∀ {j p key name scopes},
    .sendDirect p (.peerInfo key name scopes) ∈ (host j).outputs (inputsOf events j) →
    key = (host j).config.encKeypair.publicHex
  sealed : ∀ {j p dest key payload sig hop maxHops},
    .sendDirect p (.encryptedDirect dest key payload sig hop maxHops)
      ∈ (host j).outputs (inputsOf events j) →
    Underway events dest key payload
  opened : ∀ {j m}, .deliver .encrypted m ∈ (host j).outputs (inputsOf events j) →
    ∃ fromPeer key payload plain, Underway events (host j).peerId key payload
      ∧ decryptWith payload (host j).config.encKeypair = .ok plain
      ∧ (m.envelope.fromPeer, m.envelope.payload) = unwrapInner plain fromPeer
      ∧ m.body = "[encrypted]"

/-- A frame that arrives was sent. -/
theorem Arrives.sent {e : NetEvent ι} (h : Arrives host events e) {fromPeer : String}
    {w : WireMessage} (hinput : e.input = .frame fromPeer w) :
    ∃ j, (host j).peerId = fromPeer
      ∧ .sendDirect (host e.node).peerId w ∈ (host j).outputs (inputsOf events j) := by
  have hreceived : e.input.received = some (fromPeer, w) := by rw [hinput]; rfl
  obtain ⟨j, hj, hcount⟩ := h _ hreceived
  exact ⟨j, hj, List.count_pos_iff.mp (Nat.zero_lt_of_lt hcount)⟩

/-- **Nothing is made up on the way.** Induction on the run; a frame that is relayed had arrived,
and so had been sent before. -/
theorem sentHonestly (hrun : HonestRun host events) : SentHonestly host events := by
  induction hrun with
  | nil =>
    have hquiet : ∀ {j o}, o ∈ (host j).outputs (inputsOf [] j) → o.isSignal = false := by
      intro j o ho
      let _ := (host j).world
      let _ := (host j).codec
      exact signal_startup (c := (host j).config) ho
    refine ⟨fun h => ?_, fun h => ?_, fun h => ?_⟩
    · cases hquiet h
    · cases hquiet h
    · cases hquiet h
  | @append events e _ harrives hissued ih =>
    -- what the event adds
    have hnew : ∀ {j o}, o ∈ (host j).outputs (inputsOf (events ++ [e]) j) → o.isSignal = true →
        o ∈ (host j).outputs (inputsOf events j)
        ∨ e.node = j ∧ ∃ s, (s.localPeerId = (host j).peerId
            ∧ s.encKeypair = (host j).config.encKeypair) ∧ Signals s e.input o := by
      intro j o ho hsignal
      rcases outputs_event ho with hold | ⟨hj, s, hs, hout⟩
      · exact .inl hold
      · let _ := (host j).world
        let _ := (host j).codec
        obtain ⟨hlocal, henc⟩ := identity_run hs
        exact .inr ⟨hj, { s with transport := e.view }, ⟨hlocal, henc⟩, signal_outputs hout hsignal⟩
    refine ⟨fun {j p key name scopes} h => ?_, fun {j p dest key payload sig hop maxHops} h => ?_,
      fun {j m} h => ?_⟩
    · rcases hnew h rfl with hold | ⟨hj, s, ⟨-, hkey⟩, hsignals⟩
      · exact ih.key hold
      generalize hinput : e.input = input at hsignals
      cases hsignals with
      | announced peer name scopes => rw [hkey]
      | commandedKey toPeer key name scopes =>
        -- an app asks for sealed frames only
        obtain ⟨_, _, _, _, -, -, _, _, _, _, -, -, hw⟩ := hissued _ _ hinput
        cases hw
    · rcases hnew h rfl with hold | ⟨hj, s, -, hsignals⟩
      · exact (ih.sealed hold).append e
      generalize hinput : e.input = input at hsignals
      cases hsignals with
      | commanded toPeer dest key payload sig sig' hop maxHops =>
        exact ⟨e, List.mem_append_right _ (List.mem_singleton.mpr rfl), p, sig, hop, maxHops, hinput⟩
      | relayed fromPeer toPeer dest key payload sig sig' hop maxHops =>
        obtain ⟨_, -, hsent⟩ := harrives.sent hinput
        exact (ih.sealed hsent).append e
    · rcases hnew h rfl with hold | ⟨hj, s, ⟨hlocal, hkey⟩, hsignals⟩
      · obtain ⟨fromPeer, key, payload, plain, hunderway, hopened⟩ := ih.opened hold
        exact ⟨fromPeer, key, payload, plain, hunderway.append e, hopened⟩
      generalize hinput : e.input = input at hsignals
      cases hsignals with
      | opened fromPeer key payload sig hop maxHops plain m hplain hbody hinner =>
        obtain ⟨_, -, hsent⟩ := harrives.sent hinput
        rw [hlocal] at hsent
        exact ⟨fromPeer, key, payload, plain, (ih.sealed hsent).append e, hkey ▸ hplain, hinner,
          hbody⟩

/-- Who put it on its way sealed it. Induction on the run. -/
theorem Underway.seals (hrun : HonestRun host events) {dest key : String} {payload : Bytes}
    (h : Underway events dest key payload) :
    ∃ e ∈ events, ∃ toPeer w before s app, e.input = .command (.sendWire toPeer w)
      ∧ (∃ sig hop maxHops, w = .encryptedDirect dest key payload sig hop maxHops)
      ∧ before <+: events ∧ (host e.node).run (inputsOf before e.node) = .ok () s
      ∧ Seals (host e.node) s.peerX25519 dest app w := by
  induction hrun with
  | nil =>
    obtain ⟨_, he, -⟩ := h
    cases he
  | @append events e _ _ hissued ih =>
    obtain ⟨e', he', toPeer, sig, hop, maxHops, hcmd⟩ := h
    rcases List.mem_append.mp he' with hold | hlast
    · obtain ⟨e', he', toPeer, w, before, s, app, hinput, hw, hbefore, hs, hseals⟩ :=
        ih ⟨e', hold, toPeer, sig, hop, maxHops, hcmd⟩
      exact ⟨e', List.mem_append_left _ he', toPeer, w, before, s, app, hinput, hw,
        hbefore.trans (List.prefix_append _ _), hs, hseals⟩
    · obtain rfl := List.mem_singleton.mp hlast
      obtain ⟨before, s, dest', app, hbefore, hs, hseals⟩ := hissued _ _ hcmd
      -- what is sealed names the one it is for
      have hdest : dest' = dest := by
        obtain ⟨_, _, _, _, -, -, hw⟩ := hseals
        cases hw
        rfl
      exact ⟨e', he', toPeer, _, before, s, app, hcmd, ⟨sig, hop, maxHops, rfl⟩,
        hbefore.trans (List.prefix_append _ _), hs, hdest ▸ hseals⟩

/-! ## The tables -/

/-- What the tables have is right. -/
def KeysRight (host : ι → Host) (events : List (NetEvent ι)) : Prop :=
  ∀ i s, (host i).run (inputsOf events i) = .ok () s → ∀ p pk, s.peerX25519.lookup p = some pk →
    ∃ j, (host j).peerId = p ∧ pk = (host j).config.encKeypair.public

/-- The host `k` made the payload of `app`, for host `i` and under its key. -/
def MadeBy (host : ι → Host) (k i : ι) (app : Bytes) (key : String) (payload : Bytes) : Prop :=
  key = (host k).config.encKeypair.publicHex
  ∧ ∃ wrapped ephemeral nonce, wrapInner (host k).peerId app = some wrapped
    ∧ payload = encryptFor ephemeral nonce wrapped (host i).config.encKeypair.public

/-- If the tables were right at all times, what is underway to a host was made for it. -/
theorem Underway.madeBy (hinj : Function.Injective fun i => (host i).peerId)
    (hrun : HonestRun host events) (hkeys : ∀ before, before <+: events → KeysRight host before)
    {key : String} {payload : Bytes} (h : Underway events (host i).peerId key payload) :
    ∃ e ∈ events, ∃ toPeer app w, e.input = .command (.sendWire toPeer w)
      ∧ (∃ sig hop maxHops, w = .encryptedDirect (host i).peerId key payload sig hop maxHops)
      ∧ MadeBy host e.node i app key payload := by
  obtain ⟨e, he, toPeer, w, before, s, app, hinput, ⟨sig, hop, maxHops, hw⟩, hbefore, hs, pk,
    wrapped, ephemeral, nonce, hlookup, hwrapped, hw'⟩ := h.seals hrun
  obtain ⟨j, hj, rfl⟩ := hkeys before hbefore e.node s hs _ _ hlookup
  obtain rfl : j = i := hinj hj
  obtain ⟨-, hkey, hpayload, -⟩ := WireMessage.encryptedDirect.inj (hw.symm.trans hw')
  exact ⟨e, he, toPeer, app, w, hinput, ⟨sig, hop, maxHops, hw⟩, hkey, wrapped, ephemeral, nonce,
    hwrapped, hpayload⟩

omit [DecidableEq ι] in
/-- What was made by a host is opened under its name. -/
theorem MadeBy.unwrap (hlaws : SealLaws) {k : ι} (hname : (host k).peerId ≠ "")
    {app payload : Bytes} {key : String} (h : MadeBy host k i app key payload) {plain : Bytes}
    (hplain : decryptWith payload (host i).config.encKeypair = .ok plain) (relay : String) :
    unwrapInner plain relay = ((host k).peerId, app) := by
  obtain ⟨-, wrapped, ephemeral, nonce, hwrapped, rfl⟩ := h
  exact unwrap_encryptFor hlaws hname hwrapped ephemeral nonce _ hplain relay

omit [DecidableEq ι] in
/-- A payload was made in one way only. -/
theorem MadeBy.unique (hlaws : SealLaws) {k k' : ι} (hname : (host k).peerId ≠ "")
    (hname' : (host k').peerId ≠ "") {app app' payload : Bytes} {key key' : String}
    (h : MadeBy host k i app key payload) (h' : MadeBy host k' i app' key' payload) :
    app = app' := by
  obtain ⟨plain, hplain⟩ : ∃ plain, decryptWith payload (host i).config.encKeypair = .ok plain := by
    obtain ⟨-, wrapped, ephemeral, nonce, -, rfl⟩ := h
    exact ⟨wrapped, decryptWith_encryptFor hlaws ephemeral nonce wrapped _⟩
  have heq := (h.unwrap hlaws hname hplain "").symm.trans (h'.unwrap hlaws hname' hplain "")
  exact (Prod.mk.inj heq).2

variable (hlaws : SealLaws) (hinj : Function.Injective fun i => (host i).peerId)
  (hnames : ∀ i, (host i).peerId ≠ "")

include hlaws hinj hnames

/-- **The tables are right at all times.** Induction on the run: a frame that sets a key was sent,
or put on its way, when the tables were right. -/
theorem keysRight (hrun : HonestRun host events) :
    ∀ before, before <+: events → KeysRight host before := by
  -- induction on the network's run; at its start no node has learned a key
  induction hrun with
  | nil =>
    intro before hbefore i s hs p pk hp
    obtain rfl := List.prefix_nil.mp hbefore
    let _ := (host i).world
    let _ := (host i).codec
    obtain ⟨_, _, _, ⟨pre, _, _, _, hsplit, -⟩, -⟩ := key_origin (c := (host i).config) hs hp
    have hnil : ([] : List (TransportView × Input)) = pre ++ (_, _) :: _ := hsplit
    simp at hnil
  | @append events e hrun harrives hissued ih =>
    intro before hbefore
    rcases List.prefix_concat_iff.mp hbefore with rfl | hold
    · intro i s hs p pk hp
      rcases run_event hs with hsame | ⟨hi, s₀, hs₀, hstep⟩
      · exact ih events (List.prefix_refl _) i s hsame p pk hp
      let _ := (host i).world
      let _ := (host i).codec
      obtain ⟨hlocal, henc⟩ := identity_run hs₀
      have hlookup : (finalState (handleInput e.input
          { s₀ with transport := e.view })).peerX25519.lookup p = some pk := by
        rw [hstep]
        exact hp
      -- the key was there before the event, or the event's frame brought it
      rcases peerX25519_input hlookup with hkept | ⟨fromPeer, w, hinput, -, -, hset⟩
      · exact ih events (List.prefix_refl _) i s₀ hs₀ p pk hkept
      obtain ⟨j, hj, hsent⟩ := harrives.sent hinput
      have hparse : ∀ {key} {k : ι}, key = (host k).config.encKeypair.publicHex →
          parseX25519PublicHex key = some pk → pk = (host k).config.encKeypair.public := by
        rintro key k rfl hpk
        unfold EncryptionKeypair.publicHex at hpk
        rw [parseX25519PublicHex_hexEncode, Option.some.injEq] at hpk
        exact hpk.symm
      -- an announced key is its sender's, and a sealed post carries the key of whoever made it
      cases w with
      | peerInfo key name scopes =>
        obtain ⟨hpk, rfl⟩ := hset
        exact ⟨j, hj, hparse ((sentHonestly hrun).key hsent) hpk⟩
      | encryptedDirect dest key payload sig hop maxHops =>
        obtain ⟨hpk, hdest, plain, hplain, rfl⟩ := hset
        have hdest' : dest = (host i).peerId := hdest.trans hlocal
        have hplain' : decryptWith payload (host i).config.encKeypair = .ok plain := henc ▸ hplain
        obtain ⟨e', -, _, app, _, -, -, hmade⟩ :=
          (hdest' ▸ (sentHonestly hrun).sealed hsent).madeBy hinj hrun ih
        rw [hmade.unwrap hlaws (hnames _) hplain']
        exact ⟨e'.node, rfl, hparse hmade.1 hpk⟩
      | _ => exact hset.elim
    · exact ih before hold

/-- What a node opens was made for it. -/
theorem opened_madeBy (hrun : HonestRun host events) {m : DirectMessage}
    (hm : .deliver .encrypted m ∈ (host i).outputs (inputsOf events i)) :
    ∃ e ∈ events, ∃ toPeer key payload sig hop maxHops,
      e.input = .command (.sendWire toPeer
        (.encryptedDirect (host i).peerId key payload sig hop maxHops))
      ∧ MadeBy host e.node i m.envelope.payload key payload
      ∧ m.envelope.fromPeer = (host e.node).peerId ∧ m.body = "[encrypted]" := by
  obtain ⟨fromPeer, key, payload, plain, hunderway, hplain, hinner, hbody⟩ :=
    (sentHonestly hrun).opened hm
  have hkeys := keysRight hlaws hinj hnames hrun
  obtain ⟨e, he, toPeer, app, _, hinput, ⟨sig, hop, maxHops, rfl⟩, hmade⟩ :=
    hunderway.madeBy hinj hrun hkeys
  obtain ⟨hfrom, rfl⟩ := Prod.mk.inj (hinner.trans (hmade.unwrap hlaws (hnames _) hplain fromPeer))
  exact ⟨e, he, toPeer, key, payload, sig, hop, maxHops, hinput, hmade, hfrom, hbody⟩

/-- **Keys among honest nodes.** In every run of a network in which everybody is honest, in any
order of events and with any relays in between: what a node has stored as the key of a peer is the
key of that peer. And what a node opens and hands to its app was sealed for it, by the app of the
node it is said to come from, and is what that app sealed. -/
theorem honest_keys (hrun : HonestRun host events) :
    (∀ i s, (host i).run (inputsOf events i) = .ok () s → ∀ p pk,
      s.peerX25519.lookup p = some pk →
      ∃ j, (host j).peerId = p ∧ pk = (host j).config.encKeypair.public)
    ∧ ∀ i m, .deliver .encrypted m ∈ (host i).outputs (inputsOf events i) →
      ∃ e ∈ events, ∃ toPeer key payload sig hop maxHops,
        e.input = .command (.sendWire toPeer
          (.encryptedDirect (host i).peerId key payload sig hop maxHops))
        ∧ MadeBy host e.node i m.envelope.payload key payload
        ∧ m.envelope.fromPeer = (host e.node).peerId ∧ m.body = "[encrypted]" :=
  ⟨keysRight hlaws hinj hnames hrun events (List.prefix_refl _),
    fun _ _ hm => opened_madeBy hlaws hinj hnames hrun hm⟩

end

section

attribute [local instance] symbolicPrims

/-- Peer 1, and peer 2. -/
def pair (i : Bool) : Host where
  world := stillWorld 5000000
  codec := noCodec
  config := symbolicConfig (if i then 1 else 2) 3

def pairEvent (i : Bool) (input : Input) : NetEvent Bool where
  node := i
  view := { knownPeers := [(pair !i).peerId] }
  input := input

/-- The text `hi` with its author, and the frame in which it is sealed for peer 2. -/
def wrappedHi : Bytes := (wrapInner (symbolicPeer 1) (asBytes "hi")).getD []

def sealedHi : WireMessage :=
  .encryptedDirect (symbolicPeer 2) (pair true).config.encKeypair.publicHex
    (encryptFor (Vector.replicate 32 9) (Vector.replicate 12 0) wrappedHi (Vector.replicate 32 2))
    none 0 8

def pairUp : NetEvent Bool := pairEvent false (.transportEvent (.peerUp (symbolicPeer 1)))

/-- Peer 2 announces its key to peer 1. -/
def pairAnnounced : NetEvent Bool :=
  pairEvent true (.frame (symbolicPeer 2) (.peerInfo (pair false).config.encKeypair.publicHex none
    (systemScopes ++ ["mycelium/group/*"])))

def pairMeets : List (NetEvent Bool) := [pairUp, pairAnnounced]

theorem pairAnnounced_arrives : Arrives pair [pairUp] pairAnnounced := by decide +kernel

theorem pairMeets_run : (pair true).run (inputsOf pairMeets true)
    = .ok () (finalState ((pair true).run (inputsOf pairMeets true))) :=
  eq_ok_of_succeeded (by decide +kernel)

/-- The app of peer 1 sends it the text. -/
def pairRun : List (NetEvent Bool) :=
  pairMeets ++ [pairEvent true (.command (.sendWire (symbolicPeer 2) sealedHi))]
    ++ [pairEvent false (.frame (symbolicPeer 1) (signEncryptedDirect sealedHi (symbolicKey 1)).2)]

theorem pairRun_honest : HonestRun pair pairRun := by
  have hmeets : HonestRun pair pairMeets := by
    refine .append (.append .nil (e := pairUp) (by decide +kernel) ?_) pairAnnounced_arrives ?_
    · rintro toPeer w ⟨⟩
    · rintro toPeer w ⟨⟩
  refine .append (.append hmeets (by decide +kernel) ?_) (by decide +kernel) ?_
  · rintro toPeer w ⟨⟩
    exact ⟨pairMeets, _, symbolicPeer 2, asBytes "hi", List.prefix_refl _, pairMeets_run,
      Vector.replicate 32 2, wrappedHi, _, _, by decide +kernel, by decide +kernel, rfl⟩
  · rintro toPeer w ⟨⟩

/-- One payload is opened, and it is attributed to a node that sealed it. -/
theorem honest_keys_pair :
    ((pair false).outputs (inputsOf pairRun false)).countP Output.isSignal = 2
    ∧ ∀ m, .deliver .encrypted m ∈ (pair false).outputs (inputsOf pairRun false) →
      ∃ e ∈ pairRun, m.envelope.fromPeer = (pair e.node).peerId := by
  refine ⟨by decide +kernel, fun m hm => ?_⟩
  obtain ⟨e, he, _, _, _, _, _, _, -, -, hfrom, -⟩ :=
    (honest_keys symbolicPrims_sealLaws (by decide +kernel) (by decide +kernel) pairRun_honest).2
      false m hm
  exact ⟨e, he, hfrom⟩

end

end Mycelium.Node
