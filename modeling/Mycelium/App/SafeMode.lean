import Mycelium.App.Bridge
import Mycelium.Node.Symbolic

/-!
# Mycelium app — safe mode

A host in safe mode serves six methods and refuses the others. Five of them only answer;
`bulletin.get` also subscribes to the scope it reads, and the node takes that command like any
other.

* `Device.call` — a call through a host, and the node that then takes the commands it sent;
* `body_safe` — what the body of an allowed method can leave;
* `safe_mode_read_only_iff` — a call in safe mode changes nothing exactly if it is not a
  `bulletin.get` that is served for a scope the node does not have yet.
-/

namespace Mycelium.App

open Node (NodeRunner NodeCommand TransportView)

/-! ## A call and its commands -/

/-- What the hosts share, and the node behind it. -/
structure Device where
  bridge : BridgeState
  node : NodeRunner

section

variable [Prims] [Node.World] [Node.WireCodec]

/-- The node takes commands in their order; what it reads of the transport is `view`. -/
def takeCommands (view : TransportView) (commands : List NodeCommand) (s : NodeRunner) : NodeRunner :=
  commands.foldl (fun s cmd => finalState (Node.step view (.command cmd) s)) s

/-- `BridgeHost::handle`, and the node taking the commands it sent. -/
def Device.call [AppEncoder] [HostCalls] [CapPrims] (host : BridgeHost) (env : CallEnv)
    (method : String) (args : Json) (view : TransportView) (d : Device) : Device :=
  let bridge := (host.handle env method args d.bridge).2
  { bridge
    node := takeCommands view (bridge.commands.drop d.bridge.commands.length) d.node }

end

/-- Something for another node. -/
def isFrame : Node.Output → Bool
  | .sendDirect .. => true
  | .enqueued .. => true
  | .publish .. => true
  | _ => false

/-- The frames of a node so far. -/
def sentFrames (s : NodeRunner) : List Node.Output := s.out.filter isFrame

/-- Nothing changed but the rate counter and the scores, and what the node was asked. -/
structure ReadOnly (d d' : Device) : Prop where
  app : d'.bridge.app = d.bridge.app
  store : d'.bridge.store = { d.bridge.store with reputations := d'.bridge.store.reputations }
  ledger : d'.bridge.coin = d.bridge.coin
  sessions : d'.bridge.sessions = d.bridge.sessions
  broadcastLimits : d'.bridge.broadcastLimits = d.bridge.broadcastLimits
  subscribedScopes : d'.node.subscribedScopes = d.node.subscribedScopes
  bulletinSubscriptions : d'.node.bulletinSubscriptions = d.node.bulletinSubscriptions
  frames : sentFrames d'.node = sentFrames d.node

/-- The call is a `bulletin.get` that is served, for a scope the node does not have yet. -/
structure Subscribes (host : BridgeHost) (env : CallEnv) (method : String) (args : Json)
    (d : Device) : Prop where
  method : method = "bulletin.get"
  admitted : ∃ tok, args.strField "_session" = some tok
    ∧ validateSession d.bridge.sessions host.appId tok env.sessionMs = .ok ()
    ∧ (checkBridgeRate d.bridge.bridgeLimits host.appId env.rateMs).1 = .ok ()
  permitted : Permission.bulletinRead ∈ host.permissions
  scope : ∃ scope, args.strField "scope" = some scope
    ∧ host.requireBulletinScope d.bridge.store scope = .ok () ∧ trim scope ≠ ""
    ∧ ¬ (trim scope ∈ d.node.bulletinSubscriptions ∧ trim scope ∈ d.node.subscribedScopes)

/-! ## The bodies -/

/-- Nothing is left changed, unless this is a `bulletin.get` with all it needs. -/
def SafeLeft (host : BridgeHost) (method : String) (args : Json) (st : BridgeState)
    (left : Served) : Prop :=
  left = st.untouched
  ∨ method = "bulletin.get" ∧ Permission.bulletinRead ∈ host.permissions
    ∧ ∃ scope, args.strField "scope" = some scope
      ∧ host.requireBulletinScope st.store scope = .ok ()
      ∧ left = ⟨st.app, st.broadcastLimits, [.subscribeBulletinScope scope]⟩

section

variable [Prims] [AppEncoder] [HostCalls]

/-- **What an allowed method leaves.** -/
theorem body_safe (host : BridgeHost) (env : CallEnv) {method : String} (args : Json)
    (st : BridgeState) (hallowed : methodAllowedInSafeMode method = true) :
    SafeLeft host method args st (host.body env method args st).2 := by
  have hsix : method = "storage.get" ∨ method = "storage.list" ∨ method = "bulletin.get"
      ∨ method = "util.now" ∨ method = "app.get_id" ∨ method = "app.get_version" := by
    simpa [methodAllowedInSafeMode] using hallowed
  let P := fun r : Except String Json × Served => SafeLeft host method args st r.2
  have hfail : ∀ e : String, P (.error e, st.untouched) := fun _ => .inl rfl
  show P (host.body env method args st)
  rcases hsix with rfl | rfl | rfl | rfl | rfl | rfl
  · refine BridgeState.check_rule (fun e _ => hfail e) fun _ _ => ?_
    refine BridgeState.check_rule (fun e _ => hfail e) fun key _ => ?_
    exact BridgeState.check_rule (fun e _ => hfail e) fun _ _ => .inl rfl
  · exact BridgeState.check_rule (fun e _ => hfail e) fun _ _ => .inl rfl
  · refine BridgeState.check_rule (fun e _ => hfail e) fun _ hperm => ?_
    refine BridgeState.check_rule (fun e _ => hfail e) fun scope hscope => ?_
    refine BridgeState.check_rule (fun e _ => hfail e) fun _ hallows => .inr ?_
    exact ⟨rfl, requirePermission_ok hperm, scope, Json.strArg_ok hscope, hallows, rfl⟩
  · exact .inl rfl
  · exact .inl rfl
  · exact .inl rfl

/-- With all it needs, it does subscribe. -/
theorem body_bulletinGet {host : BridgeHost} (env : CallEnv) {args : Json} (st : BridgeState)
    {scope : String} (hperm : Permission.bulletinRead ∈ host.permissions)
    (hscope : args.strField "scope" = some scope)
    (hallows : host.requireBulletinScope st.store scope = .ok ()) :
    (host.body env "bulletin.get" args st).2
      = ⟨st.app, st.broadcastLimits, [.subscribeBulletinScope scope]⟩ := by
  have hrequire : host.requirePermission .bulletinRead = .ok () := if_pos hperm
  have harg : args.strArg "scope" = .ok scope := by
    unfold Json.strArg
    rw [hscope]
  show (host.bulletinGet env args st).2 = _
  unfold BridgeHost.bulletinGet
  rw [hrequire, harg]
  show (st.check (host.requireBulletinScope st.store scope) _).2 = _
  rw [hallows]
  rfl

end

/-! ## The node -/

theorem sentFrames_append {s s' : NodeRunner} {out : List Node.Output}
    (hframes : ∀ o ∈ out, isFrame o = false) (hout : s'.out = s.out ++ out) :
    sentFrames s' = sentFrames s := by
  have hnone : out.filter isFrame = [] :=
    List.filter_eq_nil_iff.mpr fun o ho => by simp [hframes o ho]
  unfold sentFrames
  rw [hout, List.filter_append, hnone, List.append_nil]

theorem setInsert_eq_self_iff {set : List String} {x : String} :
    Node.setInsert set x = set ↔ x ∈ set := by
  unfold Node.setInsert
  split
  · next hmem => exact ⟨fun _ => hmem, fun _ => rfl⟩
  · next hmem =>
    refine ⟨fun h => ?_, fun h => absurd h hmem⟩
    have hlen := congrArg List.length h
    simp at hlen

/-- The transport is asked for a topic; no frame is sent. -/
theorem subscribeTopic_eq (scope : String) (s : NodeRunner) :
    ∃ out, (∀ o ∈ out, isFrame o = false)
      ∧ Node.subscribeTopic scope s = .ok () { s with out := s.out ++ out } := by
  unfold Node.subscribeTopic
  by_cases hstar : scope.toList.contains '*' = true
  · refine ⟨[], by simp, ?_⟩
    rw [if_pos hstar, List.append_nil]
    rfl
  · refine ⟨[.subscribe scope], by simp [isFrame], ?_⟩
    rw [if_neg hstar]
    rfl

/-- A scope that is blank is ignored; another one is put in both sets. -/
theorem handleSubscribeBulletin_eq (scope : String) (s : NodeRunner) :
    ∃ out, (∀ o ∈ out, isFrame o = false)
      ∧ Node.handleSubscribeBulletin scope s = .ok () (if trim scope = "" then s else
        { s with
          bulletinSubscriptions := Node.setInsert s.bulletinSubscriptions (trim scope)
          subscribedScopes := Node.setInsert s.subscribedScopes (trim scope)
          out := s.out ++ out }) := by
  unfold Node.handleSubscribeBulletin
  generalize trim scope = scope
  by_cases hblank : scope = ""
  · refine ⟨[], by simp, ?_⟩
    rw [if_pos hblank, if_pos hblank]
    rfl
  · obtain ⟨out, hframes, heq⟩ := subscribeTopic_eq scope
      { s with
        bulletinSubscriptions := Node.setInsert s.bulletinSubscriptions scope
        subscribedScopes := Node.setInsert s.subscribedScopes scope }
    refine ⟨out, hframes, ?_⟩
    rw [if_neg hblank, if_neg hblank]
    exact heq

section

variable [Prims] [Node.World] [Node.WireCodec]

theorem takeCommands_singleton (view : TransportView) (cmd : NodeCommand) (s : NodeRunner) :
    takeCommands view [cmd] s
      = finalState (Node.handleCommand cmd { s with transport := view }) := rfl

/-- The sets stay as they are exactly if the scope is blank or in both of them. -/
theorem subscribe_keeps_iff (view : TransportView) (scope : String) (s : NodeRunner) :
    let s' := takeCommands view [.subscribeBulletinScope scope] s
    sentFrames s' = sentFrames s
    ∧ (s'.subscribedScopes = s.subscribedScopes ∧ s'.bulletinSubscriptions = s.bulletinSubscriptions
      ↔ ¬ (trim scope ≠ "" ∧ ¬ (trim scope ∈ s.bulletinSubscriptions
        ∧ trim scope ∈ s.subscribedScopes))) := by
  obtain ⟨out, hframes, heq⟩ := handleSubscribeBulletin_eq scope { s with transport := view }
  have hcommand : Node.handleCommand (.subscribeBulletinScope scope)
      = Node.handleSubscribeBulletin scope := rfl
  have htaken := takeCommands_singleton view (.subscribeBulletinScope scope) s
  rw [hcommand, heq] at htaken
  simp only [htaken, finalState]
  split
  · next hblank => exact ⟨rfl, fun _ h => h.1 hblank, fun _ => ⟨rfl, rfl⟩⟩
  · next hscope =>
    refine ⟨sentFrames_append hframes rfl, ?_⟩
    rw [setInsert_eq_self_iff, setInsert_eq_self_iff, not_and, not_not]
    exact ⟨fun h _ => h.symm, fun h => (h hscope).symm⟩

end

/-! ## A call in safe mode -/

/-- A `bulletin.get` with its session passes the gate. -/
theorem Subscribes.gate [CapPrims] {host : BridgeHost} {env : CallEnv} {method : String} {args : Json}
    {d : Device} (h : Subscribes host env method args d) :
    (host.gate env method args d.bridge).1 = .ok () := by
  obtain ⟨rfl, ⟨tok, htok, hsession, hrate⟩, -, -⟩ := h
  refine gate_of_ok htok hsession hrate ?_ rfl
  exact if_neg (by simp [methodAllowedInSafeMode])

section

variable [Prims] [AppEncoder] [HostCalls] [CapPrims] [Node.World] [Node.WireCodec]

/-- A call that sends no command and leaves the app and the counters. -/
theorem readOnly_of_untouched {host : BridgeHost} {env : CallEnv} {method : String} {args : Json}
    {view : TransportView} {d : Device} {limits : CallCounts}
    {reputations : KvTree.Of String AppReputation}
    (h : (host.handle env method args d.bridge).2
      = { d.bridge with bridgeLimits := limits, store := { d.bridge.store with reputations } }) :
    ReadOnly d (d.call host env method args view) := by
  have hnode : (d.call host env method args view).node = d.node := by
    show takeCommands view ((host.handle env method args d.bridge).2.commands.drop _) d.node = _
    rw [h, List.drop_length]
    rfl
  have hbridge : (d.call host env method args view).bridge = _ := h
  constructor <;> first | rw [hbridge] | rw [hnode]

/-- A subscription that was sent, and what the node makes of it. -/
theorem readOnly_iff_of_subscribe {host : BridgeHost} {env : CallEnv} {method : String} {args : Json}
    {view : TransportView} {d : Device} {limits : CallCounts} {scope : String}
    (h : (host.handle env method args d.bridge).2
      = { d.bridge with
          bridgeLimits := limits
          commands := d.bridge.commands ++ [.subscribeBulletinScope scope] }) :
    ReadOnly d (d.call host env method args view)
      ↔ ¬ (trim scope ≠ "" ∧ ¬ (trim scope ∈ d.node.bulletinSubscriptions
        ∧ trim scope ∈ d.node.subscribedScopes)) := by
  have hnode : (d.call host env method args view).node
      = takeCommands view [.subscribeBulletinScope scope] d.node := by
    show takeCommands view ((host.handle env method args d.bridge).2.commands.drop _) d.node = _
    rw [h, List.drop_left]
  have hbridge : (d.call host env method args view).bridge = _ := h
  obtain ⟨hframes, hsets⟩ := subscribe_keeps_iff view scope d.node
  rw [← hsets, ← hnode]
  rw [← hnode] at hframes
  constructor
  · exact fun hro => ⟨hro.subscribedScopes, hro.bulletinSubscriptions⟩
  · intro hsame
    refine ⟨?_, ?_, ?_, ?_, ?_, hsame.1, hsame.2, hframes⟩ <;> rw [hbridge]

/-- **Safe mode.** A call through a host in safe mode leaves everything but the rate counter and
the scores, exactly if it is not a `bulletin.get` that is served for a new scope. -/
theorem safe_mode_read_only_iff {host : BridgeHost} (hsafe : host.safeMode = true) (env : CallEnv)
    (method : String) (args : Json) (view : TransportView) (d : Device) :
    ReadOnly d (d.call host env method args view) ↔ ¬ Subscribes host env method args d := by
  obtain ⟨limits, reputations, hleaves⟩ := gate_leaves host env method args d.bridge
  rcases hgate : host.gate env method args d.bridge with ⟨r, st⟩
  cases r with
  | error e =>
    rw [hgate] at hleaves
    have hhandle : (host.handle env method args d.bridge).2 = _ :=
      (congrArg Prod.snd (handle_refused hgate)).trans hleaves
    refine iff_of_true (readOnly_of_untouched hhandle) fun hsub => ?_
    have hok := hsub.gate
    rw [hgate] at hok
    cases hok
  | ok u =>
    obtain ⟨⟨tok, htok, hsession⟩, hrate, hblocked, -, hst⟩ := gate_ok hgate
    -- the gate has let the method through, so it is one of those for safe mode
    have hallowed : methodAllowedInSafeMode method = true := by
      unfold BridgeHost.requireNotBlockedBySafeMode at hblocked
      rw [hsafe] at hblocked
      by_contra hnot
      rw [if_pos (by simpa using hnot)] at hblocked
      cases hblocked
    rcases body_safe host env args st hallowed with hbody | ⟨rfl, hperm, scope, hscope, hallows, hbody⟩
    · have hhandle := handle_served hgate hbody
      rw [BridgeState.untouched, List.append_nil, hst] at hhandle
      refine iff_of_true (readOnly_of_untouched hhandle) fun hsub => ?_
      obtain ⟨rfl, -, hperm, scope, hscope, hallows, -⟩ := hsub
      have hserved := body_bulletinGet env st hperm hscope (hst ▸ hallows)
      rw [hbody] at hserved
      exact absurd (congrArg Served.commands hserved) (List.cons_ne_nil _ _).symm
    · have hhandle := handle_served hgate hbody
      rw [hst] at hhandle
      rw [readOnly_iff_of_subscribe hhandle]
      -- of these, subscribing is the only one that leaves a command
      refine not_congr ⟨fun hnew => ?_, fun hsub => ?_⟩
      · rw [hst] at hallows
        exact ⟨rfl, ⟨tok, htok, hsession, hrate⟩, hperm, scope, hscope, hallows, hnew⟩
      · obtain ⟨-, -, -, scope', hscope', -, hnew⟩ := hsub
        obtain rfl : scope = scope' := Option.some.inj (hscope.symm.trans hscope')
        exact hnew

end

/-! ## A scope that is read -/

section

attribute [local instance] symbolicPrims chatEncoder symbolicCaps idleCalls Node.noCodec

@[reducible] def safeWorld : Node.World := Node.stillWorld 5000000

attribute [local instance] safeWorld

/-- A host in safe mode, with nothing but the permission to read bulletins. -/
def safeHost : BridgeHost :=
  { appId := "com.app", permissions := [.bulletinRead], localPeerId := "", encPubkeyHex := ""
    safeMode := true, capMacKey := Vector.replicate 32 0 }

/-- Its app is installed and has a session. -/
def safeDevice : Device :=
  { bridge :=
      { sessions := AList.insert "com.app" ⟨"s", 0⟩ ∅
        app := blankApp ∅
        store := { installed := AList.insert "com.app" (plainManifest "com.app") ∅ } }
    node := Node.symbolicNode 1 2 5000000 }

def scopeArgs (scope : String) : Json := .obj [("_session", .str "s"), ("scope", .str scope)]

/-- A list of the stored keys is served, and changes nothing. -/
theorem safe_mode_read_only_list :
    ({ safeHost with permissions := [.storage] }.handle idleEnv "storage.list" (scopeArgs "town")
        safeDevice.bridge).1.isOk = true
    ∧ ReadOnly safeDevice (safeDevice.call { safeHost with permissions := [.storage] } idleEnv
        "storage.list" (scopeArgs "town") safeDevice.node.transport) := by
  refine ⟨by decide +kernel, ?_⟩
  exact (safe_mode_read_only_iff rfl idleEnv "storage.list" (scopeArgs "town")
    safeDevice.node.transport safeDevice).mpr fun h => absurd h.method (by decide)

/-- Reading the scope `town` subscribes the node to it. -/
theorem safe_mode_subscribes :
    safeHost.safeMode = true
    ∧ ¬ ReadOnly safeDevice (safeDevice.call safeHost idleEnv "bulletin.get" (scopeArgs "town")
      safeDevice.node.transport) := by
  refine ⟨rfl, fun h => absurd h.bulletinSubscriptions ?_⟩
  decide +kernel

end

end Mycelium.App
