import Mycelium.App.Bundle
import Mycelium.App.Capability
import Mycelium.App.MiniappStorage
import Mycelium.App.Send
import Mycelium.Coin.Node

/-!
# Mycelium app — the bridge of the mini-apps

Translation of `BridgeHost::handle` (`mycelium-app/src/miniapp/bridge_host.rs`) with its session
table (`bridge_session.rs`), its rate limits (`bridge_limits.rs`) and safe mode (`safe_mode.rs`).
A call first passes the gate (session, rate, safe mode, capability) and then runs the body of its
method.

* `BridgeHost.gate` — what a call must show; it touches the rate counter, and the score of an app
  that calls too often;
* `BridgeHost.body` — one program per method. What a body can change is in the type: the app, the
  broadcast counter, and the commands it sends to the node (`Served`);
* `BridgeHost.handle` — the one after the other.

Reads of the clock, the drawn id and nonce and what the node answers are a `CallEnv`, one per
call. The calls of `AppNode` and `PaymentRequest` that are translated nowhere are `HostCalls`.
-/

namespace Mycelium.App

open Node (NodeCommand)

/-! ## Arguments -/

/-- `serde_json::Value`; an object has each key once, a number that is no integer is `float`. -/
inductive Json where
  | null
  | bool (b : Bool)
  | num (n : Int)
  | float (bits : UInt64)
  | str (s : String)
  | arr (items : List Json)
  | obj (fields : List (String × Json))

namespace Json

/-- `Value::get` for a string. -/
def get : Json → String → Option Json
  | .obj fields, key => (fields.find? fun field => field.1 = key).map Prod.snd
  | _, _ => none

/-- `Value::as_str`. -/
def asStr : Json → Option String
  | .str s => some s
  | _ => none

/-- `json_as_u64`: `as_u64`, then `as_i64` of what is not negative. -/
def asU64 : Json → Option UInt64
  | .num n => if 0 ≤ n ∧ n < 2 ^ 64 then some (UInt64.ofNat n.toNat) else none
  | _ => none

/-- `args.get(key).and_then(|v| v.as_str())`. -/
def strField (args : Json) (key : String) : Option String := (args.get key).bind asStr

/-- A string argument a method insists on. -/
def strArg (args : Json) (key : String) : Except String String :=
  match args.strField key with
  | some s => .ok s
  | none => .error ("missing " ++ key)

/-- `json_u64`. -/
def u64Arg (args : Json) (key : String) : Except String UInt64 :=
  match (args.get key).bind asU64 with
  | some n => .ok n
  | none => .error ("missing or invalid " ++ key)

/-- An optional text, as `json!` writes it. -/
def ofOption : Option String → Json
  | some s => .str s
  | none => .null

end Json

/-! ## Sessions and limits -/

/-- `Session`. -/
structure BridgeSession where
  token : String
  issuedAtMs : UInt64
deriving DecidableEq

/-- `SESSION_TTL_MS`. -/
def sessionTtlMs : UInt64 := 3600000

/-- `issue_session`, with the token it draws; a session the app had is replaced. -/
def issueSession (sessions : KvTree.Of String BridgeSession) (appId token : String)
    (now : UInt64) : KvTree.Of String BridgeSession :=
  sessions.insert appId ⟨token, now⟩

/-- `revoke_session`. -/
def revokeSession (sessions : KvTree.Of String BridgeSession) (appId : String) :
    KvTree.Of String BridgeSession :=
  sessions.erase appId

/-- `validate_session`. -/
def validateSession (sessions : KvTree.Of String BridgeSession) (appId token : String)
    (now : UInt64) : Except String Unit :=
  match sessions.lookup appId with
  | none => .error "bridge session expired or not issued"
  | some sess =>
    if sess.token ≠ token then .error "invalid bridge session token"
    else if sessionTtlMs < U64.satSub now sess.issuedAtMs then .error "bridge session expired"
    else .ok ()

/-- The start of a window and the calls in it, per app. -/
abbrev CallCounts := KvTree.Of String (UInt64 × Nat)

/-- One call is counted in the window of the app, which starts anew when it is over. -/
def checkRate (windowMs : UInt64) (most : Nat) (text : String) (counts : CallCounts)
    (appId : String) (now : UInt64) : Except String Unit × CallCounts :=
  let entry := (counts.lookup appId).getD (now, 0)
  let entry := if windowMs < U64.satSub now entry.1 then (now, 0) else entry
  if most ≤ entry.2 then (.error text, counts.insert appId entry)
  else (.ok (), counts.insert appId (entry.1, entry.2 + 1))

/-- `check_bridge_rate`. -/
def checkBridgeRate : CallCounts → String → UInt64 → Except String Unit × CallCounts :=
  checkRate 60000 120 "bridge rate limit exceeded (120/min)"

/-- `check_broadcast_rate`. -/
def checkBroadcastRate : CallCounts → String → UInt64 → Except String Unit × CallCounts :=
  checkRate 3600000 10 "broadcast rate limit exceeded (10/hour)"

/-- `method_allowed_in_safe_mode`. -/
def methodAllowedInSafeMode (method : String) : Bool :=
  ["storage.get", "storage.list", "bulletin.get", "util.now", "app.get_id",
    "app.get_version"].contains method

/-! ## The host -/

/-- `BridgeHost`, without the shared parts it points to. -/
structure BridgeHost where
  appId : String
  permissions : List Permission
  localPeerId : String
  encPubkeyHex : String
  safeMode : Bool
  capMacKey : Bytes32

/-- What the hosts share: the two tables of the process, the app with its storage, the store, the
coin node, and the channel to the node. -/
structure BridgeState where
  sessions : KvTree.Of String BridgeSession := ∅
  bridgeLimits : CallCounts := ∅
  broadcastLimits : CallCounts := ∅
  app : AppNode
  store : AppStore := {}
  coin : Option Coin.CoinNode := none
  /-- The commands sent to the node so far, oldest first. -/
  commands : List NodeCommand := []

/-- What a call reads of the world. -/
structure CallEnv where
  sessionMs : UInt64
  rateMs : UInt64
  anomalyMs : UInt64
  capMs : UInt64
  broadcastMs : UInt64
  nowMs : UInt64
  draws : Draws
  knownPeers : List String

/-- What the body of a method leaves. -/
structure Served where
  app : AppNode
  broadcastLimits : CallCounts
  commands : List NodeCommand := []

/-- Calls of the hosts into code that is not translated. -/
class HostCalls where
  /-- `AppNode::send_chat` to one peer. -/
  sendChatTo : String → String → AppNode → Except String Unit × AppNode × List NodeCommand
  /-- `PaymentRequest::new(..).to_uri()`, `none` if the request is expired at once. -/
  paymentUri : String → UInt64 → Option String → Option String
  /-- The bodies of the `proximity.*` methods past their permissions. -/
  proximity : String → Json → AppNode → Except String Json × AppNode × List NodeCommand

namespace BridgeHost

/-- `require_permission`. -/
def requirePermission (host : BridgeHost) (perm : Permission) : Except String Unit :=
  if perm ∈ host.permissions then .ok () else .error ("permission denied: " ++ permissionName perm)

/-- `require_not_blocked_by_safe_mode`. -/
def requireNotBlockedBySafeMode (host : BridgeHost) (method : String) : Except String Unit :=
  if host.safeMode && !methodAllowedInSafeMode method then
    .error ("blocked in safe mode: " ++ method)
  else .ok ()

/-- `require_capability`. -/
def requireCapability [CapPrims] (host : BridgeHost) (method : String) (args : Json)
    (now : UInt64) : Except String Unit :=
  match permissionForMethod method with
  | none => .ok ()
  | some perm =>
    match host.requirePermission perm with
    | .error e => .error e
    | .ok () =>
      match args.strField "_session" with
      | none => .error "missing bridge session token"
      | some session =>
        match args.strField "_cap" with
        | none => .error ("missing capability token for " ++ method)
        | some cap => validateCapability host.capMacKey host.appId perm session cap now

/-- `require_bulletin_scope`. -/
def requireBulletinScope (host : BridgeHost) (store : AppStore) (scope : String) :
    Except String Unit :=
  match store.getManifest host.appId with
  | none => .error "app not installed"
  | some manifest =>
    if manifest.allowsBulletinScope scope then .ok ()
    else .error ("bulletin scope not allowed: " ++ scope)

/-- The checks of `handle` before a body runs. -/
def gate [CapPrims] (host : BridgeHost) (env : CallEnv) (method : String) (args : Json)
    (st : BridgeState) : Except String Unit × BridgeState :=
  match args.strField "_session" with
  | none => (.error "missing bridge session token", st)
  | some tok =>
    match validateSession st.sessions host.appId tok env.sessionMs with
    | .error e => (.error e, st)
    | .ok () =>
      match checkBridgeRate st.bridgeLimits host.appId env.rateMs with
      -- a refusal for the rate counts as an anomaly of the app, whose score this writes
      | (.error e, bridgeLimits) =>
        (.error e, { st with
          bridgeLimits, store := st.store.recordBridgeAnomaly env.anomalyMs host.appId })
      | (.ok (), bridgeLimits) =>
        (match host.requireNotBlockedBySafeMode method with
          | .error e => .error e
          | .ok () => host.requireCapability method args env.capMs,
          { st with bridgeLimits })

end BridgeHost

/-! ## The bodies -/

/-- Nothing was changed. -/
def BridgeState.untouched (st : BridgeState) : Served := ⟨st.app, st.broadcastLimits, []⟩

/-- The answer of a body that changes nothing. -/
def BridgeState.reply (st : BridgeState) (answer : Json) : Except String Json × Served :=
  (.ok answer, st.untouched)

/-- The `?` of a body: a check that fails ends it, with nothing changed. -/
def BridgeState.check {α : Type} (st : BridgeState) (result : Except String α)
    (body : α → Except String Json × Served) : Except String Json × Served :=
  match result with
  | .error e => (.error e, st.untouched)
  | .ok a => body a

/-- What a call into the app answers and leaves. -/
def BridgeState.served (st : BridgeState) (r : Except String Json × AppNode × List NodeCommand) :
    Except String Json × Served :=
  (r.1, ⟨r.2.1, st.broadcastLimits, r.2.2⟩)

namespace BridgeHost

section

variable [Prims]

def storageGet (host : BridgeHost) (args : Json) (st : BridgeState) : Except String Json × Served :=
  st.check (host.requirePermission .storage) fun _ =>
  st.check (args.strArg "key") fun key =>
  st.check (st.app.storage.miniappGet (scopedKey host.appId key)) fun v =>
  st.reply (.ofOption v)

def storageSet (host : BridgeHost) (env : CallEnv) (args : Json) (st : BridgeState) :
    Except String Json × Served :=
  st.check (host.requirePermission .storage) fun _ =>
  st.check (args.strArg "key") fun key =>
  st.check (args.strArg "value") fun value =>
  st.check (validateKey key) fun _ =>
  st.check (validateValue value) fun _ =>
  st.check (st.app.storage.checkStorageQuota host.appId (scopedKey host.appId key)
    value.utf8ByteSize) fun _ =>
  st.served (.ok (.str "ok"),
    st.app.updateStorage (·.miniappSet env.draws.nonce (scopedKey host.appId key) value), [])

end

def storageDelete (host : BridgeHost) (args : Json) (st : BridgeState) :
    Except String Json × Served :=
  st.check (host.requirePermission .storage) fun _ =>
  st.check (args.strArg "key") fun key =>
  st.served (.ok (.str "ok"),
    st.app.updateStorage (·.miniappDelete (scopedKey host.appId key)), [])

def storageList (host : BridgeHost) (args : Json) (st : BridgeState) :
    Except String Json × Served :=
  st.check (host.requirePermission .storage) fun _ =>
  let keys := st.app.storage.miniappList
    (scopedKey host.appId ((args.strField "prefix").getD ""))
  st.reply (.arr ((keys.filterMap
    fun k => stripPrefix k (AppStorage.appPrefix host.appId)).map .str))

/-- A post as the bridge hands it out. -/
def postJson (p : BulletinPost) : Json :=
  .obj [("id", .str p.id.toText), ("title", .str p.title), ("body", .str p.body),
    ("from_display_name", .str p.fromDisplayName), ("scope", .str p.scope),
    ("timestamp_ms", .num p.timestampMs.toNat), ("expires_at_ms", .num p.expiresAtMs.toNat)]

/-- `bulletin.get`; reading a scope subscribes to it first. -/
def bulletinGet (host : BridgeHost) (env : CallEnv) (args : Json) (st : BridgeState) :
    Except String Json × Served :=
  st.check (host.requirePermission .bulletinRead) fun _ =>
  st.check (args.strArg "scope") fun scope =>
  st.check (host.requireBulletinScope st.store scope) fun _ =>
  st.served (.ok (.arr ((st.app.storage.bulletinsForScope env.nowMs scope).map postJson)), st.app,
    [.subscribeBulletinScope scope])

section

variable [Prims] [AppEncoder]

def bulletinPost (host : BridgeHost) (env : CallEnv) (args : Json) (st : BridgeState) :
    Except String Json × Served :=
  st.check (host.requirePermission .bulletinWrite) fun _ =>
  st.check (args.strArg "scope") fun scope =>
  st.check (host.requireBulletinScope st.store scope) fun _ =>
  st.check (args.strArg "title") fun title =>
  st.check (args.strArg "body") fun body =>
  let ttl := ((args.get "ttl_secs").bind Json.asU64).getD 86400
  let (app, commands) := postBulletin env.draws scope title body ttl st.app
  st.served (.ok (.str "ok"), app, commands)

/-- `messaging.broadcast`; the call counts even if its payload is missing. -/
def messagingBroadcast (host : BridgeHost) (env : CallEnv) (args : Json) (st : BridgeState) :
    Except String Json × Served :=
  st.check (host.requirePermission .messagingBroadcast) fun _ =>
  match checkBroadcastRate st.broadcastLimits host.appId env.broadcastMs with
  | (.error e, broadcastLimits) => (.error e, ⟨st.app, broadcastLimits, []⟩)
  | (.ok (), broadcastLimits) =>
    match args.strArg "payload" with
    | .error e => (.error e, ⟨st.app, broadcastLimits, []⟩)
    | .ok payload => (.ok (.str "ok"), ⟨st.app, broadcastLimits,
        [broadcastChat env.draws "mycelium/chat" ("[app/" ++ host.appId ++ "] " ++ payload)]⟩)

end

def messagingSend [HostCalls] (host : BridgeHost) (args : Json) (st : BridgeState) :
    Except String Json × Served :=
  st.check (host.requirePermission .messaging) fun _ =>
  st.check (args.strArg "to_peer") fun toPeer =>
  st.check (args.strArg "payload") fun payload =>
  let (result, app, commands) :=
    HostCalls.sendChatTo toPeer ("[app/" ++ host.appId ++ "] " ++ payload) st.app
  st.served (result.map fun _ => .str "ok", app, commands)

def paymentRequest (host : BridgeHost) (args : Json) (st : BridgeState) :
    Except String Json × Served :=
  st.check (host.requirePermission .payments) fun _ =>
  st.check (args.u64Arg "amount_muon") fun amount =>
  st.reply (.obj [("_bridge_action", .str "payment_confirmation_required"),
    ("amount_muon", .num amount.toNat), ("memo", .ofOption (args.strField "memo"))])

/-- The coin node of the payment methods. -/
def requireCoin (st : BridgeState) : Except String Coin.CoinNode :=
  match st.coin with
  | some coin => .ok coin
  | none => .error "coin not available"

def paymentCreateQr [HostCalls] (host : BridgeHost) (args : Json) (st : BridgeState) :
    Except String Json × Served :=
  st.check (host.requirePermission .payments) fun _ =>
  st.check (requireCoin st) fun coin =>
  st.check (args.u64Arg "amount_muon") fun amount =>
  match HostCalls.paymentUri coin.localAddress amount (args.strField "memo") with
  | none => (.error "payment request expired", st.untouched)
  | some uri => st.reply (.obj [("uri", .str uri), ("_bridge_action", .str "render_qr"),
      ("_qr_content", .str uri)])

def paymentGetBalance (host : BridgeHost) (st : BridgeState) : Except String Json × Served :=
  st.check (host.requirePermission .payments) fun _ =>
  st.check (requireCoin st) fun coin =>
  let account := coin.ledger.account coin.localAddress
  st.reply (.obj [("confirmed_muon", .num account.balanceMuon.toNat),
    ("pending_muon", .num account.pendingReceived.toNat)])

/-- The `proximity.*` methods, each behind its permissions. -/
def proximity [HostCalls] (host : BridgeHost) (perms : List Permission) (method : String)
    (args : Json) (st : BridgeState) : Except String Json × Served :=
  st.check (perms.forM host.requirePermission) fun _ =>
  st.served (HostCalls.proximity method args st.app)

/-- `util.alert` and `util.confirm`: the host shows the message. -/
def showMessage (action : String) (args : Json) (st : BridgeState) : Except String Json × Served :=
  st.check (args.strArg "message") fun message =>
  st.reply (.obj [("_bridge_action", .str action), ("message", .str message)])

section

variable [Prims] [AppEncoder] [HostCalls]

/-- The `match` of `handle`. -/
def body (host : BridgeHost) (env : CallEnv) (method : String) (args : Json) (st : BridgeState) :
    Except String Json × Served :=
  match method with
  | "identity.get" =>
    st.check (host.requirePermission .identity) fun _ =>
    st.reply (.obj [("peer_id", .str host.localPeerId),
      ("display_name", .str env.draws.displayName), ("enc_pubkey", .str host.encPubkeyHex)])
  | "messaging.send" => host.messagingSend args st
  | "messaging.subscribe" =>
    st.check (host.requirePermission .messaging) fun _ => st.reply (.str "subscribed")
  | "messaging.broadcast" => host.messagingBroadcast env args st
  | "payment.request" => host.paymentRequest args st
  | "payment.create_qr" => host.paymentCreateQr args st
  | "payment.get_balance" => host.paymentGetBalance st
  | "storage.get" => host.storageGet args st
  | "storage.set" => host.storageSet env args st
  | "storage.delete" => host.storageDelete args st
  | "storage.list" => host.storageList args st
  | "bulletin.get" => host.bulletinGet env args st
  | "bulletin.post" => host.bulletinPost env args st
  | "peers.nearby" =>
    st.check (host.requirePermission .peerDiscovery) fun _ =>
    st.reply (.arr (env.knownPeers.map .str))
  | "proximity.start" => host.proximity [.peerDiscovery, .messaging] method args st
  | "proximity.stop" => host.proximity [.peerDiscovery] method args st
  | "proximity.nearby" => host.proximity [.peerDiscovery] method args st
  | "proximity.connect" => host.proximity [.peerDiscovery] method args st
  | "proximity.messages" => host.proximity [.messaging] method args st
  | "proximity.send_message" => host.proximity [.messaging] method args st
  | "util.now" => st.reply (.num env.nowMs.toNat)
  | "util.scan_qr" =>
    st.check (host.requirePermission .camera) fun _ =>
    st.reply (.obj [("_bridge_action", .str "open_qr_scanner")])
  | "util.alert" => showMessage "show_alert" args st
  | "util.confirm" => showMessage "show_confirm" args st
  | "app.get_id" => st.reply (.str host.appId)
  | "app.get_version" =>
    st.reply (.str (((st.store.getManifest host.appId).map (·.version)).getD ""))
  | _ => (.error ("unknown bridge method: " ++ method), st.untouched)

/-- `BridgeHost::handle`. -/
def handle [CapPrims] (host : BridgeHost) (env : CallEnv) (method : String) (args : Json)
    (st : BridgeState) : Except String Json × BridgeState :=
  match host.gate env method args st with
  | (.error e, st) => (.error e, st)
  | (.ok (), st) =>
    let (result, served) := host.body env method args st
    (result, { st with
      app := served.app
      broadcastLimits := served.broadcastLimits
      commands := st.commands ++ served.commands })

end

end BridgeHost

/-! ## What a call must show -/

section

variable [CapPrims]

/-- What the gate leaves: the rate counter moved, and perhaps a score. -/
theorem gate_leaves (host : BridgeHost) (env : CallEnv) (method : String) (args : Json)
    (st : BridgeState) :
    ∃ limits reputations, (host.gate env method args st).2
      = { st with bridgeLimits := limits, store := { st.store with reputations } } := by
  unfold BridgeHost.gate
  split
  · exact ⟨st.bridgeLimits, st.store.reputations, rfl⟩
  split
  · exact ⟨st.bridgeLimits, st.store.reputations, rfl⟩
  split
  · next limits hrate =>
    exact ⟨limits, (st.store.recordBridgeAnomaly env.anomalyMs host.appId).reputations, rfl⟩
  · next limits hrate => exact ⟨limits, st.store.reputations, rfl⟩

/-- A call that is let through: its session is good, it is not too often, safe mode allows it, and
it has what its method needs. The store is as before. -/
theorem gate_ok {host : BridgeHost} {env : CallEnv} {method : String} {args : Json}
    {st st' : BridgeState} (h : host.gate env method args st = (.ok (), st')) :
    (∃ tok, args.strField "_session" = some tok
      ∧ validateSession st.sessions host.appId tok env.sessionMs = .ok ())
    ∧ (checkBridgeRate st.bridgeLimits host.appId env.rateMs).1 = .ok ()
    ∧ host.requireNotBlockedBySafeMode method = .ok ()
    ∧ host.requireCapability method args env.capMs = .ok ()
    ∧ st' = { st with bridgeLimits := (checkBridgeRate st.bridgeLimits host.appId env.rateMs).2 } := by
  unfold BridgeHost.gate at h
  split at h
  · cases h
  next tok htok =>
  split at h
  · cases h
  next hsession =>
  split at h
  · cases h
  next limits hrate =>
  split at h
  · cases h
  next hsafe =>
  obtain ⟨hcap, rfl⟩ := Prod.mk.inj h
  rw [hrate]
  exact ⟨⟨tok, htok, hsession⟩, rfl, hsafe, hcap, rfl⟩

/-- And these are enough. -/
theorem gate_of_ok {host : BridgeHost} {env : CallEnv} {method : String} {args : Json}
    {st : BridgeState} {tok : String} (htok : args.strField "_session" = some tok)
    (hsession : validateSession st.sessions host.appId tok env.sessionMs = .ok ())
    (hrate : (checkBridgeRate st.bridgeLimits host.appId env.rateMs).1 = .ok ())
    (hsafe : host.requireNotBlockedBySafeMode method = .ok ())
    (hcap : host.requireCapability method args env.capMs = .ok ()) :
    (host.gate env method args st).1 = .ok () := by
  unfold BridgeHost.gate
  rw [htok]
  simp only [hsession]
  rcases hlimits : checkBridgeRate st.bridgeLimits host.appId env.rateMs with ⟨r, limits⟩
  rw [hlimits] at hrate
  obtain rfl : r = .ok () := hrate
  simp only [hsafe, hcap]

end

section

variable [Prims] [AppEncoder] [HostCalls] [CapPrims] {host : BridgeHost} {env : CallEnv}
  {method : String} {args : Json} {st st' : BridgeState}

/-- A call the gate refuses. -/
theorem handle_refused {e : String} (h : host.gate env method args st = (.error e, st')) :
    host.handle env method args st = (.error e, st') := by
  unfold BridgeHost.handle
  rw [h]

/-- A call whose body runs, and left `served`. -/
theorem handle_served {served : Served} (h : host.gate env method args st = (.ok (), st'))
    (hbody : (host.body env method args st').2 = served) :
    (host.handle env method args st).2 = { st' with
      app := served.app
      broadcastLimits := served.broadcastLimits
      commands := st'.commands ++ served.commands } := by
  subst hbody
  unfold BridgeHost.handle
  rw [h]

end

/-! ## Checks of a body -/

/-- The two ways through a check. -/
theorem BridgeState.check_rule {α : Type} {st : BridgeState} {result : Except String α}
    {body : α → Except String Json × Served} {P : Except String Json × Served → Prop}
    (herror : ∀ e, result = .error e → P (.error e, st.untouched))
    (hok : ∀ a, result = .ok a → P (body a)) : P (st.check result body) := by
  cases result with
  | error e => exact herror e rfl
  | ok a => exact hok a rfl

theorem requirePermission_ok {host : BridgeHost} {perm : Permission} {u : Unit}
    (h : host.requirePermission perm = .ok u) : perm ∈ host.permissions := by
  unfold BridgeHost.requirePermission at h
  split at h
  · next hmem => exact hmem
  · cases h

theorem Json.strArg_ok {args : Json} {key s : String} (h : args.strArg key = .ok s) :
    args.strField key = some s := by
  unfold Json.strArg at h
  split at h
  · next t ht =>
    cases h
    exact ht
  · cases h

/-! ## A world to evaluate on -/

/-- Tokens in hex, with a MAC made of the key and the head of the message. -/
@[reducible] def symbolicCaps : CapPrims where
  hmacSha256 key msg := Vector.zipWith (· + ·) key (firstBytes32 msg)
  base64UrlEncode := hexEncode
  base64UrlDecode := hexDecode

/-- A device on which the untranslated calls do nothing. -/
@[reducible] def idleCalls : HostCalls where
  sendChatTo _ _ app := (.ok (), app, [])
  paymentUri _ _ _ := none
  proximity _ _ app := (.ok .null, app, [])

/-- An app with nothing in it but its mini-app storage. -/
def blankApp (miniapp : KvTree.Of String Bytes) : AppNode :=
  { localPeerId := "", localEncPubkeyHex := "", encKeypair := ⟨Vector.replicate 32 0⟩
    storage := { miniapp } }

/-- The smallest manifest with this id. -/
def plainManifest (id : String) : MiniAppManifest :=
  { id, name := "n", description := "", version := "1", developer := "", developerPeerId := none
    entry := "index.html", iconBase64 := none, permissions := [], minMyceliumVersion := ""
    acceptsPayments := false, paymentAddress := none, categories := [] }

/-- A call at time zero. -/
def idleEnv : CallEnv :=
  { sessionMs := 0, rateMs := 0, anomalyMs := 0, capMs := 0, broadcastMs := 0, nowMs := 0
    draws := symbolicDraws 0, knownPeers := [] }

end Mycelium.App
