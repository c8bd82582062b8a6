import Mycelium.App.Bridge

/-!
# Mycelium app — who may run a guarded method

A method with a permission of its own runs only for a call that shows the session of its app and
a capability token. Sessions live in a table that is written by `issue_session` and
`revoke_session` alone; tokens are checked by their MAC and by the fields of their payload.

* `MediationEvent` — sessions and tokens issued and revoked, and calls through any host;
* `currentSession_of_lookup` — what the table holds is the last session issued and not revoked;
* `Unforgeable` — what is assumed of the MAC: a text shown with its MAC was issued with it;
* `capability_mediated` — **a guarded body runs for its own app, permission and session only.**
-/

namespace Mycelium.App

/-! ## Runs -/

inductive MediationEvent where
  | issueSession (appId token : String) (now : UInt64)
  | revokeSession (appId : String)
  | issueCapability (macKey : Bytes32) (appId : String) (permission : Permission)
      (sessionToken : String) (ttlMs now : UInt64)
  | handle (host : BridgeHost) (env : CallEnv) (method : String) (args : Json)

/-- The event writes the entry of the app in the session table. -/
def MediationEvent.WritesSession (appId : String) : MediationEvent → Prop
  | .issueSession a _ _ => a = appId
  | .revokeSession a => a = appId
  | _ => False

/-- The session was issued to the app, and neither replaced nor revoked since. -/
def CurrentSession (history : List MediationEvent) (appId : String) (session : BridgeSession) : Prop :=
  ∃ before after, history = before ++ .issueSession appId session.token session.issuedAtMs :: after
    ∧ ∀ e ∈ after, ¬ e.WritesSession appId

theorem CurrentSession.append {history : List MediationEvent} {appId : String}
    {session : BridgeSession} (h : CurrentSession history appId session) {e : MediationEvent}
    (he : ¬ e.WritesSession appId) : CurrentSession (history ++ [e]) appId session := by
  obtain ⟨before, after, rfl, hafter⟩ := h
  refine ⟨before, after ++ [e], by simp, ?_⟩
  intro e' he'
  rcases List.mem_append.mp he' with hmem | hmem
  · exact hafter e' hmem
  · rw [List.mem_singleton.mp hmem]
    exact he

section

variable [Prims] [AppEncoder] [HostCalls] [CapPrims]

/-- Issuing a token leaves no trace but the token. -/
def MediationEvent.step (st : BridgeState) : MediationEvent → BridgeState
  | .issueSession appId token now => { st with sessions := App.issueSession st.sessions appId token now }
  | .revokeSession appId => { st with sessions := App.revokeSession st.sessions appId }
  | .issueCapability .. => st
  | .handle host env method args => (host.handle env method args st).2

def runMediation (events : List MediationEvent) (st : BridgeState) : BridgeState :=
  events.foldl MediationEvent.step st

/-! ## The session table -/

/-- A call never writes the table. -/
theorem handle_sessions (host : BridgeHost) (env : CallEnv) (method : String) (args : Json)
    (st : BridgeState) : (host.handle env method args st).2.sessions = st.sessions := by
  obtain ⟨limits, reputations, hleaves⟩ := gate_leaves host env method args st
  rcases hgate : host.gate env method args st with ⟨r, st'⟩
  rw [hgate] at hleaves
  obtain rfl : st' = _ := hleaves
  cases r with
  | error e => rw [handle_refused hgate]
  | ok u => rw [handle_served hgate rfl]

/-- **The table is the history.** Induction on the events, the last one split off. -/
theorem currentSession_of_lookup {st : BridgeState} (hstart : st.sessions = ∅)
    (history : List MediationEvent) :
    ∀ {appId session}, (runMediation history st).sessions.lookup appId = some session →
      CurrentSession history appId session := by
  induction history using List.reverseRecOn with
  | nil =>
    intro appId session h
    rw [show (runMediation [] st).sessions = ∅ from hstart] at h
    cases h
  | append_singleton history e ih =>
    intro appId session h
    have hlast : runMediation (history ++ [e]) st
        = MediationEvent.step (runMediation history st) e := List.foldl_concat _ _ _ _
    rw [hlast] at h
    cases e with
    | issueSession a token now =>
      by_cases ha : a = appId
      · subst ha
        -- the session was issued just now, and nothing came after
        have hnew : some ⟨token, now⟩ = some session :=
          (AList.lookup_insert (runMediation history st).sessions).symm.trans h
        obtain rfl : ⟨token, now⟩ = session := Option.some.inj hnew
        exact ⟨history, [], rfl, by simp⟩
      · have hold : (runMediation history st).sessions.lookup appId = some session :=
          (AList.lookup_insert_ne (Ne.symm ha)).symm.trans h
        exact (ih hold).append ha
    | revokeSession a =>
      by_cases ha : a = appId
      · subst ha
        -- the session was revoked just now
        have hnone : none = some session :=
          (AList.lookup_erase a (runMediation history st).sessions).symm.trans h
        cases hnone
      · have hold : (runMediation history st).sessions.lookup appId = some session :=
          (AList.lookup_erase_ne (Ne.symm ha)).symm.trans h
        exact (ih hold).append ha
    | issueCapability macKey a permission sessionToken ttlMs now =>
      exact CurrentSession.append (ih h) (fun h => h)
    | handle host env method args =>
      have hold : (runMediation history st).sessions.lookup appId = some session := by
        rw [← handle_sessions host env method args]
        exact h
      exact (ih hold).append fun h => h

end

/-- A session that is accepted is in the table, and not too old. -/
theorem validateSession_ok {sessions : KvTree.Of String BridgeSession} {appId token : String}
    {now : UInt64} (h : validateSession sessions appId token now = .ok ()) :
    ∃ issuedAtMs, sessions.lookup appId = some ⟨token, issuedAtMs⟩
      ∧ U64.satSub now issuedAtMs ≤ sessionTtlMs := by
  unfold validateSession at h
  split at h
  · cases h
  next session hlookup =>
  split at h
  · cases h
  next htoken =>
  split at h
  · cases h
  next hage =>
  rw [not_not] at htoken
  subst htoken
  exact ⟨session.issuedAtMs, hlookup, UInt64.not_lt.mp hage⟩

/-! ## Tokens -/

section

variable [CapPrims]

/-- **The MAC is not forged.** A payload that a call shows with its MAC under the key of the host
was given that MAC by `issue_capability` before, under the same key. -/
def Unforgeable (events : List MediationEvent) : Prop :=
  ∀ before after host env method args,
    events = before ++ .handle host env method args :: after →
    ∀ cap payload, args.strField "_cap" = some cap →
      openCapability host.capMacKey cap = .ok payload →
      ∃ appId permission session ttlMs now,
        .issueCapability host.capMacKey appId permission session ttlMs now ∈ before
        ∧ payload = capPayload appId permission session (U64.satAdd now ttlMs)

/-- What a call has shown when the body of a method with the permission `perm` runs. -/
structure Mediated (history : List MediationEvent) (host : BridgeHost) (env : CallEnv) (args : Json)
    (perm : Permission) (session : String) : Prop where
  shown : args.strField "_session" = some session
  current : ∃ issuedAtMs, CurrentSession history host.appId ⟨session, issuedAtMs⟩
    ∧ U64.satSub env.sessionMs issuedAtMs ≤ 3600000
  permitted : perm ∈ host.permissions
  token : ∃ cap ttlMs now, args.strField "_cap" = some cap
    ∧ .issueCapability host.capMacKey host.appId perm session ttlMs now ∈ history
    ∧ openCapability host.capMacKey cap
      = .ok (capPayload host.appId perm session (U64.satAdd now ttlMs))
    ∧ env.capMs ≤ U64.satAdd now ttlMs

/-- What a guarded call passed. -/
theorem requireCapability_ok {host : BridgeHost} {method : String} {args : Json} {now : UInt64}
    {perm : Permission} (hmethod : permissionForMethod method = some perm)
    (h : host.requireCapability method args now = .ok ()) :
    perm ∈ host.permissions ∧ ∃ session cap, args.strField "_session" = some session
      ∧ args.strField "_cap" = some cap
      ∧ validateCapability host.capMacKey host.appId perm session cap now = .ok () := by
  unfold BridgeHost.requireCapability at h
  rw [hmethod] at h
  simp only at h
  split at h
  · cases h
  next hperm =>
  split at h
  · cases h
  next session hsession =>
  split at h
  · cases h
  next cap hcap => exact ⟨requirePermission_ok hperm, session, cap, hsession, hcap, h⟩

theorem requireCapability_of_ok {host : BridgeHost} {method : String} {args : Json} {now : UInt64}
    {perm : Permission} {session cap : String} (hmethod : permissionForMethod method = some perm)
    (hperm : perm ∈ host.permissions) (hsession : args.strField "_session" = some session)
    (hcap : args.strField "_cap" = some cap)
    (hvalid : validateCapability host.capMacKey host.appId perm session cap now = .ok ()) :
    host.requireCapability method args now = .ok () := by
  have hrequire : host.requirePermission perm = .ok () := if_pos hperm
  unfold BridgeHost.requireCapability
  simp only [hmethod, hrequire, hsession, hcap, hvalid]

/-- **Mediation.** In every run from an empty session table, the body of a guarded method runs only
for a call with the current session of the app and a token issued for this very app, permission
and session. -/
theorem capability_mediated [Prims] [AppEncoder] [HostCalls] {st : BridgeState}
    (hstart : st.sessions = ∅) {events : List MediationEvent} (hmac : Unforgeable events)
    {history after : List MediationEvent} {host : BridgeHost} {env : CallEnv} {method : String}
    {args : Json} (hrun : events = history ++ .handle host env method args :: after)
    {perm : Permission} (hmethod : permissionForMethod method = some perm)
    (hbody : (host.gate env method args (runMediation history st)).1 = .ok ()) :
    ∃ session, Mediated history host env args perm session := by
  rcases hgate : host.gate env method args (runMediation history st) with ⟨r, st'⟩
  rw [hgate] at hbody
  obtain rfl : r = .ok () := hbody
  obtain ⟨⟨session, hshown, hvalid⟩, -, -, hcapability, -⟩ := gate_ok hgate
  obtain ⟨hperm, session', cap, hshown', hcap, htoken⟩ := requireCapability_ok hmethod hcapability
  obtain rfl : session = session' := Option.some.inj (hshown.symm.trans hshown')
  obtain ⟨issuedAtMs, hlookup, hage⟩ := validateSession_ok hvalid
  obtain ⟨payload, hopen, hcheck⟩ := validateCapability_ok htoken
  -- the payload was issued for some app, permission and session, and its fields say which
  obtain ⟨appId, permission, sessionToken, ttlMs, now, hissued, rfl⟩ :=
    hmac history after host env method args hrun cap payload hcap hopen
  obtain ⟨rfl, rfl, rfl, hexpiry⟩ := checkPayload_capPayload hcheck
  exact ⟨sessionToken,
    { shown := hshown
      current := ⟨issuedAtMs, currentSession_of_lookup hstart history hlookup, hage⟩
      permitted := hperm
      token := ⟨cap, ttlMs, now, hcap, hissued, hopen, hexpiry⟩ }⟩

end

/-! ## A call that is served -/

section

attribute [local instance] symbolicPrims chatEncoder symbolicCaps idleCalls

/-- The host of `com.app`, which may read the identity. -/
def identityHost : BridgeHost :=
  { appId := "com.app", permissions := [.identity], localPeerId := "", encPubkeyHex := ""
    safeMode := false, capMacKey := Vector.replicate 32 7 }

/-- A token of a quarter of an hour, for the session `s`. -/
def identityToken : String :=
  issueCapability identityHost.capMacKey "com.app" .identity "s" 900000 0

def identityArgs : Json := .obj [("_session", .str "s"), ("_cap", .str identityToken)]

def identityHistory : List MediationEvent :=
  [.issueSession "com.app" "s" 0,
    .issueCapability identityHost.capMacKey "com.app" .identity "s" 900000 0]

def identityEvents : List MediationEvent :=
  identityHistory ++ [.handle identityHost idleEnv "identity.get" identityArgs]

/-- The one token that is shown was issued. -/
theorem identityEvents_unforgeable : Unforgeable identityEvents := by
  intro before after host env method args hrun cap payload hcap hopen
  have hcall : before = identityHistory
      ∧ MediationEvent.handle host env method args
        = .handle identityHost idleEnv "identity.get" identityArgs := by
    match before, hrun with
    | [], h => cases h
    | [_], h => cases h
    | [_, _], h =>
      simp only [identityEvents, identityHistory, List.cons_append, List.nil_append,
        List.cons.injEq] at h
      exact ⟨by rw [← h.1, ← h.2.1]; rfl, h.2.2.1.symm⟩
    | _ :: _ :: _ :: _, h =>
      simp [identityEvents, identityHistory] at h
  obtain ⟨rfl, hcall⟩ := hcall
  obtain ⟨rfl, -, -, rfl⟩ := MediationEvent.handle.inj hcall
  obtain rfl : identityToken = cap := by
    simpa [identityArgs, Json.strField, Json.get, Json.asStr] using hcap
  rw [identityToken, openCapability_issueCapability hexDecode_hexEncode] at hopen
  obtain rfl : capPayload "com.app" .identity "s" (U64.satAdd 0 900000) = payload :=
    Except.ok.inj hopen
  exact ⟨"com.app", .identity, "s", 900000, 0, by simp [identityHistory], rfl⟩

/-- The identity is handed out, to the session it was asked from. -/
theorem capability_mediated_identity :
    (identityHost.gate idleEnv "identity.get" identityArgs
      (runMediation identityHistory { app := blankApp ∅ })).1 = .ok ()
    ∧ ∃ session, Mediated identityHistory identityHost idleEnv identityArgs .identity session := by
  have hbody : (identityHost.gate idleEnv "identity.get" identityArgs
      (runMediation identityHistory { app := blankApp ∅ })).1 = .ok () := by
    have hsession : identityArgs.strField "_session" = some "s" := rfl
    have htoken : identityArgs.strField "_cap" = some identityToken := rfl
    have hvalid : validateCapability identityHost.capMacKey identityHost.appId .identity "s"
        identityToken idleEnv.capMs = .ok () :=
      validateCapability_issueCapability hexDecode_hexEncode _ _ (by decide) (by decide) (by decide)
    refine gate_of_ok hsession (by decide +kernel) (by decide +kernel) (by decide +kernel) ?_
    exact requireCapability_of_ok rfl List.mem_cons_self hsession htoken hvalid
  exact ⟨hbody, capability_mediated rfl identityEvents_unforgeable rfl rfl hbody⟩

end

end Mycelium.App
