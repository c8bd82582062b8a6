import Mycelium.App.Message
import Mycelium.Core.Crypto
import Mycelium.Lib.Fields

/-!
# Mycelium app — capability tokens

Translation of `mycelium-app/src/miniapp/capability_token.rs`: a token is a payload
`1|app|permission|session|expiry` and a MAC over it, in base64. The fields are joined as they
are, so an app id or a session that holds a `|` of its own moves the boundaries; the payload is
split again after the MAC was checked.

* `issueCapability` / `validateCapability` — the two ends;
* `validateCapability_ok` — what a token that is let through says;
* `checkPayload_capPayload` — **no boundary is confused**: a payload made of any fields passes
  the check for the fields it was made of, and for no others.
-/

namespace Mycelium.App

/-- The library functions behind a token. -/
class CapPrims where
  /-- `Hmac::<Sha256>` over one message. -/
  hmacSha256 : Bytes32 → Bytes → Bytes32
  /-- `URL_SAFE_NO_PAD.encode`. -/
  base64UrlEncode : Bytes → String
  /-- `URL_SAFE_NO_PAD.decode`. -/
  base64UrlDecode : String → Option Bytes

/-- `permission_name`. -/
def permissionName : Permission → String
  | .messaging => "Messaging"
  | .messagingBroadcast => "MessagingBroadcast"
  | .identity => "Identity"
  | .payments => "Payments"
  | .storage => "Storage"
  | .bulletinRead => "BulletinRead"
  | .bulletinWrite => "BulletinWrite"
  | .peerDiscovery => "PeerDiscovery"
  | .camera => "Camera"

theorem permissionName_injective : Function.Injective permissionName := by
  intro p q h
  cases p <;> cases q <;> first | rfl | exact absurd h (by decide)

/-- `permission_for_method`. -/
def permissionForMethod (method : String) : Option Permission :=
  match method with
  | "identity.get" => some .identity
  | "messaging.send" => some .messaging
  | "messaging.broadcast" => some .messagingBroadcast
  | "payment.request" => some .payments
  | "payment.create_qr" => some .payments
  | "payment.get_balance" => some .payments
  | "util.scan_qr" => some .camera
  | "bulletin.post" => some .bulletinWrite
  | "peers.nearby" => some .peerDiscovery
  | "proximity.start" => some .peerDiscovery
  | "proximity.nearby" => some .peerDiscovery
  | "proximity.connect" => some .peerDiscovery
  | "proximity.messages" => some .messaging
  | "proximity.send_message" => some .messaging
  | _ => none

/-- `CAP_VERSION`. -/
def capVersion : Nat := 1

/-- The text a token is made of, before its MAC. -/
def capPayload (appId : String) (permission : Permission) (sessionToken : String)
    (expiresAtMs : UInt64) : String :=
  "|".intercalate
    [capVersion.repr, appId, permissionName permission, sessionToken, expiresAtMs.toNat.repr]

section

variable [CapPrims]

/-- `issue_capability`, with the time it reads. -/
def issueCapability (macKey : Bytes32) (appId : String) (permission : Permission)
    (sessionToken : String) (ttlMs now : UInt64) : String :=
  let payload := capPayload appId permission sessionToken (U64.satAdd now ttlMs)
  let sig := CapPrims.hmacSha256 macKey (asBytes payload)
  CapPrims.base64UrlEncode (asBytes (payload ++ "|" ++ hexEncode sig.toList))

/-- The payload of a token whose MAC is right. -/
def openCapability (macKey : Bytes32) (token : String) : Except String String :=
  match CapPrims.base64UrlDecode token with
  | none => .error "invalid capability token encoding"
  | some bytes =>
    match fromUtf8 bytes with
    | none => .error "invalid capability token utf8"
    | some decoded =>
      match rsplitOnce '|' decoded.toList with
      | none => .error "malformed capability token"
      | some (payload, sigHex) =>
        match hexDecode (String.ofList sigHex) with
        | none => .error "invalid capability signature"
        | some sig =>
          -- the comparison takes constant time in the source, the answer is this one
          if sig = (CapPrims.hmacSha256 macKey (asBytes (String.ofList payload))).toList then
            .ok (String.ofList payload)
          else .error "invalid capability token"

/-- The checks on the payload itself. -/
def checkPayload (appId : String) (permission : Permission) (sessionToken : String)
    (now : UInt64) (payload : String) : Except String Unit :=
  match payload.toList.splitOn '|' with
  | [version, app, tag, session, expiry] =>
    if parseUnsigned (2 ^ 8) version ≠ some capVersion then .error "unsupported capability version"
    else if app ≠ appId.toList then .error "capability token app mismatch"
    else if tag ≠ (permissionName permission).toList then
      .error "capability token permission mismatch"
    else if session ≠ sessionToken.toList then .error "capability token session mismatch"
    else
      match parseUnsigned (2 ^ 64) expiry with
      | none => .error "invalid capability expiry"
      | some expiresAtMs => if expiresAtMs < now.toNat then .error "capability token expired" else .ok ()
  | _ => .error "malformed capability payload"

/-- `validate_capability`, with the time it reads. -/
def validateCapability (macKey : Bytes32) (appId : String) (permission : Permission)
    (sessionToken token : String) (now : UInt64) : Except String Unit :=
  match openCapability macKey token with
  | .error e => .error e
  | .ok payload => checkPayload appId permission sessionToken now payload

theorem validateCapability_ok {macKey : Bytes32} {appId : String} {permission : Permission}
    {sessionToken token : String} {now : UInt64}
    (h : validateCapability macKey appId permission sessionToken token now = .ok ()) :
    ∃ payload, openCapability macKey token = .ok payload
      ∧ checkPayload appId permission sessionToken now payload = .ok () := by
  unfold validateCapability at h
  split at h
  · cases h
  · next payload hopen => exact ⟨payload, hopen, h⟩

end

/-! ## The boundaries of the fields -/

/-- The five fields of a payload that passes. -/
theorem checkPayload_ok {appId : String} {permission : Permission} {sessionToken : String}
    {now : UInt64} {payload : String}
    (h : checkPayload appId permission sessionToken now payload = .ok ()) :
    ∃ version expiry expiresAtMs, payload.toList.splitOn '|'
        = [version, appId.toList, (permissionName permission).toList, sessionToken.toList, expiry]
      ∧ parseUnsigned (2 ^ 64) expiry = some expiresAtMs ∧ now.toNat ≤ expiresAtMs := by
  unfold checkPayload at h
  split at h
  case h_2 => cases h
  case h_1 version app tag session expiry hsplit =>
    -- one check after the other; each failed one would have been an error
    split at h
    · cases h
    split at h
    · cases h
    next happ =>
    split at h
    · cases h
    next htag =>
    split at h
    · cases h
    next hsession =>
    split at h
    · cases h
    next expiresAtMs hexpiry =>
    split at h
    · cases h
    next hlate =>
    rw [not_not] at happ htag hsession
    subst happ htag hsession
    exact ⟨version, expiry, expiresAtMs, hsplit, hexpiry, Nat.le_of_not_lt hlate⟩

/-- `capPayload` on characters. -/
theorem toList_capPayload (appId : String) (permission : Permission) (session : String)
    (expiresAtMs : UInt64) :
    (capPayload appId permission session expiresAtMs).toList
      = ['|'].intercalate [capVersion.repr.toList, appId.toList, (permissionName permission).toList,
          session.toList, expiresAtMs.toNat.repr.toList] := by
  rw [capPayload, String.toList_intercalate]
  rfl

/-- **No boundary is confused.** Whatever the app id and the session of a payload hold, it
passes for them alone. -/
theorem checkPayload_capPayload {appId appId' : String} {permission permission' : Permission}
    {session session' : String} {now expiresAtMs : UInt64}
    (h : checkPayload appId permission session now
      (capPayload appId' permission' session' expiresAtMs) = .ok ()) :
    appId' = appId ∧ permission' = permission ∧ session' = session ∧ now ≤ expiresAtMs := by
  obtain ⟨version, expiry, expires, hsplit, hexpiry, hle⟩ := checkPayload_ok h
  have hpayload := toList_capPayload appId' permission' session' expiresAtMs
  -- five pieces for five fields, so the pieces are the fields
  have hfields : (capPayload appId' permission' session' expiresAtMs).toList.splitOn '|'
      = [capVersion.repr.toList, appId'.toList, (permissionName permission').toList,
          session'.toList, expiresAtMs.toNat.repr.toList] := by
    rw [hpayload] at hsplit ⊢
    exact splitOn_intercalate_of_length '|' (List.cons_ne_nil _ _) (by rw [hsplit]; rfl)
  rw [hsplit] at hfields
  simp only [List.cons.injEq, and_true] at hfields
  obtain ⟨-, happ, htag, hsession, hexp⟩ := hfields
  refine ⟨String.toList_inj.mp happ.symm, permissionName_injective (String.toList_inj.mp htag.symm),
    String.toList_inj.mp hsession.symm, ?_⟩
  have hread : parseUnsigned (2 ^ 64) expiry = some expiresAtMs.toNat := by
    rw [hexp]
    exact parseUnsigned_repr expiresAtMs.toNat_lt
  obtain rfl : expires = expiresAtMs.toNat := Option.some.inj (hexpiry.symm.trans hread)
  exact UInt64.le_iff_toNat_le.mpr hle

/-! ## The way back -/

theorem checkPayload_of_fields {appId : String} (permission : Permission) {session : String}
    {now expiresAtMs : UInt64} (happ : '|' ∉ appId.toList) (hsession : '|' ∉ session.toList)
    (hle : now ≤ expiresAtMs) :
    checkPayload appId permission session now (capPayload appId permission session expiresAtMs)
      = .ok () := by
  -- no field but the app id and the session could hold a bar, so the split gives the fields back
  have hdigits : ∀ n : Nat, '|' ∉ n.repr.toList := by
    intro n hmem
    rw [Nat.repr_eq_ofList_toDigits, String.toList_ofList] at hmem
    exact absurd (Nat.isDigit_of_mem_toDigits (by omega) (by omega) hmem) (by decide)
  have htag : '|' ∉ (permissionName permission).toList := by cases permission <;> decide
  have hfields : ∀ field ∈ [capVersion.repr.toList, appId.toList,
      (permissionName permission).toList, session.toList, expiresAtMs.toNat.repr.toList],
      '|' ∉ field := by
    intro field hfield
    fin_cases hfield
    · exact hdigits capVersion
    · exact happ
    · exact htag
    · exact hsession
    · exact hdigits expiresAtMs.toNat
  have hsplit := List.splitOn_intercalate '|' hfields (List.cons_ne_nil _ _)
  -- the two numbers fit the widths they are parsed at
  have hversion : parseUnsigned (2 ^ 8) capVersion.repr.toList = some capVersion :=
    parseUnsigned_repr (by decide)
  have hexpiry : parseUnsigned (2 ^ 64) expiresAtMs.toNat.repr.toList = some expiresAtMs.toNat :=
    parseUnsigned_repr expiresAtMs.toNat_lt
  have hlate : ¬ expiresAtMs.toNat < now.toNat := Nat.not_lt.mpr (UInt64.le_iff_toNat_le.mp hle)
  unfold checkPayload
  rw [toList_capPayload, hsplit]
  simp only [hversion, hexpiry, ne_eq, not_true_eq_false, if_false, if_neg hlate]

section

variable [CapPrims]

/-- A token that was issued opens to its payload. -/
theorem openCapability_issueCapability
    (hround : ∀ bytes, CapPrims.base64UrlDecode (CapPrims.base64UrlEncode bytes) = some bytes)
    (macKey : Bytes32) (appId : String) (permission : Permission) (session : String)
    (ttlMs now : UInt64) :
    openCapability macKey (issueCapability macKey appId permission session ttlMs now)
      = .ok (capPayload appId permission session (U64.satAdd now ttlMs)) := by
  have hhex : ∀ bytes : Bytes, '|' ∉ (hexEncode bytes).toList := by
    intro bytes hmem
    obtain ⟨n, hn, heq⟩ := mem_hexEncode hmem
    revert n
    decide
  unfold openCapability issueCapability
  simp only [hround, fromUtf8_asBytes, String.toList_append]
  have hsplit := rsplitOnce_append (c := '|')
    (capPayload appId permission session (U64.satAdd now ttlMs)).toList
    (hhex (CapPrims.hmacSha256 macKey
      (asBytes (capPayload appId permission session (U64.satAdd now ttlMs)))).toList)
  rw [List.append_assoc]
  rw [show "|".toList ++ (hexEncode _).toList = '|' :: (hexEncode _).toList from rfl, hsplit]
  simp only [String.ofList_toList, hexDecode_hexEncode, if_true]

/-- Fields without a separator of their own are accepted until the token expires. -/
theorem validateCapability_issueCapability
    (hround : ∀ bytes, CapPrims.base64UrlDecode (CapPrims.base64UrlEncode bytes) = some bytes)
    (macKey : Bytes32) {appId : String} (permission : Permission) {session : String}
    {ttlMs now now' : UInt64} (happ : '|' ∉ appId.toList) (hsession : '|' ∉ session.toList)
    (hle : now' ≤ U64.satAdd now ttlMs) :
    validateCapability macKey appId permission session
      (issueCapability macKey appId permission session ttlMs now) now' = .ok () := by
  unfold validateCapability
  rw [openCapability_issueCapability hround]
  exact checkPayload_of_fields permission happ hsession hle

end

end Mycelium.App
