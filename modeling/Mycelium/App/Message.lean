import Mycelium.Coin.Transaction
import Mycelium.Core.Data

/-!
# Mycelium app — messages and the data the app keeps

Translation of the data types of `mycelium-app`: the application envelope
(`src/envelope.rs`), contacts, groups and scope keys, the proximity messages
(`src/proximity/presence.rs`), and the store listings and revocations that travel as
messages (`src/miniapp/store.rs`, `src/miniapp/revocation.rs`).

`AppCodec` collects the `bincode` and `serde_json` functions that read and write them.
-/

namespace Mycelium.App

/-- `uuid::Uuid`. -/
structure Uuid where
  bytes : Vector UInt8 16
deriving DecidableEq

/-- The hyphenated lower-case form, as `Display` prints it. -/
def Uuid.toText (id : Uuid) : String :=
  let hex := (hexEncode id.bytes.toList).toList
  String.ofList (hex.take 8 ++ '-' :: (hex.drop 8).take 4 ++ '-' :: (hex.drop 12).take 4
    ++ '-' :: (hex.drop 16).take 4 ++ '-' :: hex.drop 20)

/-! ## The application envelope -/

structure ChatMessage where
  id : Uuid
  fromDisplayName : String
  body : String
  timestampMs : UInt64
  replyTo : Option Uuid
deriving DecidableEq

structure BulletinPost where
  id : Uuid
  fromDisplayName : String
  title : String
  body : String
  scope : String
  timestampMs : UInt64
  expiresAtMs : UInt64
deriving DecidableEq

structure Attachment where
  filename : String
  mimeType : String
  data : Bytes
  sizeBytes : Nat
deriving DecidableEq

structure MailMessage where
  id : Uuid
  fromPeer : String
  fromDisplayName : String
  toPeer : String
  subject : String
  body : String
  timestampMs : UInt64
  attachments : List Attachment
deriving DecidableEq

/-! ## Store listings and revocations -/

structure ReproducibleBuild where
  recipeUrl : Option String := none
  recipeDigestHex : Option String := none
  attestedBundleHash : Option String := none
  sdkVersion : Option String := none
deriving DecidableEq

inductive Permission where
  | messaging
  | messagingBroadcast
  | identity
  | payments
  | storage
  | bulletinRead
  | bulletinWrite
  | peerDiscovery
  | camera
deriving DecidableEq

structure MiniAppManifest where
  id : String
  name : String
  description : String
  version : String
  developer : String
  developerPeerId : Option String
  entry : String
  iconBase64 : Option String
  permissions : List Permission
  minMyceliumVersion : String
  acceptsPayments : Bool
  paymentAddress : Option String
  categories : List String
  runtime : String := "webview"
  bulletinScopes : List String := []
  reproducibleBuild : Option ReproducibleBuild := none
deriving DecidableEq

inductive AppSource where
  | peer (id : String)
  | url (url : String)
deriving DecidableEq

structure AppStoreListing where
  manifest : MiniAppManifest
  bundleHash : String
  sources : List AppSource
  publishedAtMs : UInt64
  updatedAtMs : UInt64
  signature : Bytes
deriving DecidableEq

/-- A signed revocation, propagated on scope `mycelium/appstore/revocations/v1`. -/
structure RevocationGossip where
  appId : String
  reason : String
  revokedAtMs : UInt64
  curatorPeerId : String
  signature : Bytes
deriving DecidableEq

/-! ## What a payload carries -/

inductive AppPayload where
  | chat (m : ChatMessage)
  | bulletin (post : BulletinPost)
  | mail (m : MailMessage)
  /-- `bincode` of a `CoinPayload`. -/
  | coin (inner : Bytes)
  | appStoreListing (listing : AppStoreListing)
  | miniAppRevocation (entry : RevocationGossip)
deriving DecidableEq

/-- `AppMessage`; its `app_id` is never read. -/
structure AppMessage where
  payload : AppPayload
deriving DecidableEq

/-! ## Proximity -/

structure PresenceProfile where
  displayName : Option String := none
  bio : Option String := none
  age : Option UInt8 := none
  gender : Option String := none
  lookingFor : Option String := none
  interests : List String := []
  photoBase64 : Option String := none
deriving DecidableEq

structure PresenceSignal where
  ephemeralId : Uuid
  encPubkeyHex : String
  profile : PresenceProfile
  createdAtMs : UInt64
  ttlSecs : UInt32
deriving DecidableEq

structure ProximityDirectMessage where
  targetEncPubkeyHex : String
  senderEncPubkeyHex : String
  encryptedPayload : Bytes
  createdAtMs : UInt64
deriving DecidableEq

structure ProximityMatchIntent where
  fromEncPubkeyHex : String
  createdAtMs : UInt64
  ttlSecs : UInt32
deriving DecidableEq

/-- `is_expired` of signals and intents; `ttl_secs as u64 * 1000` cannot overflow. -/
def presenceExpired (createdAtMs : UInt64) (ttlSecs : UInt32) (now : UInt64) : Bool :=
  ttlSecs.toUInt64 * 1000 < U64.satSub now createdAtMs

def PresenceSignal.isExpired (s : PresenceSignal) (now : UInt64) : Bool :=
  presenceExpired s.createdAtMs s.ttlSecs now

def ProximityMatchIntent.isExpired (i : ProximityMatchIntent) (now : UInt64) : Bool :=
  presenceExpired i.createdAtMs i.ttlSecs now

/-! ## Codecs and signatures -/

/-- The `bincode` decoders and `serde_json` encoders the app calls. -/
class AppCodec where
  /-- `AppMessage::decode`. -/
  decodeAppMessage : Bytes → Option AppMessage
  /-- `bincode::deserialize::<CoinPayload>`. -/
  decodeCoinPayload : Bytes → Option Coin.CoinPayload
  /-- `ProximityDirectMessage::decode`. -/
  decodeProximityDirect : Bytes → Option ProximityDirectMessage
  /-- `PresenceSignal::decode`. -/
  decodePresence : Bytes → Option PresenceSignal
  /-- `ProximityMatchIntent::decode`. -/
  decodeMatchIntent : Bytes → Option ProximityMatchIntent
  /-- `serde_json::to_string(&manifest)`. -/
  manifestJson : MiniAppManifest → Bytes
  /-- `serde_json::to_vec(&sources)`. -/
  sourcesJson : List AppSource → Bytes

/-- `AppStoreListing::signable_bytes`. -/
def AppStoreListing.signableBytes [AppCodec] (l : AppStoreListing) : Bytes :=
  AppCodec.manifestJson l.manifest ++ asBytes l.bundleHash ++ leBytes 8 l.publishedAtMs.toNat
    ++ leBytes 8 l.updatedAtMs.toNat ++ AppCodec.sourcesJson l.sources

/-- `AppStoreListing::verify_signature`. -/
def AppStoreListing.checkSignature [Prims] [AppCodec] (l : AppStoreListing) : Except String Bool :=
  if l.signature = [] then .ok false
  else
    match l.manifest.developerPeerId with
    | none => .ok false
    | some peerIdStr =>
      match Prims.parsePeerId peerIdStr with
      | none => .error "invalid peer_id in manifest"
      | some peerId =>
        match peerId.publicKey with
        | none => .ok false
        | some pk => .ok (Prims.identity.verify pk l.signableBytes l.signature)

/-- `verify_signature` as its callers use it: an `Err` is a refusal. -/
def AppStoreListing.verifySignature [Prims] [AppCodec] (l : AppStoreListing) : Bool :=
  match l.checkSignature with
  | .ok valid => valid
  | .error _ => false

end Mycelium.App
