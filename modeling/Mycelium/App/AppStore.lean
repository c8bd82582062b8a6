import Mycelium.App.Node
import Mathlib.Data.String.Basic

/-!
# Mycelium app — the app store

Translation of the state of `AppStore` (`mycelium-app/src/miniapp/store.rs`) and of what changes
it besides an install: the cached listings, the revocations (`revocation.rs`), the scores
(`reputation.rs`) and the safe-mode switch (`prefs.rs`). The trees of one `sled` database are the
fields of `AppStore`; database operations succeed and stored values are read back as they were
written.
-/

namespace Mycelium.App

/-- `AppReputation`; the default score is `SCORE_DEFAULT`. -/
structure AppReputation where
  score : UInt8 := 50
  updatedAtMs : UInt64 := 0
deriving DecidableEq

structure RevocationSnapshot where
  revokedAppIds : List String := []
  updatedAtMs : UInt64 := 0
deriving DecidableEq

/-- `AppPrefs`. -/
structure AppPrefs where
  safeMode : Bool := false
deriving DecidableEq

structure AppStore where
  /-- Tree `installed_apps`. -/
  installed : KvTree.Of String MiniAppManifest := ∅
  /-- Trees `app_files:<app>`, keyed by path. -/
  files : KvTree.Of (String × String) Bytes := ∅
  /-- Tree `miniapp_prefs`. -/
  prefs : KvTree.Of String AppPrefs := ∅
  /-- Tree `app_listings`. -/
  listings : KvTree.Of String AppStoreListing := ∅
  /-- Tree `miniapp_revocations`. -/
  revocations : RevocationSnapshot := {}
  /-- Tree `miniapp_reputation`. -/
  reputations : KvTree.Of String AppReputation := ∅

/-- `RevocationGossip::signable_bytes`. -/
def RevocationGossip.signableBytes (entry : RevocationGossip) : Bytes :=
  asBytes entry.appId ++ asBytes entry.reason ++ leBytes 8 entry.revokedAtMs.toNat
    ++ asBytes entry.curatorPeerId

/-- `RevocationGossip::verify_signature`. -/
def RevocationGossip.verifySignature [Prims] (entry : RevocationGossip) : Except String Bool :=
  match Prims.parsePeerId entry.curatorPeerId with
  | none => .error "invalid curator_peer_id"
  | some peerId =>
    match peerId.publicKey with
    | none => .ok false
    | some pk => .ok (Prims.identity.verify pk entry.signableBytes entry.signature)

theorem AppStoreListing.checkSignature_of_verifySignature [Prims] [AppCodec] {l : AppStoreListing}
    (h : l.verifySignature = true) : l.checkSignature = .ok true := by
  unfold AppStoreListing.verifySignature at h
  cases hcheck : l.checkSignature with
  | error e =>
    rw [hcheck] at h
    cases h
  | ok valid =>
    rw [hcheck] at h
    exact congrArg Except.ok h

/-- How far a bundle is vouched for by the cached listing of its id. -/
inductive InstallTrustLevel where
  | verifiedListing
  | matchingListingHash
  | sideloadOnly
  | hashMismatch
deriving DecidableEq

namespace AppStore

/-- `cache_listing`. -/
def cacheListing (store : AppStore) (listing : AppStoreListing) : AppStore :=
  { store with listings := store.listings.insert listing.manifest.id listing }

/-- `revoke_app`. -/
def revokeApp (store : AppStore) (now : UInt64) (appId : String) : AppStore :=
  { store with revocations :=
      { revokedAppIds :=
          if appId ∈ store.revocations.revokedAppIds then store.revocations.revokedAppIds
          else store.revocations.revokedAppIds ++ [appId]
        updatedAtMs := now } }

/-- `reputation::apply_delta`; the sum of a `u8` and a small delta is far inside `i16`. -/
def applyDelta (store : AppStore) (now : UInt64) (appId : String) (delta : Int) : AppStore :=
  let score := ((store.reputations.lookup appId).getD {}).score.toNat + delta
  let rep : AppReputation :=
    { score := UInt8.ofNat (max 0 (min 100 score)).toNat, updatedAtMs := now }
  { store with reputations := store.reputations.insert appId rep }

/-- `record_revocation_hit`. -/
def recordRevocationHit (store : AppStore) (now : UInt64) (appId : String) : AppStore :=
  store.applyDelta now appId (-100)

/-- `ingest_revocation_gossip`, with its two clock readings. -/
def ingestRevocationGossip [Prims] (store : AppStore) (now now' : UInt64)
    (entry : RevocationGossip) : Except String Bool × AppStore :=
  match entry.verifySignature with
  | .error e => (.error e, store)
  | .ok false => (.ok false, store)
  | .ok true => (.ok true, (store.revokeApp now entry.appId).recordRevocationHit now' entry.appId)

/-- Only a revocation its curator signed changes the store. -/
theorem verifySignature_of_ingestRevocationGossip [Prims] {store : AppStore} {now now' : UInt64}
    {entry : RevocationGossip} (h : (store.ingestRevocationGossip now now' entry).2 ≠ store) :
    entry.verifySignature = .ok true := by
  unfold ingestRevocationGossip at h
  split at h
  · exact absurd rfl h
  · exact absurd rfl h
  · next hok => exact hok

/-- `is_app_revoked`. -/
def isAppRevoked (store : AppStore) (appId : String) : Bool :=
  store.revocations.revokedAppIds.contains appId

/-- `revoke_app_local`: unlike a revocation by gossip it does not touch the score. -/
def revokeAppLocal (store : AppStore) (now : UInt64) (appId : String) : AppStore :=
  store.revokeApp now appId

/-- The shipped `bundled_revocations.json`. -/
def bundledRevocations : RevocationSnapshot := { revokedAppIds := [], updatedAtMs := 0 }

/-- The ids of a bundled snapshot that the store does not have yet, in order. -/
def addedRevocations (known : List String) : List String → List String
  | [] => []
  | id :: rest =>
    if id ∈ known then addedRevocations known rest else id :: addedRevocations (known ++ [id]) rest

/-- `merge_bundled_defaults` of a bundled snapshot. -/
def mergeBundledDefaults (store : AppStore) (now : UInt64) (bundled : RevocationSnapshot) :
    AppStore :=
  match addedRevocations store.revocations.revokedAppIds bundled.revokedAppIds with
  | [] => store
  | added => { store with revocations :=
      { revokedAppIds := store.revocations.revokedAppIds ++ added, updatedAtMs := now } }

/-! ## Scores and safe mode -/

/-- `reputation::load`, the score. -/
def score (store : AppStore) (appId : String) : UInt8 :=
  ((store.reputations.lookup appId).getD {}).score

/-- `forced_safe_mode`; the bound is `SCORE_FORCE_SAFE`. -/
def forcedSafeMode (score : UInt8) : Bool := score < 40

/-- `record_install_trust`. -/
def recordInstallReputation (store : AppStore) (now : UInt64) (appId : String)
    (trust : InstallTrustLevel) : AppStore :=
  store.applyDelta now appId (match trust with
    | .verifiedListing => 20
    | .matchingListingHash => 5
    | .sideloadOnly => -15
    | .hashMismatch => -25)

/-- `record_user_report`. -/
def recordUserReport (store : AppStore) (now : UInt64) (appId : String) : AppStore :=
  store.applyDelta now appId (-30)

/-- `record_bridge_anomaly`. -/
def recordBridgeAnomaly (store : AppStore) (now : UInt64) (appId : String) : AppStore :=
  store.applyDelta now appId (-25)

/-- `set_user_safe_mode`. -/
def setUserSafeMode (store : AppStore) (appId : String) (enabled : Bool) : AppStore :=
  { store with prefs := store.prefs.insert appId { safeMode := enabled } }

/-- `effective_safe_mode`. -/
def effectiveSafeMode (store : AppStore) (appId : String) : Bool :=
  ((store.prefs.lookup appId).getD {}).safeMode || forcedSafeMode (store.score appId)

/-! ## Listings -/

/-- `browse_listings`: in the order of their keys, then the last updated first. -/
def browseListings (store : AppStore) : List AppStoreListing :=
  ((store.listings.entries.mergeSort fun a b => a.1 ≤ b.1).map Sigma.snd).mergeSort
    fun a b => b.updatedAtMs ≤ a.updatedAtMs

/-- `find_listing`. -/
def findListing (store : AppStore) (appId : String) : Option AppStoreListing :=
  store.browseListings.find? fun l => l.manifest.id = appId

section

variable [Prims] [AppCodec]

/-- One round of the loop of `merge_bundled_listings`: a listing whose signature is right is
written unless a later one is cached. -/
def mergeBundledListing (store : AppStore) (listing : AppStoreListing) : Except String AppStore :=
  match listing.checkSignature with
  | .error e => .error e
  | .ok false => .ok store
  | .ok true =>
    match store.findListing listing.manifest.id with
    | none => .ok (store.cacheListing listing)
    | some cached =>
      if cached.updatedAtMs ≤ listing.updatedAtMs then .ok (store.cacheListing listing)
      else .ok store

/-- `merge_bundled_listings`; what was merged before an `Err` stays. -/
def mergeBundledListings (store : AppStore) : List AppStoreListing → AppStore
  | [] => store
  | listing :: rest =>
    match store.mergeBundledListing listing with
    | .error _ => store
    | .ok store => store.mergeBundledListings rest

end

/-- `get_manifest`. -/
def getManifest (store : AppStore) (appId : String) : Option MiniAppManifest :=
  store.installed.lookup appId

/-! ## What the updates leave alone -/

section

variable {store : AppStore}

@[simp] theorem applyDelta_installed (now : UInt64) (appId : String) (delta : Int) :
    (store.applyDelta now appId delta).installed = store.installed := rfl

@[simp] theorem applyDelta_listings (now : UInt64) (appId : String) (delta : Int) :
    (store.applyDelta now appId delta).listings = store.listings := rfl

@[simp] theorem applyDelta_revocations (now : UInt64) (appId : String) (delta : Int) :
    (store.applyDelta now appId delta).revocations = store.revocations := rfl

theorem score_applyDelta_self (now : UInt64) (appId : String) (delta : Int) :
    ((store.applyDelta now appId delta).score appId).toNat
      = (max 0 (min 100 ((store.score appId).toNat + delta))).toNat := by
  unfold score applyDelta
  simp only [AList.lookup_insert, Option.getD_some]
  rw [UInt8.toNat_ofNat_of_lt']
  show _ < 256
  omega

theorem score_applyDelta_of_ne (now : UInt64) {appId x : String} (hne : x ≠ appId) (delta : Int) :
    (store.applyDelta now appId delta).score x = store.score x := by
  unfold score applyDelta
  rw [AList.lookup_insert_ne hne]

theorem mem_revokeApp {now : UInt64} {appId x : String} :
    x ∈ (store.revokeApp now appId).revocations.revokedAppIds
      ↔ x ∈ store.revocations.revokedAppIds ∨ x = appId := by
  unfold revokeApp
  simp only
  split
  · next hmem =>
    constructor
    · exact .inl
    · rintro (hx | rfl)
      · exact hx
      · exact hmem
  · rw [List.mem_append, List.mem_singleton]

end

end AppStore

end Mycelium.App
