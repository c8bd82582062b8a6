import Mycelium.App.Bundle
import Mycelium.App.Listings
import Mathlib.Data.Prod.Lex

/-!
# Mycelium app — installing a bundle

Translation of `mycelium-app/src/miniapp/install_policy.rs` and of `AppStore::install`: a preview
decides how far the cached listing vouches for a bundle, and the requested trust, the sidecar
signature and the version decide whether it is written.

* `installVerified_spec` — the one description of an install: what had to hold for it, and what
  it left behind;
* `StoreEvent` — the calls that change a store, and `installs_sound`, that along every run of them
  versions never go down and nothing unchecked is written;
* `revoked_restricted` — when a revoked app is confined to safe mode.
-/

namespace Mycelium.App

/-- How the host trusts a bundle at install time. -/
inductive InstallTrust where
  | verifiedListing
  | sideloadAcknowledged
deriving DecidableEq

structure InstallPreview where
  manifest : MiniAppManifest
  bundleHash : String
  trustLevel : InstallTrustLevel
  listingSignatureOk : Bool
  installedVersion : Option String
  isDowngrade : Bool
  hasInlineScript : Bool
  strictCspEligible : Bool
  bundleSignatureOk : Bool
  reproducibleAttested : Bool

/-- `parts` of `is_downgrade`: the first three numbers of a version, 0 for what is no number. -/
def versionParts (v : String) : ℕ ×ₗ ℕ ×ₗ ℕ :=
  let nums := (v.toList.splitOn '.').map fun s => (parseUnsigned (2 ^ 64) s).getD 0
  toLex (nums.getD 0 0, toLex (nums.getD 1 0, nums.getD 2 0))

/-- `is_downgrade`. -/
def isDowngrade (installed incoming : String) : Bool := versionParts incoming < versionParts installed

example : isDowngrade "1.10.0" "1.9.7" = true := by decide
example : isDowngrade "1.2.3" "1.2.3-beta" = true := by decide

/-- The limit on `total_size`. -/
def maxBundleBytes : Nat := 10 * 1024 * 1024

/-- `{:?}` of a trust level. -/
def InstallTrustLevel.debug : InstallTrustLevel → String
  | .verifiedListing => "VerifiedListing"
  | .matchingListingHash => "MatchingListingHash"
  | .sideloadOnly => "SideloadOnly"
  | .hashMismatch => "HashMismatch"

section

variable [Prims] [AppCodec] [BundlePrims]

/-- `entry_has_inline_script`. -/
def entryHasInlineScript (bundle : MiniAppBundle) : Bool :=
  match (bundle.getFile bundle.manifest.entry).bind fromUtf8 with
  | some html => htmlHasInlineScript html
  | none => false

namespace AppStore

/-- How far the cached listing of an id vouches for a bundle. -/
def trustLevel (store : AppStore) (appId hash : String) : InstallTrustLevel :=
  match store.findListing appId with
  | none => .sideloadOnly
  | some listing =>
    if listing.bundleHash = hash then
      if listing.verifySignature then .verifiedListing else .matchingListingHash
    else .hashMismatch

/-- `preview_install`. -/
def previewInstall (store : AppStore) (bundleBytes : Bytes) : Except String InstallPreview := do
  let bundle ← MiniAppBundle.loadFromBytes bundleBytes
  scanBundle bundle bundleBytes
  if store.isAppRevoked bundle.manifest.id then
    .error ("app id is revoked: " ++ bundle.manifest.id)
  else if maxBundleBytes < bundle.totalSize then .error "app bundle exceeds 10 MB limit"
  else
    let manifest := bundle.manifest
    let hash := bundleHashHex bundleBytes
    let hasInlineScript := entryHasInlineScript bundle
    let installedVersion := (store.getManifest manifest.id).map MiniAppManifest.version
    let bundleSignatureOk ← verifyBundleDeveloperSignature bundle bundleBytes
    return {
      manifest, bundleHash := hash, trustLevel := store.trustLevel manifest.id hash
      listingSignatureOk := store.trustLevel manifest.id hash = .verifiedListing
      installedVersion
      isDowngrade := installedVersion.any fun installed => App.isDowngrade installed manifest.version
      hasInlineScript, strictCspEligible := !hasInlineScript, bundleSignatureOk
      reproducibleAttested := manifest.reproducibleAttestsHash (contentAttestationHash bundle) }

/-- `install`: the manifest, then the files. -/
def install (store : AppStore) (bundleBytes : Bytes) : Except String (MiniAppManifest × AppStore) := do
  let bundle ← MiniAppBundle.loadFromBytes bundleBytes
  if maxBundleBytes < bundle.totalSize then .error "app bundle exceeds 10 MB limit"
  else
    let manifest := bundle.manifest
    let files := bundle.files.entries.foldl
      (fun files e => files.insert (manifest.id, e.1) e.2) store.files
    return (manifest, { store with installed := store.installed.insert manifest.id manifest, files })

end AppStore

/-- The table of `install_verified`: what is asked for against what the listing gives. -/
def checkTrust (trust : InstallTrust) (preview : InstallPreview) : Except String Unit :=
  match trust, preview.trustLevel with
  | .verifiedListing, .verifiedListing => .ok ()
  | .verifiedListing, .matchingListingHash =>
    .error ("listing signature invalid for " ++ preview.manifest.id
      ++ "; install blocked in verified mode")
  | .verifiedListing, level =>
    .error ("bundle not verified against signed listing (trust=" ++ level.debug ++ ")")
  | .sideloadAcknowledged, .hashMismatch =>
    .error "bundle hash does not match cached store listing"
  -- sideloading asks less of a listed bundle than of one no listing knows
  | .sideloadAcknowledged, .verifiedListing => .ok ()
  | .sideloadAcknowledged, .matchingListingHash => .ok ()
  | .sideloadAcknowledged, .sideloadOnly =>
    if preview.bundleSignatureOk then .ok ()
    else .error ("sideload requires valid " ++ bundleSigFile
      ++ " signed by developer_peer_id (SD-041)")

/-- The version check of `install_verified`. -/
def checkVersion (allowDowngrade : Bool) (preview : InstallPreview) : Except String Unit :=
  if preview.isDowngrade && !allowDowngrade then
    match preview.installedVersion with
    | some installed => .error ("downgrade blocked: installed v" ++ installed ++ " > incoming v"
        ++ preview.manifest.version)
    | none => .ok ()
  else .ok ()

/-- `install_verified`, with the time the score is dated. -/
def AppStore.installVerified (store : AppStore) (bundleBytes : Bytes) (trust : InstallTrust)
    (allowDowngrade : Bool) (now : UInt64) : Except String (MiniAppManifest × AppStore) := do
  let preview ← store.previewInstall bundleBytes
  checkTrust trust preview
  checkVersion allowDowngrade preview
  let (manifest, store) ← store.install bundleBytes
  return (manifest, store.recordInstallReputation now manifest.id preview.trustLevel)

/-! ## What an install says -/

omit [Prims] [AppCodec] [BundlePrims] in
/-- Where a sequence succeeds, its first part did. -/
theorem except_bind_ok {α β : Type} {x : Except String α} {f : α → Except String β} {b : β}
    (h : (x >>= f) = .ok b) : ∃ a, x = .ok a ∧ f a = .ok b := by
  cases x with
  | error e => cases h
  | ok a => exact ⟨a, rfl, h⟩

omit [Prims] [AppCodec] [BundlePrims] in
/-- And the other way round. -/
theorem except_bind_ok_iff {α β : Type} {x : Except String α} {f : α → Except String β} {b : β} :
    (x >>= f) = .ok b ↔ ∃ a, x = .ok a ∧ f a = .ok b := by
  refine ⟨except_bind_ok, ?_⟩
  rintro ⟨a, rfl, h⟩
  exact h

/-- What a preview that succeeds has checked, and what it shows. -/
theorem previewInstall_ok {store : AppStore} {bundleBytes : Bytes} {preview : InstallPreview}
    (h : store.previewInstall bundleBytes = .ok preview) :
    ∃ bundle, MiniAppBundle.loadFromBytes bundleBytes = .ok bundle
      ∧ scanBundle bundle bundleBytes = .ok ()
      ∧ store.isAppRevoked bundle.manifest.id = false
      ∧ bundle.totalSize ≤ maxBundleBytes
      ∧ preview.manifest = bundle.manifest
      ∧ preview.trustLevel = store.trustLevel bundle.manifest.id (bundleHashHex bundleBytes)
      ∧ preview.installedVersion
        = (store.getManifest bundle.manifest.id).map MiniAppManifest.version
      ∧ preview.isDowngrade = ((store.getManifest bundle.manifest.id).map
          MiniAppManifest.version).any (isDowngrade · bundle.manifest.version)
      ∧ verifyBundleDeveloperSignature bundle bundleBytes = .ok preview.bundleSignatureOk := by
  -- the checks in the order of the source: load, scan, revocation, size, signature
  obtain ⟨bundle, hload, h⟩ := except_bind_ok h
  obtain ⟨⟨⟩, hscan, h⟩ := except_bind_ok h
  split at h
  · cases h
  next hrevoked =>
  split at h
  · cases h
  next hsize =>
  obtain ⟨signatureOk, hsignature, h⟩ := except_bind_ok h
  obtain rfl := Except.ok.inj h
  exact ⟨bundle, hload, hscan, by simpa using hrevoked, Nat.le_of_not_lt hsize, rfl, rfl, rfl, rfl,
    hsignature⟩

/-- The bundle is the one that the cached listing names, signed if that was asked for; or nothing
is listed and its developer signed it. -/
def Vouched (listed : Option AppStoreListing) (trust : InstallTrust) (bundle : MiniAppBundle)
    (bundleBytes : Bytes) : Prop :=
  (∃ listing, listed = some listing ∧ listing.bundleHash = bundleHashHex bundleBytes
    ∧ (trust = .verifiedListing → listing.verifySignature = true))
  ∨ (listed = none ∧ SignedByDeveloper bundle bundleBytes)

/-- The eight cases of the trust table. -/
theorem vouched_of_checkTrust {store : AppStore} {bundle : MiniAppBundle} {bundleBytes : Bytes}
    {trust : InstallTrust} {preview : InstallPreview}
    (hlevel : preview.trustLevel
      = store.trustLevel bundle.manifest.id (bundleHashHex bundleBytes))
    (hsignature : verifyBundleDeveloperSignature bundle bundleBytes = .ok preview.bundleSignatureOk)
    (h : checkTrust trust preview = .ok ()) :
    Vouched (store.findListing bundle.manifest.id) trust bundle bundleBytes := by
  unfold AppStore.trustLevel at hlevel
  cases hfind : store.findListing bundle.manifest.id with
  | none =>
    rw [hfind] at hlevel
    right
    refine ⟨rfl, signedByDeveloper_of_verify ?_⟩
    unfold checkTrust at h
    rw [hlevel] at h
    cases trust with
    | verifiedListing => cases h
    | sideloadAcknowledged =>
      simp only at h
      split at h
      · next hok => rw [hsignature, hok]
      · cases h
  | some listing =>
    rw [hfind] at hlevel
    simp only at hlevel
    left
    split at hlevel
    · next hhash =>
      refine ⟨listing, rfl, hhash, fun htrust => ?_⟩
      subst htrust
      split at hlevel
      · next hverify => exact hverify
      · -- verified mode does not take an unsigned listing
        unfold checkTrust at h
        rw [hlevel] at h
        cases h
    · -- another hash is refused in both modes
      unfold checkTrust at h
      rw [hlevel] at h
      cases trust <;> cases h

omit [Prims] [AppCodec] [BundlePrims] in
/-- Without a downgrade the new version is not below the installed one. -/
theorem version_of_checkVersion {preview : InstallPreview} {installed incoming : String}
    (hinstalled : preview.installedVersion = some installed)
    (hdowngrade : preview.isDowngrade = isDowngrade installed incoming)
    (h : checkVersion false preview = .ok ()) : versionParts installed ≤ versionParts incoming := by
  unfold checkVersion at h
  rw [hinstalled, hdowngrade] at h
  by_contra hlt
  have hdown : isDowngrade installed incoming = true := by
    simpa [isDowngrade] using lt_of_not_ge hlt
  rw [hdown] at h
  cases h

omit [Prims] [AppCodec] in
/-- An install writes the manifest of the bundle, and files. -/
theorem install_ok {store store' : AppStore} {bundleBytes : Bytes} {manifest : MiniAppManifest}
    {bundle : MiniAppBundle} (hload : MiniAppBundle.loadFromBytes bundleBytes = .ok bundle)
    (h : store.install bundleBytes = .ok (manifest, store')) :
    manifest = bundle.manifest
      ∧ ∃ files, store'
        = { store with installed := store.installed.insert manifest.id manifest, files } := by
  obtain ⟨bundle', hload', h⟩ := except_bind_ok h
  obtain rfl : bundle = bundle' := Except.ok.inj (hload.symm.trans hload')
  split at h
  · cases h
  obtain ⟨rfl, rfl⟩ := Prod.mk.inj (Except.ok.inj h)
  exact ⟨rfl, _, rfl⟩

/-- An install went through: what had to hold for it, and the store it left. -/
structure Installs (store : AppStore) (bundleBytes : Bytes) (trust : InstallTrust)
    (allowDowngrade : Bool) (now : UInt64) (bundle : MiniAppBundle) (store' : AppStore) : Prop where
  loaded : MiniAppBundle.loadFromBytes bundleBytes = .ok bundle
  scanned : scanBundle bundle bundleBytes = .ok ()
  size : bundle.totalSize ≤ maxBundleBytes
  notRevoked : store.isAppRevoked bundle.manifest.id = false
  vouched : Vouched (store.findListing bundle.manifest.id) trust bundle bundleBytes
  version : allowDowngrade = false → ∀ m, store.getManifest bundle.manifest.id = some m →
    versionParts m.version ≤ versionParts bundle.manifest.version
  written : ∃ files level, store' = AppStore.recordInstallReputation
    { store with installed := store.installed.insert bundle.manifest.id bundle.manifest, files }
    now bundle.manifest.id level

/-- **An install is an `Installs`.** -/
theorem installVerified_spec {store store' : AppStore} {bundleBytes : Bytes} {trust : InstallTrust}
    {allowDowngrade : Bool} {now : UInt64} {manifest : MiniAppManifest}
    (h : store.installVerified bundleBytes trust allowDowngrade now = .ok (manifest, store')) :
    ∃ bundle, bundle.manifest = manifest
      ∧ Installs store bundleBytes trust allowDowngrade now bundle store' := by
  obtain ⟨preview, hpreview, h⟩ := except_bind_ok h
  obtain ⟨⟨⟩, htrust, h⟩ := except_bind_ok h
  obtain ⟨⟨⟩, hversion, h⟩ := except_bind_ok h
  obtain ⟨⟨manifest', installed⟩, hinstall, h⟩ := except_bind_ok h
  obtain ⟨rfl, rfl⟩ := Prod.mk.inj (Except.ok.inj h)
  obtain ⟨bundle, hload, hscan, hrevoked, hsize, -, hlevel, hinstalled, hdowngrade, hsignature⟩ :=
    previewInstall_ok hpreview
  obtain ⟨rfl, files, rfl⟩ := install_ok hload hinstall
  refine ⟨bundle, rfl, hload, hscan, hsize, hrevoked, vouched_of_checkTrust hlevel hsignature htrust,
    ?_, files, preview.trustLevel, rfl⟩
  rintro rfl m hm
  rw [hm] at hinstalled hdowngrade
  exact version_of_checkVersion hinstalled hdowngrade hversion

/-! ## Runs of a store -/

omit [Prims] [AppCodec] [BundlePrims] in
/-- `uninstall`. -/
def AppStore.uninstall (store : AppStore) (appId : String) : AppStore :=
  { store with
    installed := store.installed.erase appId
    files := ⟨store.files.entries.filter fun e => e.1.1 ≠ appId,
      store.files.nodupKeys.sublist List.filter_sublist⟩ }

/-- `AppStore::open` on a database that is there already: the shipped revocations and listings are
merged. -/
def AppStore.reopen (store : AppStore) (now : UInt64) (bundled : List AppStoreListing) : AppStore :=
  (store.mergeBundledDefaults now bundledRevocations).mergeBundledListings bundled

omit [BundlePrims] in
/-- What a message with a listing does to the store. -/
def AppStore.ingestListing (store : AppStore) (listing : AppStoreListing) : AppStore :=
  if listing.verifySignature then store.cacheListing listing else store

/-- A call that changes a store, with the readings of the clock it makes. -/
inductive StoreEvent where
  | installVerified (bundleBytes : Bytes) (trust : InstallTrust) (allowDowngrade : Bool)
      (now : UInt64)
  | uninstall (appId : String)
  /-- A listing that came with a message. -/
  | ingestListing (listing : AppStoreListing)
  | revokeLocal (now : UInt64) (appId : String)
  | ingestRevocation (now now' : UInt64) (entry : RevocationGossip)
  | reopen (now : UInt64) (bundled : List AppStoreListing)
  | setUserSafeMode (appId : String) (enabled : Bool)
  | userReport (now : UInt64) (appId : String)
  | bridgeAnomaly (now : UInt64) (appId : String)

namespace AppStore

def step (store : AppStore) : StoreEvent → AppStore
  | .installVerified bundleBytes trust allowDowngrade now =>
    match store.installVerified bundleBytes trust allowDowngrade now with
    | .ok (_, store') => store'
    | .error _ => store
  | .uninstall appId => store.uninstall appId
  | .ingestListing listing => store.ingestListing listing
  | .revokeLocal now appId => store.revokeAppLocal now appId
  | .ingestRevocation now now' entry => (store.ingestRevocationGossip now now' entry).2
  | .reopen now bundled => store.reopen now bundled
  | .setUserSafeMode appId enabled => store.setUserSafeMode appId enabled
  | .userReport now appId => store.recordUserReport now appId
  | .bridgeAnomaly now appId => store.recordBridgeAnomaly now appId

def run (store : AppStore) (events : List StoreEvent) : AppStore := events.foldl step store

/-- One more event at the end. -/
theorem run_concat (store : AppStore) (events : List StoreEvent) (e : StoreEvent) :
    store.run (events ++ [e]) = (store.run events).step e := by
  rw [run, List.foldl_append]
  rfl

/-- One step of an install: it is an `Installs`, or nothing happened. -/
theorem step_install (store : AppStore) (bundleBytes : Bytes) (trust : InstallTrust)
    (allowDowngrade : Bool) (now : UInt64) :
    store.step (.installVerified bundleBytes trust allowDowngrade now) = store
    ∨ ∃ bundle, Installs store bundleBytes trust allowDowngrade now bundle
        (store.step (.installVerified bundleBytes trust allowDowngrade now)) := by
  cases hres : store.installVerified bundleBytes trust allowDowngrade now with
  | error e => exact .inl (by simp only [step, hres])
  | ok result =>
    obtain ⟨manifest, store'⟩ := result
    obtain ⟨bundle, -, hinstalls⟩ := installVerified_spec hres
    exact .inr ⟨bundle, by simpa only [step, hres] using hinstalls⟩

/-! Merging shipped listings writes listings only, each under its own id. -/

omit [BundlePrims] in
/-- Bundled listings are merged into the listings only, under their own ids. -/
theorem mergeBundledListings_spec (store : AppStore) (bundled : List AppStoreListing) :
    (∃ listings, store.mergeBundledListings bundled = { store with listings })
    ∧ (store.Keyed → (store.mergeBundledListings bundled).Keyed) := by
  induction bundled generalizing store with
  | nil => exact ⟨⟨store.listings, rfl⟩, id⟩
  | cons listing rest ih =>
    unfold mergeBundledListings
    cases hmerge : store.mergeBundledListing listing with
    | error e => exact ⟨⟨store.listings, rfl⟩, id⟩
    | ok next =>
      -- a bundled listing is cached or skipped, an error ends the merge with what it has
      have hnext : next = store ∨ next = store.cacheListing listing := by
        unfold mergeBundledListing at hmerge
        split at hmerge
        · cases hmerge
        · exact .inl (Except.ok.inj hmerge).symm
        · split at hmerge
          · exact .inr (Except.ok.inj hmerge).symm
          · split at hmerge
            · exact .inr (Except.ok.inj hmerge).symm
            · exact .inl (Except.ok.inj hmerge).symm
      obtain ⟨⟨listings, hlistings⟩, hkeyed⟩ := ih next
      simp only
      rcases hnext with rfl | rfl
      · exact ⟨⟨listings, hlistings⟩, hkeyed⟩
      · exact ⟨⟨listings, hlistings⟩, fun h => hkeyed (h.cacheListing listing)⟩

omit [BundlePrims] in
/-- No revocation is shipped, so reopening writes listings only. -/
theorem reopen_eq (store : AppStore) (now : UInt64) (bundled : List AppStoreListing) :
    ∃ listings, store.reopen now bundled = { store with listings } :=
  (mergeBundledListings_spec store bundled).1

/-- No event puts a listing or manifest under another id. -/
theorem step_keyed {store : AppStore} (h : store.Keyed) (e : StoreEvent) : (store.step e).Keyed := by
  cases e with
  | installVerified bundleBytes trust allowDowngrade now =>
    -- no event but a listing and the bundled ones writes listings
    rcases step_install store bundleBytes trust allowDowngrade now with hsame | ⟨bundle, hinstalls⟩
    · rw [hsame]
      exact h
    · obtain ⟨files, level, hwritten⟩ := hinstalls.written
      rw [hwritten]
      exact h
  | uninstall appId => exact h
  | ingestListing listing =>
    show (store.ingestListing listing).Keyed
    unfold ingestListing
    split
    · exact h.cacheListing listing
    · exact h
  | revokeLocal now appId => exact h
  | ingestRevocation now now' entry =>
    intro id l hl
    refine h id l ?_
    rw [← ingestRevocationGossip_listings store now now' entry]
    exact hl
  | reopen now bundled => exact (mergeBundledListings_spec store bundled).2 h
  | setUserSafeMode appId enabled => exact h
  | userReport now appId => exact h
  | bridgeAnomaly now appId => exact h

/-- Nor does a run. Induction on the events. -/
theorem run_keyed {store : AppStore} (h : store.Keyed) (events : List StoreEvent) :
    (store.run events).Keyed := by
  induction events generalizing store with
  | nil => exact h
  | cons e events ih => exact ih (step_keyed h e)

omit [Prims] [AppCodec] [BundlePrims] in
/-- The empty store has no ids. -/
theorem keyed_empty : ({} : AppStore).Keyed := fun _ _ h => absurd h (by simp)

end AppStore

/-! ## Installs are sound -/

/-- Not an uninstall, and no install that may go back to an older version. -/
def StoreEvent.KeepsVersions : StoreEvent → Prop
  | .installVerified _ _ allowDowngrade _ => allowDowngrade = false
  | .uninstall _ => False
  | _ => True

/-- What a step writes is either nothing, or a bundle that passed every check. -/
def WritesChecked (store : AppStore) (e : StoreEvent) : Prop :=
  ((store.step e).installed = store.installed ∧ (store.step e).files = store.files)
  ∨ ∃ bundleBytes trust now bundle, e = .installVerified bundleBytes trust false now
      ∧ MiniAppBundle.loadFromBytes bundleBytes = .ok bundle
      ∧ scanBundle bundle bundleBytes = .ok ()
      ∧ bundle.totalSize ≤ maxBundleBytes
      ∧ store.isAppRevoked bundle.manifest.id = false
      ∧ Vouched (store.listings.lookup bundle.manifest.id) trust bundle bundleBytes
      ∧ (store.step e).getManifest bundle.manifest.id = some bundle.manifest

/-- What one event writes, it has checked. -/
theorem step_writesChecked {store : AppStore} (hkeyed : store.Keyed) {e : StoreEvent}
    (he : e.KeepsVersions) : WritesChecked store e := by
  cases e with
  | installVerified bundleBytes trust allowDowngrade now =>
    -- an install that may not downgrade passed every check, or wrote nothing
    obtain rfl : allowDowngrade = false := he
    rcases AppStore.step_install store bundleBytes trust false now with hsame | ⟨bundle, h⟩
    · exact .inl (by rw [hsame]; exact ⟨rfl, rfl⟩)
    · refine .inr ⟨bundleBytes, trust, now, bundle, rfl, h.loaded, h.scanned, h.size, h.notRevoked,
        ?_, ?_⟩
      · rw [← AppStore.findListing_eq_lookup hkeyed]
        exact h.vouched
      · obtain ⟨files, level, hwritten⟩ := h.written
        rw [hwritten]
        exact AList.lookup_insert _
  | uninstall appId => exact he.elim
  | ingestListing listing =>
    refine .inl ?_
    show (store.ingestListing listing).installed = _ ∧ (store.ingestListing listing).files = _
    unfold AppStore.ingestListing
    split <;> exact ⟨rfl, rfl⟩
  | revokeLocal now appId => exact .inl ⟨rfl, rfl⟩
  | ingestRevocation now now' entry =>
    refine .inl ?_
    show (store.ingestRevocationGossip now now' entry).2.installed = _
      ∧ (store.ingestRevocationGossip now now' entry).2.files = _
    unfold AppStore.ingestRevocationGossip
    split <;> exact ⟨rfl, rfl⟩
  | reopen now bundled =>
    obtain ⟨listings, hreopen⟩ := store.reopen_eq now bundled
    refine .inl ?_
    show (store.reopen now bundled).installed = _ ∧ (store.reopen now bundled).files = _
    rw [hreopen]
    exact ⟨rfl, rfl⟩
  | setUserSafeMode appId enabled => exact .inl ⟨rfl, rfl⟩
  | userReport now appId => exact .inl ⟨rfl, rfl⟩
  | bridgeAnomaly now appId => exact .inl ⟨rfl, rfl⟩

/-- One step keeps an app installed, at no lower version. -/
theorem step_version {store : AppStore} (hkeyed : store.Keyed) {e : StoreEvent}
    (he : e.KeepsVersions) {id : String} {m : MiniAppManifest} (hm : store.getManifest id = some m) :
    ∃ m', (store.step e).getManifest id = some m'
      ∧ versionParts m.version ≤ versionParts m'.version := by
  rcases step_writesChecked hkeyed he with ⟨hsame, -⟩ | ⟨bundleBytes, trust, now, -, rfl, -⟩
  · exact ⟨m, by rw [AppStore.getManifest, hsame]; exact hm, le_rfl⟩
  rcases AppStore.step_install store bundleBytes trust false now with hsame | ⟨bundle, h⟩
  · exact ⟨m, by rw [hsame]; exact hm, le_rfl⟩
  obtain ⟨files, level, hwritten⟩ := h.written
  rw [hwritten]
  by_cases hid : id = bundle.manifest.id
  · subst hid
    exact ⟨bundle.manifest, AList.lookup_insert _, h.version rfl m hm⟩
  · exact ⟨m, (AList.lookup_insert_ne hid).trans hm, le_rfl⟩

/-- Along a run the installed version does not go down. Induction on the events. -/
theorem run_version {store : AppStore} (hkeyed : store.Keyed) {events : List StoreEvent}
    (hevents : ∀ e ∈ events, e.KeepsVersions) {id : String} {m : MiniAppManifest}
    (hm : store.getManifest id = some m) :
    ∃ m', (store.run events).getManifest id = some m'
      ∧ versionParts m.version ≤ versionParts m'.version := by
  induction events generalizing store m with
  | nil => exact ⟨m, hm, le_rfl⟩
  | cons e events ih =>
    obtain ⟨m₁, hm₁, hle₁⟩ := step_version hkeyed (hevents e List.mem_cons_self) hm
    obtain ⟨m₂, hm₂, hle₂⟩ := ih (AppStore.step_keyed hkeyed e)
      (fun e' he' => hevents e' (List.mem_cons_of_mem e he')) hm₁
    exact ⟨m₂, hm₂, hle₁.trans hle₂⟩

/-- **Installs are sound.** Along every run without uninstalls and without installs that may
downgrade: once an app is installed it stays so at no lower version, and every step that writes a
bundle writes one that was scanned, within the size limit, not revoked, and vouched for by what
was listed at that moment. -/
theorem installs_sound {events : List StoreEvent} (hevents : ∀ e ∈ events, e.KeepsVersions) :
    (∀ done later, events = done ++ later → ∀ id m,
      (({} : AppStore).run done).getManifest id = some m →
      ∃ m', (({} : AppStore).run events).getManifest id = some m'
        ∧ versionParts m.version ≤ versionParts m'.version)
    ∧ ∀ done e later, events = done ++ e :: later → WritesChecked (({} : AppStore).run done) e := by
  constructor
  · rintro done later rfl id m hm
    rw [AppStore.run, List.foldl_append]
    exact run_version (AppStore.run_keyed AppStore.keyed_empty done)
      (fun e he => hevents e (List.mem_append_right done he)) hm
  · rintro done e later rfl
    exact step_writesChecked (AppStore.run_keyed AppStore.keyed_empty done)
      (hevents e (List.mem_append_right done List.mem_cons_self))

end

section

attribute [local instance] symbolicPrims Node.noCodec listingCodec

/-- Every archive holds its own bytes as manifest and one page; the manifest is the one of the
listing that its first byte names. -/
@[reducible] def symbolicBundles : BundlePrims where
  zipEntries bytes := .ok [⟨"mycelium-app.json", false, some bytes⟩,
    ⟨"index.html", false, some (asBytes "<html></html>")⟩]
  parseManifest bytes := .ok (symbolicListing (bytes.headD 0) 5).manifest
  parseBundleSignature _ := .error "expected value"
  toLowercase s := String.ofList (s.toList.map Char.toLower)

attribute [local instance] symbolicBundles

/-- The bundle of peer 1 is installed after its listing came in. -/
def listedInstall : List StoreEvent :=
  [.ingestListing (symbolicListing 1 5), .installVerified [1] .verifiedListing false 9]

/-- It is installed, and stays so when the app is put into safe mode. -/
theorem installs_sound_listed :
    (({} : AppStore).run listedInstall).getManifest "com.app.x"
      = some (symbolicListing 1 5).manifest
    ∧ ∃ m', (({} : AppStore).run (listedInstall ++ [.setUserSafeMode "com.app.x" true])
          ).getManifest "com.app.x" = some m'
        ∧ versionParts (symbolicListing 1 5).manifest.version ≤ versionParts m'.version := by
  have hinstalled : (({} : AppStore).run listedInstall).getManifest "com.app.x"
      = some (symbolicListing 1 5).manifest := by
    decide +kernel
  refine ⟨hinstalled, (installs_sound ?_).1 listedInstall _ rfl "com.app.x" _ hinstalled⟩
  intro e he
  simp only [listedInstall, List.cons_append, List.nil_append, List.mem_cons, List.not_mem_nil,
    or_false] at he
  rcases he with rfl | rfl | rfl
  · trivial
  · rfl
  · trivial

end

/-! ## Revoked apps -/

/-- A local revocation is of an app that is revoked already, or whose score forces safe mode. -/
def Restricts (store : AppStore) : StoreEvent → Prop
  | .revokeLocal _ appId =>
    store.isAppRevoked appId = true ∨ AppStore.forcedSafeMode (store.score appId) = true
  | _ => True

/-- Scores are at most 100, and those of revoked apps force safe mode. -/
structure Confines (store : AppStore) : Prop where
  scores : ∀ x, (store.score x).toNat ≤ 100
  revoked : ∀ x ∈ store.revocations.revokedAppIds, (store.score x).toNat < 40

namespace Confines

variable {store : AppStore}

/-- Only the revocations and the reputations matter. -/
theorem of_same {store' : AppStore} (h : Confines store)
    (hrev : store'.revocations = store.revocations) (hrep : store'.reputations = store.reputations) :
    Confines store' where
  scores x := by
    unfold AppStore.score
    rw [hrep]
    exact h.scores x
  revoked x hx := by
    unfold AppStore.score
    rw [hrep]
    rw [hrev] at hx
    exact h.revoked x hx

/-- A score may change if it goes down, or if the app is not revoked. -/
theorem applyDelta (h : Confines store) (now : UInt64) (appId : String) (delta : Int)
    (hdelta : delta ≤ 0 ∨ appId ∉ store.revocations.revokedAppIds) :
    Confines (store.applyDelta now appId delta) where
  scores x := by
    by_cases hx : x = appId
    · subst hx
      rw [AppStore.score_applyDelta_self]
      omega
    · rw [AppStore.score_applyDelta_of_ne now hx]
      exact h.scores x
  revoked x hx := by
    rw [AppStore.applyDelta_revocations] at hx
    have hbefore := h.revoked x hx
    by_cases hid : x = appId
    · subst hid
      rw [AppStore.score_applyDelta_self]
      rcases hdelta with hdelta | hnot
      · omega
      · exact absurd hx hnot
    · rw [AppStore.score_applyDelta_of_ne now hid]
      exact hbefore

/-- Revoking an app with a low score. -/
theorem revokeApp (h : Confines store) (now : UInt64) {appId : String}
    (happ : (store.score appId).toNat < 40) : Confines (store.revokeApp now appId) where
  scores := h.scores
  revoked x hx := by
    rcases AppStore.mem_revokeApp.mp hx with hx | rfl
    · exact h.revoked x hx
    · exact happ

/-- A revocation by gossip takes the whole score away. -/
theorem revoked_by_gossip (h : Confines store) (now now' : UInt64) (appId : String) :
    Confines ((store.revokeApp now appId).recordRevocationHit now' appId) where
  scores x := by
    by_cases hx : x = appId
    · subst hx
      rw [AppStore.recordRevocationHit, AppStore.score_applyDelta_self]
      omega
    · rw [AppStore.recordRevocationHit, AppStore.score_applyDelta_of_ne now' hx]
      exact h.scores x
  revoked x hx := by
    have hbound := h.scores x
    by_cases hid : x = appId
    · subst hid
      rw [AppStore.recordRevocationHit, AppStore.score_applyDelta_self]
      show (max 0 (min 100 (((store.score x).toNat : Int) + -100))).toNat < 40
      omega
    · rw [AppStore.recordRevocationHit, AppStore.score_applyDelta_of_ne now' hid]
      exact h.revoked x ((AppStore.mem_revokeApp.mp hx).resolve_right hid)

end Confines

/-- The empty store revokes nobody. -/
theorem confines_empty : Confines {} where
  scores x := by
    show ((({} : AppStore).reputations.lookup x).getD {}).score.toNat ≤ 100
    simp
  revoked x hx := absurd hx List.not_mem_nil

section

variable [Prims] [AppCodec] [BundlePrims]

/-- One event, if it restricts where it must. -/
theorem step_confines {store : AppStore} (h : Confines store) {e : StoreEvent}
    (he : Restricts store e) : Confines (store.step e) := by
  cases e with
  | installVerified bundleBytes trust allowDowngrade now =>
    rcases AppStore.step_install store bundleBytes trust allowDowngrade now with hsame | ⟨bundle, hi⟩
    · rw [hsame]
      exact h
    · -- a revoked app is not installed, so no score of one goes up
      obtain ⟨files, level, hwritten⟩ := hi.written
      rw [hwritten]
      have hwrote : Confines { store with
          installed := store.installed.insert bundle.manifest.id bundle.manifest, files } :=
        h.of_same rfl rfl
      exact hwrote.applyDelta now _ _
        (.inr (by simpa [AppStore.isAppRevoked] using hi.notRevoked))
  | uninstall appId => exact h.of_same rfl rfl
  | ingestListing listing =>
    show Confines (store.ingestListing listing)
    unfold AppStore.ingestListing
    split
    · exact h.of_same rfl rfl
    · exact h
  | revokeLocal now appId =>
    refine h.revokeApp now ?_
    rcases he with hrevoked | hforced
    · exact h.revoked appId (by simpa [AppStore.isAppRevoked] using hrevoked)
    · simpa [AppStore.forcedSafeMode, UInt8.lt_iff_toNat_lt] using hforced
  | ingestRevocation now now' entry =>
    show Confines (store.ingestRevocationGossip now now' entry).2
    unfold AppStore.ingestRevocationGossip
    split
    · exact h
    · exact h
    · exact h.revoked_by_gossip now now' entry.appId
  | reopen now bundled =>
    obtain ⟨listings, hreopen⟩ := store.reopen_eq now bundled
    show Confines (store.reopen now bundled)
    rw [hreopen]
    exact h.of_same rfl rfl
  | setUserSafeMode appId enabled => exact h.of_same rfl rfl
  | userReport now appId => exact h.applyDelta now appId _ (.inl (by decide))
  | bridgeAnomaly now appId => exact h.applyDelta now appId _ (.inl (by decide))

/-- A run of such events. Induction on the events, from the last one. -/
theorem run_confines {events : List StoreEvent}
    (hevents : ∀ done e later, events = done ++ e :: later → Restricts (({} : AppStore).run done) e) :
    Confines (({} : AppStore).run events) := by
  induction events using List.reverseRecOn with
  | nil => exact confines_empty
  | append_singleton events e ih =>
    rw [AppStore.run_concat]
    refine step_confines (ih fun done e' later hsplit => ?_) (hevents events e [] rfl)
    exact hevents done e' (later ++ [e]) (by rw [hsplit, List.append_assoc, List.cons_append])

/-- **A revoked app is restricted**, in every state of every run in which a local revocation is
only made of an app that is revoked or restricted already. -/
theorem revoked_restricted {events : List StoreEvent}
    (hevents : ∀ done e later, events = done ++ e :: later → Restricts (({} : AppStore).run done) e)
    {x : String} (hrevoked : (({} : AppStore).run events).isAppRevoked x = true) :
    (({} : AppStore).run events).effectiveSafeMode x = true := by
  have hscore := (run_confines hevents).revoked x (by simpa [AppStore.isAppRevoked] using hrevoked)
  unfold AppStore.effectiveSafeMode AppStore.forcedSafeMode
  rw [Bool.or_eq_true]
  exact .inr (by simpa [UInt8.lt_iff_toNat_lt] using hscore)

end

section

attribute [local instance] symbolicPrims Node.noCodec listingCodec symbolicBundles

/-- A revocation that peer 3 signed. -/
def symbolicRevocation : RevocationGossip :=
  let entry : RevocationGossip :=
    { appId := "com.app.x", reason := "malware", revokedAtMs := 9
      curatorPeerId := Node.symbolicPeer 3, signature := [] }
  { entry with signature := (symbolicKey 3).secret.toList ++ entry.signableBytes }

/-- An installed app is revoked by gossip and cannot leave safe mode. -/
theorem revoked_restricted_gossip :
    (({} : AppStore).run (listedInstall
      ++ [.ingestRevocation 9 9 symbolicRevocation, .setUserSafeMode "com.app.x" false]
      )).effectiveSafeMode "com.app.x" = true := by
  refine revoked_restricted ?_ (by decide +kernel)
  intro done e later hsplit
  -- no step of this run is a local revocation
  have he : e ∈ listedInstall
      ++ [.ingestRevocation 9 9 symbolicRevocation, .setUserSafeMode "com.app.x" false] := by
    rw [hsplit]
    exact List.mem_append_right done List.mem_cons_self
  simp only [listedInstall, List.cons_append, List.nil_append, List.mem_cons, List.not_mem_nil,
    or_false] at he
  rcases he with rfl | rfl | rfl | rfl <;> trivial

/-- An installed app that is revoked locally keeps its score, and runs without safe mode. -/
theorem locally_revoked_unrestricted :
    (({} : AppStore).run (listedInstall ++ [.revokeLocal 9 "com.app.x"])).isAppRevoked "com.app.x"
      = true
    ∧ (({} : AppStore).run (listedInstall ++ [.revokeLocal 9 "com.app.x"])).effectiveSafeMode
        "com.app.x" = false := by
  decide +kernel

end

end Mycelium.App
