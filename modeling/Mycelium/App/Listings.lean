import Mycelium.App.Routes
import Mycelium.App.Attribution
import Mycelium.Lib.Register

/-!
# Mycelium app — the cache of store listings

A listing reaches the cache over gossip, or at start from the listings shipped with the app.
Each is checked against the key its own manifest names, and stored under the id its manifest
names; who published the id before is not looked at (`developer_kept_iff`). The shipped ones are
not written over a later one, those from gossip always are (`newest_cached_iff`).

* `Host` — the app with the store it calls, and `receive_listings`, what a message does to the
  cache;
* `findListing_eq_lookup` — what the installer finds is what the cache holds.
-/

namespace Mycelium.App

/-! ## What is cached under an id -/

/-- A listing is stored under its own id. -/
def AppStore.Keyed (store : AppStore) : Prop :=
  ∀ id l, store.listings.lookup id = some l → l.manifest.id = id

namespace AppStore

variable {store : AppStore}

/-- A listing is cached under its own id. -/
theorem Keyed.cacheListing (h : store.Keyed) (listing : AppStoreListing) :
    (store.cacheListing listing).Keyed := by
  intro id l hl
  by_cases hid : id = listing.manifest.id
  · subst hid
    have hsame : (store.cacheListing listing).listings.lookup listing.manifest.id = some listing :=
      AList.lookup_insert _
    rw [← Option.some.inj (hsame.symm.trans hl)]
  · have hother : (store.cacheListing listing).listings.lookup id = store.listings.lookup id :=
      AList.lookup_insert_ne hid
    exact h id l (hother.symm.trans hl)

/-- Browsing shows what is cached. -/
theorem mem_browseListings {l : AppStoreListing} :
    l ∈ store.browseListings ↔ ∃ id, store.listings.lookup id = some l := by
  rw [browseListings, List.mem_mergeSort, ← KvTree.mem_values_iff, KvTree.values, List.mem_map,
    List.mem_map]
  simp only [List.mem_mergeSort]

/-- The search over all listings finds what is stored under the id. -/
theorem findListing_eq_lookup (h : store.Keyed) (id : String) :
    store.findListing id = store.listings.lookup id := by
  unfold findListing
  cases hfind : store.browseListings.find? fun l => decide (l.manifest.id = id) with
  | some l =>
    obtain ⟨id', hl⟩ := mem_browseListings.mp (List.mem_of_find?_eq_some hfind)
    have hid : l.manifest.id = id := by simpa using List.find?_some hfind
    rw [← hid, h id' l hl, hl]
  | none =>
    cases hlookup : store.listings.lookup id with
    | none => rfl
    | some l =>
      have hmiss := List.find?_eq_none.mp hfind l (mem_browseListings.mpr ⟨id, hlookup⟩)
      exact absurd (h id l hlookup) (by simpa using hmiss)

end AppStore

/-- `AppStoreListing::new_signed`, with the time it reads. -/
def AppStoreListing.newSigned [Prims] [AppCodec] (manifest : MiniAppManifest) (bundleBytes : Bytes)
    (sources : List AppSource) (now : UInt64) (keypair : Keypair) : Option AppStoreListing := do
  let listing : AppStoreListing :=
    { manifest, bundleHash := hexEncode (Prims.blake3 bundleBytes).toList, sources
      publishedAtMs := now, updatedAtMs := now, signature := [] }
  let signature ← Prims.identity.sign keypair listing.signableBytes
  return { listing with signature }

/-! ## Messages -/

/-- An app and the store it holds. -/
structure Host where
  app : AppNode
  store : AppStore

/-- A message as it comes in, with the readings of the clock made while it is handled. -/
structure Arrival where
  msg : DirectMessage
  now : UInt64
  revokedMs : UInt64
  scoredMs : UInt64

/-- What an output does to the store. -/
def AppStore.serve [Prims] (a : Arrival) (store : AppStore) : AppOutput → AppStore
  | .cacheListing listing => store.cacheListing listing
  | .ingestRevocation entry => (store.ingestRevocationGossip a.revokedMs a.scoredMs entry).2
  | _ => store

section

variable [Prims] [AppCodec]

/-- The listing a message carries; a message under another tag is not looked into. -/
def carriedListing (msg : DirectMessage) : Option AppStoreListing :=
  if msg.body = "[mycelium:group]" ∨ msg.body = "[proximity]"
      ∨ (AppNode.bulletinScope msg.body).isSome then none
  else
    match AppCodec.decodeAppMessage msg.envelope.payload with
    | some { payload := .appStoreListing listing } => some listing
    | _ => none

/-- A message is routed as a listing exactly if it carries one. -/
theorem route_listing_iff {app : AppNode} {msg : DirectMessage} {listing : AppStoreListing} :
    app.route msg.body msg.envelope.payload = .payload (.appStoreListing listing)
      ↔ carriedListing msg = some listing := by
  unfold AppNode.route carriedListing
  by_cases hgroup : msg.body = "[mycelium:group]"
  · simp [hgroup]
  by_cases hprox : msg.body = "[proximity]"
  · simp [hprox]
  rw [if_neg hgroup, if_neg hprox]
  cases hscope : AppNode.bulletinScope msg.body with
  | some scope =>
    rw [if_pos (by simp)]
    simp only [reduceCtorEq, iff_false]
    split <;> simp
  | none =>
    rw [if_neg (by simp [hgroup, hprox])]
    cases AppCodec.decodeAppMessage msg.envelope.payload with
    | none => simp
    | some appMsg =>
      obtain ⟨p⟩ := appMsg
      cases p <;> simp

variable [Node.WireCodec]

/-- The app handles a message, and the store the calls the app makes. -/
def Host.receive (h : Host) (a : Arrival) : Host :=
  let app := h.app.dispatchIncoming a.now a.msg
  { app, store := (app.out.drop h.app.out.length).foldl (AppStore.serve a) h.store }

def Host.receiveAll (h : Host) (arrivals : List Arrival) : Host := arrivals.foldl Host.receive h

omit [AppCodec] [Node.WireCodec] in
/-- Only calls of the store change the store. -/
theorem foldl_serve_filter (a : Arrival) (outputs : List AppOutput) (store : AppStore) :
    outputs.foldl (AppStore.serve a) store
      = (outputs.filter AppOutput.isStoreCall).foldl (AppStore.serve a) store := by
  induction outputs generalizing store with
  | nil => rfl
  | cons o outputs ih =>
    cases o with
    | cacheListing listing => exact ih _
    | ingestRevocation entry => exact ih _
    | _ => exact ih store

/-- A message changes the store by the calls of its route. -/
theorem receive_store (h : Host) (a : Arrival) :
    (h.receive a).store
      = ((h.app.route a.msg.body a.msg.envelope.payload).storeCalls h.app).foldl
          (AppStore.serve a) h.store := by
  obtain ⟨-, new, hout, hcalls⟩ := Handler.run_storeCalls a.now a.msg h.app
    (h.app.route a.msg.body a.msg.envelope.payload)
  rw [← dispatchIncoming_eq_run] at hout
  rw [← hcalls, ← foldl_serve_filter]
  show ((h.app.dispatchIncoming a.now a.msg).out.drop h.app.out.length).foldl _ _ = _
  rw [hout, List.drop_left]

/-- It does not switch the app store off. -/
theorem receive_appStore (h : Host) (a : Arrival) :
    (h.receive a).app.appStore = h.app.appStore := by
  have hcalls := Handler.run_storeCalls a.now a.msg h.app
    (h.app.route a.msg.body a.msg.envelope.payload)
  rw [← dispatchIncoming_eq_run] at hcalls
  exact hcalls.appStore

omit [AppCodec] [Node.WireCodec] in
/-- A revocation does not touch the listings. -/
theorem ingestRevocationGossip_listings (store : AppStore) (now now' : UInt64)
    (entry : RevocationGossip) :
    (store.ingestRevocationGossip now now' entry).2.listings = store.listings := by
  unfold AppStore.ingestRevocationGossip
  split <;> rfl

/-- **What a message does to the cache**: the listing it carries is written if its signature
checks. -/
theorem receive_listings {h : Host} (hstore : h.app.appStore = true) (a : Arrival) :
    (h.receive a).store.listings
      = match carriedListing a.msg with
        | some listing =>
          if listing.verifySignature then (h.store.cacheListing listing).listings
          else h.store.listings
        | none => h.store.listings := by
  rw [receive_store]
  -- by the handler; only the one of listings writes the table
  match hroute : h.app.route a.msg.body a.msg.envelope.payload with
  | .payload (.appStoreListing listing) =>
    rw [route_listing_iff.mp hroute]
    simp only [Handler.storeCalls, hstore, Bool.and_true]
    split <;> rfl
  | .payload (.miniAppRevocation entry) =>
    have hnone : carriedListing a.msg = none := by
      cases hcarried : carriedListing a.msg with
      | none => rfl
      | some listing => exact absurd (hroute.symm.trans (route_listing_iff.mpr hcarried)) (by simp)
    rw [hnone]
    simp only [Handler.storeCalls, hstore, if_true, List.foldl_cons, List.foldl_nil,
      AppStore.serve]
    exact ingestRevocationGossip_listings _ _ _ _
  -- the other handlers carry no listing and leave the store alone
  | .group _ | .proximity _ | .dropped | .payload (.chat _) | .payload (.bulletin _)
  | .payload (.mail _) | .payload (.coin _) =>
    have hnone : carriedListing a.msg = none := by
      cases hcarried : carriedListing a.msg with
      | none => rfl
      | some listing => exact absurd (hroute.symm.trans (route_listing_iff.mpr hcarried)) (by simp)
    rw [hnone]
    rfl

omit [Node.WireCodec] in
/-- The listing for `x` that a message brings, if its signature checks under the key it names. -/
def Arrival.signedListing (x : String) (a : Arrival) : Option AppStoreListing :=
  (carriedListing a.msg).filter fun l => l.verifySignature && l.manifest.id = x

/-- A message puts the valid listing it carries into the cache, whatever was there. -/
theorem receive_lookup {h : Host} (hstore : h.app.appStore = true) (a : Arrival) (x : String) :
    (h.receive a).store.listings.lookup x
      = (a.signedListing x).or (h.store.listings.lookup x) := by
  rw [receive_listings hstore, Arrival.signedListing]
  cases carriedListing a.msg with
  | none => rfl
  | some l =>
    simp only [Option.filter_some]
    cases hsig : l.verifySignature with
    | false => rfl
    | true =>
      by_cases hid : l.manifest.id = x
      · subst hid
        simp [AppStore.cacheListing]
      · simp only [if_true, Bool.true_and, hid, decide_false, Bool.false_eq_true, if_false,
          Option.none_or]
        exact AList.lookup_insert_ne (Ne.symm hid)

/-- No sequence of messages switches the app store off. -/
theorem receiveAll_appStore (h : Host) (arrivals : List Arrival) :
    (h.receiveAll arrivals).app.appStore = h.app.appStore := by
  induction arrivals generalizing h with
  | nil => rfl
  | cons a arrivals ih => exact (ih (h.receive a)).trans (receive_appStore h a)

/-- The last of the messages that brings a signed listing for `x` decides what is cached. -/
theorem receiveAll_lookup {h : Host} (hstore : h.app.appStore = true) (arrivals : List Arrival)
    (x : String) :
    (h.receiveAll arrivals).store.listings.lookup x
      = (arrivals.filterMap (Arrival.signedListing x)).getLast?.or (h.store.listings.lookup x) := by
  induction arrivals using List.reverseRecOn with
  | nil => rfl
  | append_singleton arrivals a ih =>
    have hrun : h.receiveAll (arrivals ++ [a]) = (h.receiveAll arrivals).receive a := by
      rw [Host.receiveAll, List.foldl_append]
      rfl
    rw [hrun, receive_lookup ((receiveAll_appStore h arrivals).trans hstore), ih,
      List.filterMap_append, List.filterMap_cons]
    cases a.signedListing x with
    | none => simp
    | some l => simp

/-- **Who may replace a listing.** Of any messages, the last one with a listing for `x` that is
signed under the key it names itself decides what is cached for `x`. So the cached listing stays
one of `d` exactly as long as no such listing names another developer; messages without a valid
signature do not count. -/
theorem developer_kept_iff {h : Host} (hstore : h.app.appStore = true) {x d : String}
    {cached : AppStoreListing} (hcached : h.store.listings.lookup x = some cached)
    (hd : cached.manifest.developerPeerId = some d) (arrivals : List Arrival) :
    (h.receiveAll arrivals).store.listings.lookup x
        = some ((arrivals.filterMap (Arrival.signedListing x)).getLast?.getD cached)
    ∧ ((∀ done, done <+: arrivals → ∃ l, (h.receiveAll done).store.listings.lookup x = some l
          ∧ l.manifest.developerPeerId = some d)
      ↔ ∀ a ∈ arrivals, ∀ l, a.signedListing x = some l → l.manifest.developerPeerId = some d) := by
  have hlookup : ∀ arrivals : List Arrival, (h.receiveAll arrivals).store.listings.lookup x
      = some ((arrivals.filterMap (Arrival.signedListing x)).getLast?.getD cached) := by
    intro arrivals
    rw [receiveAll_lookup hstore, hcached]
    cases (arrivals.filterMap (Arrival.signedListing x)).getLast? <;> rfl
  refine ⟨hlookup arrivals, ?_⟩
  constructor
  · intro hkept a ha l hl
    -- stop right after the message: its listing is the cached one
    obtain ⟨pre, post, rfl⟩ := List.append_of_mem ha
    obtain ⟨l', hl', hd'⟩ := hkept (pre ++ [a]) ⟨post, by simp⟩
    rw [hlookup, List.filterMap_append, List.filterMap_cons_some hl, List.filterMap_nil,
      List.getLast?_concat, Option.getD_some] at hl'
    rw [Option.some.inj hl']
    exact hd'
  · rintro hall done ⟨post, rfl⟩
    refine ⟨_, hlookup done, ?_⟩
    cases hlast : (done.filterMap (Arrival.signedListing x)).getLast? with
    | none => exact hd
    | some l =>
      obtain ⟨a, ha, hl⟩ := List.mem_filterMap.mp (List.mem_of_getLast? hlast)
      exact hall a (List.mem_append_left post ha) l hl

end

/-! Listings of one app id, signed by the symbolic peers. -/

section

attribute [local instance] symbolicPrims Node.noCodec

@[reducible] def unreadCodec : AppCodec where
  decodeAppMessage _ := none
  decodeCoinPayload _ := none
  decodeProximityDirect _ := none
  decodePresence _ := none
  decodeMatchIntent _ := none
  manifestJson m := asBytes m.id ++ asBytes (m.developerPeerId.getD "")
  sourcesJson _ := []

/-- A listing of peer `b` for the app `com.app.x`, made at `now`. -/
def symbolicListing (b : UInt8) (now : UInt64) : AppStoreListing :=
  (@AppStoreListing.newSigned symbolicPrims unreadCodec
    { id := "com.app.x", name := "x", description := "", version := "1.0.0", developer := "x"
      developerPeerId := some (Node.symbolicPeer b), entry := "index.html", iconBase64 := none
      permissions := [], minMyceliumVersion := "0.1.0", acceptsPayments := false
      paymentAddress := none, categories := [] } [b] [] now (symbolicKey b)).getD
    { manifest :=
        { id := "", name := "", description := "", version := "", developer := ""
          developerPeerId := none, entry := "", iconBase64 := none, permissions := []
          minMyceliumVersion := "", acceptsPayments := false, paymentAddress := none
          categories := [] }
      bundleHash := "", sources := [], publishedAtMs := 0, updatedAtMs := 0, signature := [] }

/-- A payload is the peer and the time of a listing. -/
@[reducible] def listingCodec : AppCodec :=
  { unreadCodec with
    decodeAppMessage := fun raw =>
      match raw with
      | [b, now] => some { payload := .appStoreListing (symbolicListing b now.toUInt64) }
      | _ => none }

attribute [local instance] listingCodec

/-- The gossip message with the listing of peer `b` made at `now`. -/
def listingArrival (b now : UInt8) : Arrival where
  msg := { envelope := .newUnsigned 9 (Node.symbolicPeer b) none [b, now], body := "[appstore]" }
  now := 9
  revokedMs := 9
  scoredMs := 9

/-- An app whose store holds the listing that peer 1 made at time 5. -/
def cachingHost : Host where
  app := freshApp
  store := ({} : AppStore).cacheListing (symbolicListing 1 5)

/-- The two developers sign under one id. -/
theorem signedListing_symbolic :
    (listingArrival 1 7).signedListing "com.app.x" = some (symbolicListing 1 7)
    ∧ (listingArrival 2 7).signedListing "com.app.x" = some (symbolicListing 2 7)
    ∧ (symbolicListing 1 5).manifest.developerPeerId = some (Node.symbolicPeer 1)
    ∧ (symbolicListing 1 7).manifest.developerPeerId = some (Node.symbolicPeer 1) := by
  decide +kernel

/-- An update of the developer's own is cached. -/
theorem developer_kept_update :
    ∃ l, (cachingHost.receiveAll [listingArrival 1 7]).store.listings.lookup "com.app.x" = some l
      ∧ l.manifest.developerPeerId = some (Node.symbolicPeer 1) := by
  obtain ⟨hsigned, -, hcached, hupdate⟩ := signedListing_symbolic
  refine (developer_kept_iff (h := cachingHost) rfl rfl hcached [listingArrival 1 7]).2.mpr ?_ _
    (List.prefix_refl _)
  intro a ha l hl
  rw [List.mem_singleton.mp ha, hsigned] at hl
  rw [← Option.some.inj hl]
  exact hupdate

/-- One message of peer 2, signed with its own key, replaces the listing of peer 1 and with it the
hash that the installer trusts. -/
theorem listing_taken_over :
    (symbolicListing 1 5).verifySignature = true
    ∧ cachingHost.store.listings.lookup "com.app.x" = some (symbolicListing 1 5)
    ∧ (symbolicListing 1 5).manifest.developerPeerId = some (Node.symbolicPeer 1)
    ∧ ∃ l, (cachingHost.receive (listingArrival 2 7)).store.listings.lookup "com.app.x" = some l
        ∧ l.manifest.developerPeerId = some (Node.symbolicPeer 2)
        ∧ Node.symbolicPeer 2 ≠ Node.symbolicPeer 1
        ∧ l.bundleHash ≠ (symbolicListing 1 5).bundleHash := by
  refine ⟨by decide +kernel, rfl, signedListing_symbolic.2.2.1, symbolicListing 2 7, ?_,
    by decide +kernel, by decide +kernel, by decide +kernel⟩
  rw [receive_lookup (h := cachingHost) rfl, signedListing_symbolic.2.1]
  rfl

end

section

variable [Prims] [AppCodec] [Node.WireCodec]

/-! ## Two writers of one cache -/

/-- A listing comes in: with a message, or as one of those that were shipped. -/
inductive ListingEvent where
  | gossip (a : Arrival) (listing : AppStoreListing)
  | merge (listing : AppStoreListing)

def ListingEvent.listing : ListingEvent → AppStoreListing
  | .gossip _ listing => listing
  | .merge listing => listing

/-- The event brings a signed listing for `x`; a message is one that carries it. -/
structure ListingEvent.Brings (x : String) (e : ListingEvent) : Prop where
  signed : e.listing.verifySignature = true
  id : e.listing.manifest.id = x
  carried : ∀ a listing, e = .gossip a listing → carriedListing a.msg = some listing

def Host.take (h : Host) : ListingEvent → Host
  | .gossip a _ => h.receive a
  | .merge listing => { h with store := h.store.mergeBundledListings [listing] }

def Host.takeAll (h : Host) (events : List ListingEvent) : Host := events.foldl Host.take h

/-- The events as writes of a register: gossip does not look at what is there. -/
def ListingEvent.toWrite : ListingEvent → Register.Write AppStoreListing
  | .gossip _ listing => .force listing
  | .merge listing => .merge listing

omit [Prims] [AppCodec] [Node.WireCodec] in
@[simp] theorem ListingEvent.toWrite_value (e : ListingEvent) : e.toWrite.value = e.listing := by
  cases e <;> rfl

def AppStoreListing.stamp (l : AppStoreListing) : Nat := l.updatedAtMs.toNat

omit [Node.WireCodec] in
/-- Merging one bundled listing: it is cached unless a later one is there. -/
theorem mergeBundledListings_single (store : AppStore) {l : AppStoreListing}
    (hsig : l.verifySignature = true) :
    store.mergeBundledListings [l]
      = match store.findListing l.manifest.id with
        | none => store.cacheListing l
        | some cached =>
          if cached.updatedAtMs ≤ l.updatedAtMs then store.cacheListing l else store := by
  unfold AppStore.mergeBundledListings AppStore.mergeBundledListing
  rw [l.checkSignature_of_verifySignature hsig]
  cases store.findListing l.manifest.id with
  | none => rfl
  | some cached =>
    by_cases hle : cached.updatedAtMs ≤ l.updatedAtMs
    · simp only [if_pos hle]
      rfl
    · simp only [if_neg hle]
      rfl

/-- What one event keeps of the host, and what it does to the cache. -/
theorem take_spec {h : Host} (hstore : h.app.appStore = true) (hkeyed : h.store.Keyed) {x : String}
    {e : ListingEvent} (he : e.Brings x) :
    (h.take e).app.appStore = true ∧ (h.take e).store.Keyed
      ∧ (h.take e).store.listings.lookup x
        = Register.write AppStoreListing.stamp (h.store.listings.lookup x) e.toWrite := by
  have hcache : (h.store.cacheListing e.listing).listings.lookup x = some e.listing := by
    rw [← he.id]
    exact AList.lookup_insert _
  cases e with
  | gossip a listing =>
    -- gossip overwrites what is cached
    have hlistings : (h.receive a).store.listings = (h.store.cacheListing listing).listings := by
      rw [receive_listings hstore, he.carried a listing rfl]
      exact if_pos he.signed
    refine ⟨(receive_appStore h a).trans hstore, ?_, ?_⟩
    · intro id l hl
      exact hkeyed.cacheListing listing id l (by rw [← hlistings]; exact hl)
    · show (h.receive a).store.listings.lookup x = some listing
      rw [hlistings]
      exact hcache
  | merge listing =>
    -- a bundled listing does so unless the cached one is newer
    have hfound : h.store.findListing listing.manifest.id = h.store.listings.lookup x := by
      rw [← he.id]
      exact AppStore.findListing_eq_lookup hkeyed _
    have hmerge := mergeBundledListings_single h.store (l := listing) he.signed
    rw [hfound] at hmerge
    refine ⟨hstore, ?_, ?_⟩
    · show (h.store.mergeBundledListings [listing]).Keyed
      rw [hmerge]
      split
      · exact hkeyed.cacheListing listing
      · split
        · exact hkeyed.cacheListing listing
        · exact hkeyed
    · show (h.store.mergeBundledListings [listing]).listings.lookup x = _
      rw [hmerge]
      cases hcached : h.store.listings.lookup x with
      | none => exact hcache
      | some cached =>
        by_cases hle : cached.updatedAtMs ≤ listing.updatedAtMs
        · have hstamp : cached.stamp ≤ listing.stamp := UInt64.le_iff_toNat_le.mp hle
          simp only [if_pos hle]
          exact hcache.trans (if_pos hstamp).symm
        · have hstamp : ¬ cached.stamp ≤ listing.stamp := fun hs =>
            hle (UInt64.le_iff_toNat_le.mpr hs)
          simp only [if_neg hle]
          rw [hcached]
          exact (if_neg hstamp).symm

/-- The cache for one id is the register. -/
theorem takeAll_lookup {h : Host} (hstore : h.app.appStore = true) (hkeyed : h.store.Keyed)
    {x : String} (hnone : h.store.listings.lookup x = none) {events : List ListingEvent}
    (hevents : ∀ e ∈ events, e.Brings x) :
    (h.takeAll events).app.appStore = true ∧ (h.takeAll events).store.Keyed
      ∧ (h.takeAll events).store.listings.lookup x
        = Register.writeAll AppStoreListing.stamp (events.map ListingEvent.toWrite) := by
  induction events using List.reverseRecOn with
  | nil => exact ⟨hstore, hkeyed, hnone⟩
  | append_singleton events e ih =>
    obtain ⟨hstore', hkeyed', hlookup⟩ := ih fun e' he' => hevents e' (List.mem_append_left _ he')
    have hrun : h.takeAll (events ++ [e]) = (h.takeAll events).take e := by
      rw [Host.takeAll, List.foldl_append]
      rfl
    obtain ⟨hstep, hkeep, hwrite⟩ := take_spec hstore' hkeyed'
      (hevents e (List.mem_append_right _ (List.mem_singleton_self e)))
    rw [hrun]
    refine ⟨hstep, hkeep, ?_⟩
    rw [hwrite, hlookup, List.map_append, List.map_cons, List.map_nil, Register.writeAll_concat]

/-- **When the cache settles on the newest listing.** For every order, with repetitions, in which
signed listings for one id come in over gossip or are merged: the one cached at the end is the
newest and no older one ever replaced a newer one, exactly when every gossip message brought a
listing at least as new as all that came in before it. -/
theorem newest_cached_iff {h : Host} (hstore : h.app.appStore = true) (hkeyed : h.store.Keyed)
    {x : String} (hnone : h.store.listings.lookup x = none) {events : List ListingEvent}
    (hne : events ≠ []) (hevents : ∀ e ∈ events, e.Brings x) :
    ((∃ e ∈ events, (h.takeAll events).store.listings.lookup x = some e.listing
        ∧ ∀ e' ∈ events, e'.listing.updatedAtMs ≤ e.listing.updatedAtMs)
      ∧ ∀ pre e post, events = pre ++ e :: post → ∀ l l',
          (h.takeAll pre).store.listings.lookup x = some l →
          (h.takeAll (pre ++ [e])).store.listings.lookup x = some l' →
          l.updatedAtMs ≤ l'.updatedAtMs)
    ↔ ∀ pre a l post, events = pre ++ .gossip a l :: post →
        ∀ e ∈ pre, e.listing.updatedAtMs ≤ l.updatedAtMs := by
  -- what is cached is what a register holds after the same writes
  have hlookup : ∀ {done rest : List ListingEvent}, events = done ++ rest →
      (h.takeAll done).store.listings.lookup x
        = Register.writeAll AppStoreListing.stamp (done.map ListingEvent.toWrite) := by
    intro done rest hsplit
    exact (takeAll_lookup hstore hkeyed hnone fun e he =>
      hevents e (by rw [hsplit]; exact List.mem_append_left _ he)).2.2
  have hsettles : Register.Latest AppStoreListing.stamp (events.map ListingEvent.toWrite)
      ∧ Register.NeverBack AppStoreListing.stamp (events.map ListingEvent.toWrite)
      ↔ Register.InOrder AppStoreListing.stamp (events.map ListingEvent.toWrite) :=
    Register.settles_iff (by simpa using hne)
  rw [Register.latest_map, Register.neverBack_map, Register.inOrder_map] at hsettles
  simp only [ListingEvent.toWrite_value] at hsettles
  constructor
  · rintro ⟨⟨e, he, hlast, hnewest⟩, hback⟩ pre a l post hsplit e' he'
    refine UInt64.le_iff_toNat_le.mpr
      (hsettles.mp ⟨⟨e, he, ?_, fun e' he' => ?_⟩, ?_⟩ pre _ post hsplit l rfl e' he')
    · rw [← hlast, hlookup (List.append_nil events).symm]
    · exact UInt64.le_iff_toNat_le.mp (hnewest e' he')
    · intro pre e post hsplit c c' hc hc'
      rw [← hlookup hsplit] at hc
      rw [← hlookup (by rw [hsplit, List.append_assoc]; rfl)] at hc'
      exact UInt64.le_iff_toNat_le.mp (hback pre e post hsplit c c' hc hc')
  · intro horder
    -- only gossip is written whatever is there
    have hready : ∀ pre e post, events = pre ++ e :: post → ∀ l, e.toWrite = .force l →
        ∀ e' ∈ pre, e'.listing.stamp ≤ l.stamp := by
      intro pre e post hsplit l hl e' he'
      cases e with
      | gossip a listing =>
        obtain rfl : listing = l := by simpa [ListingEvent.toWrite] using hl
        exact UInt64.le_iff_toNat_le.mp (horder pre a listing post hsplit e' he')
      | merge listing => exact absurd hl (by simp [ListingEvent.toWrite])
    obtain ⟨⟨e, he, hlast, hnewest⟩, hback⟩ := hsettles.mpr hready
    refine ⟨⟨e, he, ?_, fun e' he' => UInt64.le_iff_toNat_le.mpr (hnewest e' he')⟩, ?_⟩
    · rw [hlookup (List.append_nil events).symm, hlast]
    · intro pre e post hsplit l l' hl hl'
      rw [hlookup hsplit] at hl
      rw [hlookup (by rw [hsplit, List.append_assoc]; rfl)] at hl'
      exact UInt64.le_iff_toNat_le.mpr (hback pre e post hsplit l l' hl hl')

end

section

attribute [local instance] symbolicPrims Node.noCodec listingCodec

/-- An app whose store holds no listing. -/
def emptyHost : Host where
  app := freshApp
  store := {}

/-- An empty cache has no ids. -/
theorem emptyHost_keyed : emptyHost.store.Keyed := fun _ _ h => absurd h (by simp [emptyHost])

/-- The listings of peer 1 made at 5 and at 7, as messages. -/
def gossip5 : ListingEvent := .gossip (listingArrival 1 5) (symbolicListing 1 5)

def gossip7 : ListingEvent := .gossip (listingArrival 1 7) (symbolicListing 1 7)

/-- Each of the three brings the listing of the app. -/
theorem symbolic_brings : gossip5.Brings "com.app.x" ∧ gossip7.Brings "com.app.x"
    ∧ (ListingEvent.merge (symbolicListing 1 5)).Brings "com.app.x" := by
  have hsigned : (symbolicListing 1 5).verifySignature = true
      ∧ (symbolicListing 1 7).verifySignature = true := by
    decide +kernel
  have hcarried : carriedListing (listingArrival 1 5).msg = some (symbolicListing 1 5)
      ∧ carriedListing (listingArrival 1 7).msg = some (symbolicListing 1 7) := by
    decide +kernel
  refine ⟨⟨hsigned.1, by decide +kernel, fun a l heq => ?_⟩,
    ⟨hsigned.2, by decide +kernel, fun a l heq => ?_⟩,
    ⟨hsigned.1, by decide +kernel, fun a l heq => by cases heq⟩⟩
  · cases heq
    exact hcarried.1
  · cases heq
    exact hcarried.2

/-- Gossip in order, and the older listing merged afterwards: the newest one is cached. -/
theorem newest_cached_merged :
    ∃ e ∈ [gossip5, gossip7, .merge (symbolicListing 1 5)],
      (emptyHost.takeAll [gossip5, gossip7, .merge (symbolicListing 1 5)]
        ).store.listings.lookup "com.app.x" = some e.listing
      ∧ ∀ e' ∈ [gossip5, gossip7, .merge (symbolicListing 1 5)],
        e'.listing.updatedAtMs ≤ e.listing.updatedAtMs := by
  -- the bundled listing comes last and is older, the newest one was heard second
  obtain ⟨h5, h7, hmerge⟩ := symbolic_brings
  refine ((newest_cached_iff (h := emptyHost) rfl emptyHost_keyed rfl (by simp) ?_).mpr ?_).1
  · intro e he
    simp only [List.mem_cons, List.not_mem_nil, or_false] at he
    rcases he with rfl | rfl | rfl
    · exact h5
    · exact h7
    · exact hmerge
  · intro pre a l post hsplit e he
    -- the split of three events: before the second stands only the first
    match pre with
    | [] => cases he
    | [e₁] =>
      obtain ⟨rfl, hrest⟩ := List.cons.inj hsplit
      obtain ⟨hgossip, -⟩ := List.cons.inj hrest
      obtain rfl : symbolicListing 1 7 = l := (ListingEvent.gossip.inj hgossip).2
      rw [List.mem_singleton.mp he]
      decide +kernel
    | [_, _] => simp at hsplit
    | _ :: _ :: _ :: _ => simp at hsplit

/-- A replayed message: the older listing replaces the newer one that was cached. -/
theorem replayed_listing_wins :
    (∀ e ∈ [gossip7, gossip5], e.Brings "com.app.x")
    ∧ (emptyHost.takeAll [gossip7]).store.listings.lookup "com.app.x" = some gossip7.listing
    ∧ (emptyHost.takeAll [gossip7, gossip5]).store.listings.lookup "com.app.x"
        = some gossip5.listing
    ∧ gossip5.listing.updatedAtMs < gossip7.listing.updatedAtMs := by
  obtain ⟨h5, h7, -⟩ := symbolic_brings
  have hall : ∀ e ∈ [gossip7, gossip5], e.Brings "com.app.x" := by
    intro e he
    simp only [List.mem_cons, List.not_mem_nil, or_false] at he
    rcases he with rfl | rfl
    · exact h7
    · exact h5
  refine ⟨hall, ?_, ?_, by decide +kernel⟩
  · rw [(takeAll_lookup (h := emptyHost) rfl emptyHost_keyed rfl (by simpa using h7)).2.2]
    rfl
  · rw [(takeAll_lookup (h := emptyHost) rfl emptyHost_keyed rfl hall).2.2]
    rfl

end

end Mycelium.App
