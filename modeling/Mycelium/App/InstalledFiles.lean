import Mycelium.App.Install

/-!
# Mycelium app — the files of an installed app

`AppStore::install` writes the files of a bundle into the tree of the app, and `get_file` serves
them from there. The tree is dropped by `uninstall` only, so what an earlier version left and the
new bundle does not have is still served.

* `getFile_install` — what is served after an install;
* `install_replaces_iff` — when that is the bundle;
* `install_replaces_uninstalled` — as it is after an `uninstall`.
-/

namespace Mycelium.App

namespace AppStore

/-- `get_file`. -/
def getFile (store : AppStore) (appId path : String) : Option Bytes :=
  store.files.lookup (appId, path)

/-- The loop of `install` over the files of a bundle. -/
def writeFiles (appId : String) (entries : List (Sigma fun _ : String => Bytes))
    (files : KvTree.Of (String × String) Bytes) : KvTree.Of (String × String) Bytes :=
  entries.foldl (fun files e => files.insert (appId, e.1) e.2) files

/-- A path that is written is served as it was written last, any other as before. Induction on
the entries, which have different paths. -/
theorem lookup_writeFiles (appId path : String) {entries : List (Sigma fun _ : String => Bytes)}
    (hnodup : entries.NodupKeys) (files : KvTree.Of (String × String) Bytes) :
    (writeFiles appId entries files).lookup (appId, path)
      = (entries.dlookup path).or (files.lookup (appId, path)) := by
  induction entries generalizing files with
  | nil => rfl
  | cons e entries ih =>
    obtain ⟨hfresh, hrest⟩ := List.nodupKeys_cons.mp hnodup
    show (writeFiles appId entries (files.insert (appId, e.1) e.2)).lookup _ = _
    rw [ih hrest]
    by_cases hpath : path = e.1
    · -- written here and, the paths being different, not again
      subst hpath
      rw [List.dlookup_eq_none.mpr hfresh, List.dlookup_cons_eq, AList.lookup_insert]
      rfl
    · have hne : (appId, path) ≠ (appId, e.1) := fun h => hpath (Prod.mk.inj h).2
      rw [List.dlookup_cons_ne _ _ hpath, AList.lookup_insert_ne hne]

theorem lookup_writeFiles_other {appId other : String} (hother : other ≠ appId) (path : String)
    (entries : List (Sigma fun _ : String => Bytes)) (files : KvTree.Of (String × String) Bytes) :
    (writeFiles appId entries files).lookup (other, path) = files.lookup (other, path) := by
  induction entries generalizing files with
  | nil => rfl
  | cons e entries ih =>
    have hne : (other, path) ≠ (appId, e.1) := fun h => hother (Prod.mk.inj h).1
    exact (ih _).trans (AList.lookup_insert_ne hne)

section

variable [BundlePrims]

variable {store store' : AppStore} {bundleBytes : Bytes} {manifest : MiniAppManifest}
  {bundle : MiniAppBundle}

/-- The store after an install. -/
theorem install_eq (hload : MiniAppBundle.loadFromBytes bundleBytes = .ok bundle)
    (h : store.install bundleBytes = .ok (manifest, store')) :
    store' = { store with
      installed := store.installed.insert bundle.manifest.id bundle.manifest
      files := writeFiles bundle.manifest.id bundle.files.entries store.files } := by
  obtain ⟨bundle', hload', h⟩ := except_bind_ok h
  obtain rfl := Except.ok.inj (hload.symm.trans hload')
  split at h
  · cases h
  obtain ⟨rfl, rfl⟩ := Prod.mk.inj (Except.ok.inj h)
  rfl

/-- **What is served after an install**: the file of the bundle, or what was there before. -/
theorem getFile_install (hload : MiniAppBundle.loadFromBytes bundleBytes = .ok bundle)
    (h : store.install bundleBytes = .ok (manifest, store')) (path : String) :
    store'.getFile bundle.manifest.id path
      = (bundle.getFile path).or (store.getFile bundle.manifest.id path) := by
  rw [install_eq hload h]
  exact lookup_writeFiles _ path bundle.files.nodupKeys store.files

/-- An install leaves the files of other apps alone. -/
theorem getFile_install_other (hload : MiniAppBundle.loadFromBytes bundleBytes = .ok bundle)
    (h : store.install bundleBytes = .ok (manifest, store')) {other : String}
    (hother : other ≠ bundle.manifest.id) (path : String) :
    store'.getFile other path = store.getFile other path := by
  rw [install_eq hload h]
  exact lookup_writeFiles_other hother path _ _

/-- **When an install replaces the app.** The manifest is the bundle's then; and the files are
exactly if every path that was served for the app before is in the bundle. -/
theorem install_replaces_iff (hload : MiniAppBundle.loadFromBytes bundleBytes = .ok bundle)
    (h : store.install bundleBytes = .ok (manifest, store')) :
    store'.getManifest bundle.manifest.id = some bundle.manifest
      ∧ ((∀ path, store'.getFile bundle.manifest.id path = bundle.getFile path)
        ↔ ∀ path, (store.getFile bundle.manifest.id path).isSome → (bundle.getFile path).isSome) := by
  refine ⟨?_, ?_⟩
  · rw [install_eq hload h]
    exact AList.lookup_insert _
  · refine forall_congr' fun path => ?_
    rw [getFile_install hload h]
    -- only a path that is not in the bundle can make a difference
    cases hnew : bundle.getFile path with
    | some data => simp
    | none => cases hold : store.getFile bundle.manifest.id path <;> simp

omit [BundlePrims] in
/-- After an `uninstall` nothing is left to be served. -/
theorem getFile_uninstall (store : AppStore) (appId path : String) :
    (store.uninstall appId).getFile appId path = none := by
  unfold getFile uninstall
  refine List.dlookup_eq_none.mpr fun hmem => ?_
  obtain ⟨e, he, hkey⟩ := List.mem_map.mp hmem
  have hkept := (List.mem_filter.mp he).2
  rw [hkey] at hkept
  simp at hkept

theorem install_replaces_uninstalled
    (hload : MiniAppBundle.loadFromBytes bundleBytes = .ok bundle)
    (h : (store.uninstall bundle.manifest.id).install bundleBytes = .ok (manifest, store'))
    (path : String) : store'.getFile bundle.manifest.id path = bundle.getFile path := by
  rw [getFile_install hload h, getFile_uninstall]
  simp

end

end AppStore

section

/-- Archives of one app; the first version has a script that the later ones do not have. -/
@[reducible] def versionedBundles : BundlePrims where
  zipEntries bytes := .ok
    ([⟨"mycelium-app.json", false, some bytes⟩, ⟨"index.html", false, some (asBytes "<html></html>")⟩]
      ++ if bytes = [1] then [⟨"tracker.js", false, some (asBytes "track()")⟩] else [])
  parseManifest _ := .ok (symbolicListing 1 5).manifest
  parseBundleSignature _ := .error "expected value"
  toLowercase s := String.ofList (s.toList.map Char.toLower)

attribute [local instance] versionedBundles

/-- The store after both versions were installed, one after the other. -/
def upgradedStore : Except String AppStore := do
  let (_, store) ← ({} : AppStore).install [1]
  let (_, store) ← store.install [2]
  return store

/-- The script of the first version is served beside the second. -/
theorem install_keeps_old_file :
    (upgradedStore.toOption.map fun store => store.getFile "com.app.x" "tracker.js")
        = some (some (asBytes "track()"))
    ∧ ((MiniAppBundle.loadFromBytes [2]).toOption.map fun bundle => bundle.getFile "tracker.js")
        = some none := by
  decide +kernel

/-- The second version is installed, and then the first one, which has its files and one more. -/
theorem install_replaces_upgrade :
    ∃ old store bundle manifest store', ({} : AppStore).install [2] = .ok (old, store)
      ∧ (store.getFile bundle.manifest.id "index.html").isSome = true
      ∧ MiniAppBundle.loadFromBytes [1] = .ok bundle
      ∧ store.install [1] = .ok (manifest, store')
      ∧ ∀ path, store'.getFile bundle.manifest.id path = bundle.getFile path := by
  cases hfirst : ({} : AppStore).install [2] with
  | error e =>
    have hinstalls : (({} : AppStore).install [2]).isOk = true := by decide +kernel
    rw [hfirst] at hinstalls
    cases hinstalls
  | ok installed =>
    obtain ⟨old, store⟩ := installed
    cases hload : MiniAppBundle.loadFromBytes [1] with
    | error e =>
      have hloads : (MiniAppBundle.loadFromBytes [1]).isOk = true := by decide +kernel
      rw [hload] at hloads
      cases hloads
    | ok bundle =>
      have hupgrades : ((({} : AppStore).install [2]).toOption.map fun r => (r.2.install [1]).isOk)
          = some true := by decide +kernel
      -- what is stored, and that the new bundle has it
      have hserves : ((MiniAppBundle.loadFromBytes [1]).toOption.bind fun b =>
          (({} : AppStore).install [2]).toOption.map fun r =>
            (r.2.getFile b.manifest.id "index.html").isSome
              && r.2.files.keys.all fun k => (b.getFile k.2).isSome) = some true := by
        decide +kernel
      rw [hfirst] at hupgrades
      rw [hfirst, hload] at hserves
      obtain ⟨hindex, hkeys⟩ := Bool.and_eq_true_iff.mp (Option.some.inj hserves)
      cases hinstall : store.install [1] with
      | error e =>
        replace hupgrades : (store.install [1]).isOk = true := Option.some.inj hupgrades
        rw [hinstall] at hupgrades
        cases hupgrades
      | ok upgraded =>
        obtain ⟨manifest, store'⟩ := upgraded
        refine ⟨old, store, bundle, manifest, store', rfl, hindex, rfl, hinstall, ?_⟩
        refine (AppStore.install_replaces_iff hload hinstall).2.mpr fun path hserved => ?_
        have hmem : (bundle.manifest.id, path) ∈ store.files.keys :=
          AList.mem_keys.mpr (AList.lookup_isSome.mp hserved)
        exact List.all_eq_true.mp hkeys _ hmem

end

end Mycelium.App
