import Mycelium.App.SignBundle

/-!
# Mycelium app — attestation and signing

A manifest can attest the hash of the contents of its bundle, and a sidecar can sign the contents.
The hash that is signed leaves the sidecar out. The hash that is attested leaves the attestation out,
but takes the sidecar in like any other file.

* `contentInput_eq_iff` — two bundles that differ in the sidecar at most have one attested hash
  exactly if they do not;
* `attestation_survives_iff` — so signing takes the attestation away, unless the sidecar was there.
-/

namespace Mycelium.App

section

/-- The files that `content_attestation_hash` takes in, besides the manifest. -/
def contentFiles (bundle : MiniAppBundle) : List (String × Bytes) :=
  (bundle.files.entries.filter fun e => e.1 != "mycelium-app.json").map fun e => (e.1, e.2)

/-- What `content_attestation_hash` hashes. -/
def contentInput [AppCodec] (bundle : MiniAppBundle) : Bytes :=
  let manifestBytes := AppCodec.manifestJson { bundle.manifest with reproducibleBuild := none }
  asBytes "mycelium-miniapp-content-v1\x00" ++ leBytes 8 manifestBytes.length ++ manifestBytes
    ++ (sortedByName (contentFiles bundle)).flatMap hashedEntry

/-- The attestation hash is one hash over the contents. -/
theorem contentAttestationHash_eq [Prims] [AppCodec] (bundle : MiniAppBundle) :
    contentAttestationHash bundle = hexEncode (Prims.blake3 (contentInput bundle)).toList := by
  have hsorted : (((bundle.files.entries.filter fun e => e.1 != "mycelium-app.json").mergeSort
      fun a b => a.1 ≤ b.1).map fun e => (e.1, e.2)) = sortedByName (contentFiles bundle) :=
    List.map_mergeSort fun _ _ _ _ => rfl
  unfold contentAttestationHash contentInput
  rw [← hsorted, List.flatMap_map]

/-- The contents are the files except the manifest. -/
theorem mem_contentFiles {bundle : MiniAppBundle} {x : String × Bytes} :
    x ∈ contentFiles bundle ↔ x.1 ≠ "mycelium-app.json" ∧ bundle.getFile x.1 = some x.2 := by
  unfold contentFiles
  constructor
  · intro hx
    obtain ⟨e, he, rfl⟩ := List.mem_map.mp hx
    obtain ⟨hmem, hname⟩ := List.mem_filter.mp he
    exact ⟨by simpa using hname, AList.mem_lookup_iff.mpr hmem⟩
  · rintro ⟨hname, hfile⟩
    exact List.mem_map.mpr ⟨⟨x.1, x.2⟩, List.mem_filter.mpr
      ⟨AList.mem_lookup_iff.mp hfile, by simpa using hname⟩, rfl⟩

/-- Each path is there once. -/
theorem nodup_contentFiles (bundle : MiniAppBundle) :
    ((contentFiles bundle).map Prod.fst).Nodup := by
  have hkeys : (bundle.files.entries.map Sigma.fst).Nodup := bundle.files.nodupKeys
  have hsub := (List.filter_sublist (l := bundle.files.entries)
    (p := fun e => e.1 != "mycelium-app.json")).map Sigma.fst
  rw [contentFiles, List.map_map]
  exact hkeys.sublist hsub

/-- Entries with different names are sorted in one way. -/
theorem sortedByName_congr {files files' : List (String × Bytes)}
    (hnodup : (files.map Prod.fst).Nodup) (hnodup' : (files'.map Prod.fst).Nodup)
    (hmem : ∀ x, x ∈ files ↔ x ∈ files') : sortedByName files = sortedByName files' := by
  have hperm : files.Perm files' :=
    (List.perm_ext_iff_of_nodup (List.Nodup.of_map _ hnodup) (List.Nodup.of_map _ hnodup')).mpr hmem
  have hsorted : (sortedByName files).Pairwise fun a b => a.1 ≤ b.1 :=
    List.pairwise_map.mp (pairwise_sortedByName files)
  have hsorted' : (sortedByName files').Pairwise fun a b => a.1 ≤ b.1 :=
    List.pairwise_map.mp (pairwise_sortedByName files')
  refine List.Perm.eq_of_pairwise ?_ hsorted hsorted'
    (((perm_sortedByName files).trans hperm).trans (perm_sortedByName files').symm)
  intro a b ha hb hab hba
  have ha' : a ∈ files := (perm_sortedByName files).subset ha
  have hb' : b ∈ files := (hmem b).mpr ((perm_sortedByName files').subset hb)
  exact List.inj_on_of_nodup_map hnodup ha' hb' (le_antisymm hab hba)

/-- The bytes of one entry. -/
def entrySize (x : String × Bytes) : Nat := (asBytes x.1).length + 9 + x.2.length

/-- The length of what is hashed is the sum over the files. -/
theorem length_hashedEntries (files : List (String × Bytes)) :
    ((sortedByName files).flatMap hashedEntry).length = (files.map entrySize).sum := by
  have hentry : ∀ x, (hashedEntry x).length = entrySize x := by
    intro x
    simp only [hashedEntry, List.length_append, length_leBytes, List.length_singleton, entrySize]
  rw [List.length_flatMap, ← ((perm_sortedByName files).map entrySize).sum_eq]
  simp only [hentry]

/-- The sidecar, if there is one. -/
def sidecarFiles (bundle : MiniAppBundle) : List (String × Bytes) :=
  (bundle.getFile bundleSigFile).toList.map fun raw => (bundleSigFile, raw)

/-- The other files that are attested. -/
def attestedFiles (bundle : MiniAppBundle) : List (String × Bytes) :=
  (contentFiles bundle).filter fun x => x.1 ≠ bundleSigFile

/-- The signature, if the bundle has one. -/
theorem mem_sidecarFiles {bundle : MiniAppBundle} {x : String × Bytes} :
    x ∈ sidecarFiles bundle ↔ x.1 = bundleSigFile ∧ bundle.getFile bundleSigFile = some x.2 := by
  unfold sidecarFiles
  rw [List.mem_map]
  constructor
  · rintro ⟨raw, hraw, rfl⟩
    exact ⟨rfl, Option.mem_toList.mp hraw⟩
  · rintro ⟨hname, hfile⟩
    exact ⟨x.2, Option.mem_toList.mpr hfile, Prod.ext hname.symm rfl⟩

/-- The contents are the signature and what is attested. -/
theorem perm_contentFiles (bundle : MiniAppBundle) :
    (contentFiles bundle).Perm (sidecarFiles bundle ++ attestedFiles bundle) := by
  have hcontent : (contentFiles bundle).Nodup := List.Nodup.of_map _ (nodup_contentFiles bundle)
  have hsidecar : (sidecarFiles bundle).Nodup := by
    unfold sidecarFiles
    cases bundle.getFile bundleSigFile with
    | none => exact List.nodup_nil
    | some raw => exact List.nodup_singleton _
  refine (List.perm_ext_iff_of_nodup hcontent ?_).mpr fun x => ?_
  · refine List.nodup_append.mpr ⟨hsidecar, hcontent.filter _, ?_⟩
    rintro x hx y hy rfl
    exact of_decide_eq_true (List.mem_filter.mp hy).2 (mem_sidecarFiles.mp hx).1
  · rw [List.mem_append, mem_sidecarFiles, attestedFiles, List.mem_filter, mem_contentFiles]
    by_cases hx : x.1 = bundleSigFile
    · have hname : bundleSigFile ≠ "mycelium-app.json" := by decide
      simp [hx, hname]
    · simp [hx]

/-- So their sizes add up. -/
theorem sum_contentFiles (bundle : MiniAppBundle) :
    ((contentFiles bundle).map entrySize).sum
      = ((sidecarFiles bundle).map entrySize).sum + ((attestedFiles bundle).map entrySize).sum := by
  rw [((perm_contentFiles bundle).map entrySize).sum_eq, List.map_append, List.sum_append]

variable {bundle bundle' : MiniAppBundle}

/-- What is attested depends on the files without manifest and signature. -/
theorem perm_attestedFiles (hfiles : ∀ path, path ≠ bundleSigFile → path ≠ "mycelium-app.json" →
      bundle.getFile path = bundle'.getFile path) :
    (attestedFiles bundle).Perm (attestedFiles bundle') := by
  have hnodup : ∀ b : MiniAppBundle, (attestedFiles b).Nodup :=
    fun b => (List.Nodup.of_map _ (nodup_contentFiles b)).filter _
  refine (List.perm_ext_iff_of_nodup (hnodup _) (hnodup _)).mpr fun x => ?_
  unfold attestedFiles
  rw [List.mem_filter, List.mem_filter, mem_contentFiles, mem_contentFiles, decide_eq_true_eq]
  refine and_congr_left fun hsidecar => and_congr_right fun hmanifest => ?_
  rw [hfiles x.1 hsidecar hmanifest]

/-- The contents fit in their frames. -/
theorem bounded_contentFiles (hbound : ∀ path data, path ≠ "mycelium-app.json" →
      bundle.getFile path = some data → data.length < 2 ^ 64) :
    entryFraming.Bounded ((sortedByName (contentFiles bundle)).map entryBytes) := by
  intro e he
  obtain ⟨x, hx, rfl⟩ := List.mem_map.mp he
  obtain ⟨hname, hfile⟩ := mem_contentFiles.mp ((perm_sortedByName _).subset hx)
  exact (hbound x.1 x.2 hname hfile).trans_eq (by norm_num [entryFraming])

/-- Sidecars of one length: the names are the same, and the lengths say where the contents end. -/
theorem sidecar_inj (hfiles : ∀ path, path ≠ bundleSigFile → path ≠ "mycelium-app.json" →
      bundle.getFile path = bundle'.getFile path)
    (hbound : ∀ path data, bundle.getFile path = some data → data.length < 2 ^ 64)
    {raw raw' : Bytes} (hraw : bundle.getFile bundleSigFile = some raw)
    (hraw' : bundle'.getFile bundleSigFile = some raw') (hlength : raw.length = raw'.length)
    (hhashed : (sortedByName (contentFiles bundle)).flatMap hashedEntry
      = (sortedByName (contentFiles bundle')).flatMap hashedEntry) : raw = raw' := by
  -- the two archives name the same files, so equal streams of entries have equal entries
  have hnames : ((contentFiles bundle).map Prod.fst).Perm
      ((contentFiles bundle').map Prod.fst) := by
    refine ((perm_contentFiles bundle).map _).trans (List.Perm.trans ?_
      ((perm_contentFiles bundle').map _).symm)
    rw [List.map_append, List.map_append, sidecarFiles, sidecarFiles, hraw, hraw']
    exact ((perm_attestedFiles hfiles).map _).append_left _
  have hbounded : entryFraming.Bounded ((sortedByName (contentFiles bundle)).map entryBytes) :=
    bounded_contentFiles fun path data _ hfile => hbound path data hfile
  have hbounded' : entryFraming.Bounded ((sortedByName (contentFiles bundle')).map entryBytes) := by
    refine bounded_contentFiles fun path data hname hfile => ?_
    by_cases hpath : path = bundleSigFile
    · rw [hpath, hraw'] at hfile
      rw [← Option.some.inj hfile, ← hlength]
      exact hbound _ raw hraw
    · exact hbound path data ((hfiles path hpath hname).trans hfile)
  rw [flatMap_hashedEntry, flatMap_hashedEntry] at hhashed
  have hsorted := sortedByName_inj_of_names hbounded hbounded' hnames hhashed
  -- the sidecar is one of them, and there is one file of its name
  have hmem : (bundleSigFile, raw) ∈ contentFiles bundle :=
    mem_contentFiles.mpr ⟨(by decide : bundleSigFile ≠ "mycelium-app.json"), hraw⟩
  have hmem' := (perm_sortedByName _).symm.subset hmem
  rw [hsorted] at hmem'
  have hfile := (mem_contentFiles.mp ((perm_sortedByName _).subset hmem')).2
  exact Option.some.inj (hfile.symm.trans hraw')

/-- **What the sidecar is to the attested hash.** With the same manifest and the same other files, the
bytes that are hashed are the same exactly if the sidecar is. -/
theorem contentInput_eq_iff [AppCodec] (hmanifest : bundle.manifest = bundle'.manifest)
    (hfiles : ∀ path, path ≠ bundleSigFile → path ≠ "mycelium-app.json" →
      bundle.getFile path = bundle'.getFile path)
    (hbound : ∀ path data, bundle.getFile path = some data → data.length < 2 ^ 64) :
    contentInput bundle = contentInput bundle'
      ↔ bundle.getFile bundleSigFile = bundle'.getFile bundleSigFile := by
  constructor
  · intro h
    have hhashed : (sortedByName (contentFiles bundle)).flatMap hashedEntry
        = (sortedByName (contentFiles bundle')).flatMap hashedEntry := by
      unfold contentInput at h
      rw [hmanifest] at h
      exact List.append_cancel_left h
    -- the other files are as long as before, so the sidecars are as long as each other
    have hlength := congrArg List.length hhashed
    rw [length_hashedEntries, length_hashedEntries, sum_contentFiles, sum_contentFiles,
      ((perm_attestedFiles hfiles).map entrySize).sum_eq] at hlength
    have hsidecar := Nat.add_right_cancel hlength
    cases hraw : bundle.getFile bundleSigFile with
    | none =>
      cases hraw' : bundle'.getFile bundleSigFile with
      | none => rfl
      | some raw' =>
        simp [sidecarFiles, hraw, hraw', entrySize] at hsidecar
        omega
    | some raw =>
      cases hraw' : bundle'.getFile bundleSigFile with
      | none => simp [sidecarFiles, hraw, hraw', entrySize] at hsidecar
      | some raw' =>
        have hraws : raw.length = raw'.length := by
          simpa [sidecarFiles, hraw, hraw', entrySize] using hsidecar
        rw [sidecar_inj hfiles hbound hraw hraw' hraws hhashed]
  · intro hsidecar
    have hsame : ∀ x, x ∈ contentFiles bundle ↔ x ∈ contentFiles bundle' := by
      intro x
      rw [mem_contentFiles, mem_contentFiles]
      refine and_congr_right fun hname => ?_
      by_cases hx : x.1 = bundleSigFile
      · rw [hx, hsidecar]
      · rw [hfiles x.1 hx hname]
    unfold contentInput
    rw [hmanifest, sortedByName_congr (nodup_contentFiles bundle) (nodup_contentFiles bundle') hsame]

end

/-! ## A preview after signing -/

/-- Hexadecimal is lower case already. -/
theorem toLower_hexEncode (bytes : Bytes) :
    (hexEncode bytes).toList.map Char.toLower = (hexEncode bytes).toList := by
  have hdigit : ∀ n, n < 16 → (Nat.digitChar n).toLower = Nat.digitChar n := by decide
  refine (List.map_congr_left fun c hc => ?_).trans (List.map_id _)
  obtain ⟨n, hn, rfl⟩ := mem_hexEncode hc
  exact hdigit n hn

/-- A text that is one hash but for the case is another one only if they are the same. -/
theorem eqIgnoreAsciiCase_hex_iff {text : String} {x y : Bytes}
    (hx : eqIgnoreAsciiCase text (hexEncode x) = true) :
    eqIgnoreAsciiCase text (hexEncode y) = true ↔ x = y := by
  unfold eqIgnoreAsciiCase at hx ⊢
  rw [decide_eq_true_eq, toLower_hexEncode] at hx ⊢
  rw [hx]
  constructor
  · intro h
    have hdecode := congrArg hexDecode (String.toList_inj.mp h)
    rw [hexDecode_hexEncode, hexDecode_hexEncode] at hdecode
    exact Option.some.inj hdecode
  · rintro rfl
    rfl

section

variable [Prims] [AppCodec] [BundlePrims] {store : AppStore} {data out : Bytes}

/-- A bundle that a preview lets through. -/
structure Previewed (store : AppStore) (data : Bytes) (bundle : MiniAppBundle) : Prop where
  loaded : MiniAppBundle.loadFromBytes data = .ok bundle
  scanned : scanBundle bundle data = .ok ()
  notRevoked : store.isAppRevoked bundle.manifest.id = false
  size : bundle.totalSize ≤ maxBundleBytes

/-- What a preview says about attestation and signature. -/
theorem previewInstall_flags {preview : InstallPreview} (h : store.previewInstall data = .ok preview) :
    ∃ bundle, Previewed store data bundle ∧ preview.manifest = bundle.manifest
      ∧ verifyBundleDeveloperSignature bundle data = .ok preview.bundleSignatureOk
      ∧ preview.reproducibleAttested
        = bundle.manifest.reproducibleAttestsHash (contentAttestationHash bundle) := by
  obtain ⟨bundle, hload, h⟩ := except_bind_ok h
  obtain ⟨⟨⟩, hscan, h⟩ := except_bind_ok h
  split at h
  · cases h
  next hrevoked =>
  split at h
  · cases h
  next hsize =>
  obtain ⟨signatureOk, hverify, h⟩ := except_bind_ok h
  obtain rfl := Except.ok.inj h
  exact ⟨bundle, ⟨hload, hscan, by simpa using hrevoked, Nat.le_of_not_lt hsize⟩, rfl, hverify, rfl⟩

/-- A bundle that passes the checks of a preview is previewed. -/
theorem exists_preview {bundle : MiniAppBundle} (h : Previewed store data bundle) {signatureOk : Bool}
    (hverify : verifyBundleDeveloperSignature bundle data = .ok signatureOk) :
    ∃ preview, store.previewInstall data = .ok preview := by
  have hrevoked : ¬ store.isAppRevoked bundle.manifest.id = true := by
    rw [h.notRevoked]
    exact Bool.false_ne_true
  simp only [AppStore.previewInstall, bind, Except.bind, h.loaded, h.scanned, if_neg hrevoked,
    if_neg (Nat.not_lt.mpr h.size), hverify]
  exact ⟨_, rfl⟩

/-- The two bundles are no collision of the hash. -/
def NoCollision (bundle bundle' : MiniAppBundle) : Prop :=
  Prims.blake3 (contentInput bundle) = Prims.blake3 (contentInput bundle') →
    contentInput bundle = contentInput bundle'

omit [BundlePrims] in
/-- A manifest that attests one bundle attests another with the same other files exactly if it has the
same sidecar. -/
theorem attests_iff {bundle bundle' : MiniAppBundle}
    (hhash : NoCollision bundle bundle') (hmanifest : bundle.manifest = bundle'.manifest)
    (hfiles : ∀ path, path ≠ bundleSigFile → path ≠ "mycelium-app.json" →
      bundle.getFile path = bundle'.getFile path)
    (hsize : bundle.totalSize ≤ maxBundleBytes)
    (hattested : bundle.manifest.reproducibleAttestsHash (contentAttestationHash bundle) = true) :
    bundle'.manifest.reproducibleAttestsHash (contentAttestationHash bundle') = true
      ↔ bundle.getFile bundleSigFile = bundle'.getFile bundleSigFile := by
  have hbound : ∀ path data, bundle.getFile path = some data → data.length < 2 ^ 64 := by
    intro path data hfile
    have hle : data.length ≤ bundle.totalSize := KvTree.le_sumBy hfile
    exact (hle.trans hsize).trans_lt (by decide)
  have hinput : Prims.blake3 (contentInput bundle) = Prims.blake3 (contentInput bundle')
      ↔ bundle.getFile bundleSigFile = bundle'.getFile bundleSigFile := by
    rw [← contentInput_eq_iff hmanifest hfiles hbound]
    exact ⟨hhash, congrArg _⟩
  rw [← hinput, ← hmanifest]
  rw [contentAttestationHash_eq] at hattested ⊢
  unfold MiniAppManifest.reproducibleAttestsHash at hattested ⊢
  split at hattested
  · next text _ =>
    rw [eqIgnoreAsciiCase_hex_iff hattested, Vector.toList_inj]
  · cases hattested

variable [BundleWriter]

/-- The archive holds, under the name of the sidecar, the very bytes that sign its other entries with
the manifest as the tool writes it. -/
def HoldsOwnSidecar (keypair : Keypair) (data : Bytes) : Prop :=
  ∃ entries files bundle sig, BundlePrims.zipEntries data = .ok entries
    ∧ signedEntries entries = some files ∧ MiniAppBundle.loadFromBytes data = .ok bundle
    ∧ Prims.identity.sign keypair
        (asBytes (contentsHash (signedCopy keypair bundle.manifest files))) = some sig
    ∧ bundle.getFile bundleSigFile
      = some (sidecar (signedCopy keypair bundle.manifest files) sig)

/-- Its own entries, zipped anew with the manifest as the tool writes it, pass the scan and the size
limit. -/
def RezippedWithinLimits (data : Bytes) : Prop :=
  ∃ entries files bundle raw rezipped again, BundlePrims.zipEntries data = .ok entries
    ∧ signedEntries entries = some files ∧ MiniAppBundle.loadFromBytes data = .ok bundle
    ∧ bundle.getFile bundleSigFile = some raw
    ∧ BundleWriter.writeZip (files.map (rewriteManifest bundle.manifest) ++ [(bundleSigFile, raw)])
      = .ok rezipped
    ∧ MiniAppBundle.loadFromBytes rezipped = .ok again ∧ scanBundle again rezipped = .ok ()
    ∧ again.totalSize ≤ maxBundleBytes

variable {keypair : Keypair}

/-- **When attestation survives signing.** A bundle with an attested hash, whose developer is the
signer, is previewed as attested and as signed after signing, exactly if it already holds the sidecar
of its own entries, and stays within the limits when it is zipped anew; for the attested hash is the
same for two bundles that differ in the sidecar at most only if they do not. -/
theorem attestation_survives_iff (hkey : Signer keypair) (hlaws : BundleWriter.Laws)
    {preview : InstallPreview} (hpreview : store.previewInstall data = .ok preview)
    (hattested : preview.reproducibleAttested = true) {developer : String}
    (hdeveloper : preview.manifest.developerPeerId = some developer)
    (hsigner : Prims.parsePeerId developer = some (Prims.toPeerId (Prims.identity.pub keypair)))
    (hsign : signBundle keypair data = .ok out)
    (hhash : ∀ bundle bundle', MiniAppBundle.loadFromBytes data = .ok bundle →
      MiniAppBundle.loadFromBytes out = .ok bundle' → NoCollision bundle bundle') :
    (∃ preview', store.previewInstall out = .ok preview' ∧ preview'.reproducibleAttested = true
        ∧ preview'.bundleSignatureOk = true)
      ↔ HoldsOwnSidecar keypair data ∧ RezippedWithinLimits data := by
  obtain ⟨bundle, hpreviewed, hmanifest, -, hflag⟩ := previewInstall_flags hpreview
  obtain ⟨entries, manifest, files, sig, hsigned⟩ := signBundle_ok hlaws hsign
  obtain rfl := hsigned.manifest_eq hlaws hpreviewed.loaded
  obtain ⟨signed, hload, hmanifest', hsidecar', hfiles⟩ := hsigned.loaded hlaws hpreviewed.loaded
  rw [hmanifest] at hdeveloper
  rw [hattested] at hflag
  -- the manifest names its developer already
  have hsame : bundle.manifest.namingDeveloper keypair = bundle.manifest := by
    unfold MiniAppManifest.namingDeveloper
    rw [hdeveloper]
    rfl
  have hverify : verifyBundleDeveloperSignature signed out = .ok true := by
    refine hsigned.verifies hkey hlaws (fun p hp => ?_) hmanifest' hsidecar'
    rw [← Option.some.inj (hdeveloper.symm.trans hp)]
    exact hsigner
  rw [hsame] at hmanifest'
  have hcopy : signedCopy keypair bundle.manifest files
      = files.map (rewriteManifest bundle.manifest) := by
    rw [signedCopy, hsame]
  have hzipped := hsigned.zipped
  have hsidecar := attests_iff (hhash bundle signed hpreviewed.loaded hload) hmanifest'.symm
    (fun path hpath hother => (hfiles path hpath hother).symm) hpreviewed.size hflag.symm
  constructor
  · rintro ⟨preview', hpreview', hattested', -⟩
    obtain ⟨again, hpreviewed', -, -, hflag'⟩ := previewInstall_flags hpreview'
    obtain rfl := Except.ok.inj (hload.symm.trans hpreviewed'.loaded)
    rw [hattested'] at hflag'
    have hheld := (hsidecar.mp hflag'.symm).trans hsidecar'
    refine ⟨⟨entries, files, bundle, sig, hsigned.archive, hsigned.signed, hpreviewed.loaded,
      hsigned.signature, hheld⟩, ⟨entries, files, bundle, _, out, signed, hsigned.archive,
      hsigned.signed, hpreviewed.loaded, hheld, ?_, hload, hpreviewed'.scanned, hpreviewed'.size⟩⟩
    rw [← hcopy]
    exact hzipped
  · rintro ⟨⟨entries', files', bundle', sig', harchive, hentries, hloaded, hsig, hheld⟩,
      _, _, _, raw, rezipped, again, harchive₂, hentries₂, hloaded₂, hraw, hrezipped, hagain, hscan,
      hsize⟩
    obtain rfl := Except.ok.inj (hsigned.archive.symm.trans harchive)
    obtain rfl := Option.some.inj (hsigned.signed.symm.trans hentries)
    obtain rfl := Except.ok.inj (hpreviewed.loaded.symm.trans hloaded)
    obtain rfl := Option.some.inj (hsigned.signature.symm.trans hsig)
    obtain rfl := Except.ok.inj (hsigned.archive.symm.trans harchive₂)
    obtain rfl := Option.some.inj (hsigned.signed.symm.trans hentries₂)
    obtain rfl := Except.ok.inj (hpreviewed.loaded.symm.trans hloaded₂)
    -- what is zipped anew is what the tool has written
    obtain rfl := Option.some.inj (hheld.symm.trans hraw)
    rw [← hcopy, hzipped] at hrezipped
    obtain rfl := Except.ok.inj hrezipped
    obtain rfl := Except.ok.inj (hload.symm.trans hagain)
    have hpreviewed' : Previewed store out signed :=
      ⟨hload, hscan, by rw [hmanifest']; exact hpreviewed.notRevoked, hsize⟩
    obtain ⟨preview', hpreview'⟩ := exists_preview hpreviewed' hverify
    obtain ⟨again, hagain, -, hverify', hflag'⟩ := previewInstall_flags hpreview'
    obtain rfl := Except.ok.inj (hload.symm.trans hagain.loaded)
    refine ⟨preview', hpreview', ?_, ?_⟩
    · rw [hflag']
      exact hsidecar.mpr (hheld.trans hsidecar'.symm)
    · exact (Except.ok.inj (hverify.symm.trans hverify')).symm

end

/-! ## An attested page -/

/-- Entries in the order of their names are what sorting leaves. -/
theorem sortedByName_of_sorted {files sorted : List (String × Bytes)} (hperm : files.Perm sorted)
    (hnodup : (sorted.map Prod.fst).Nodup)
    (hsorted : sorted.Pairwise fun a b => decide (a.1 ≤ b.1) = true) :
    sortedByName files = sorted := by
  rw [sortedByName_congr ((hperm.map _).nodup_iff.mpr hnodup) hnodup fun x => hperm.mem_iff]
  exact List.mergeSort_of_pairwise hsorted

section

attribute [local instance] hashingPrims unreadCodec

/-- A manifest that names its developer. -/
def signerManifest : MiniAppManifest :=
  { (symbolicListing 1 5).manifest with developerPeerId := some (symbolicKey 1).peerIdString }

def indexFile : String × Bytes := ("index.html", asBytes "<html></html>")

/-- The hash of the page under this manifest. -/
def attestedHash : String :=
  contentAttestationHash
    { manifest := signerManifest
      files := (∅ : KvTree.Of String Bytes).insert indexFile.1 indexFile.2 }

@[reducible] def attestedBundles : BundlePrims :=
  stuffedBundles
    { signerManifest with reproducibleBuild := some { attestedBundleHash := some attestedHash } }

attribute [local instance] attestedBundles stuffedWriter

/-- The page and the manifest that attests it. -/
def attestedPage : List (String × Bytes) :=
  [("mycelium-app.json", 1 :: asBytes (symbolicKey 1).peerIdString), indexFile]

/-- The preview of the page, before it is signed, says that it is attested. -/
theorem preview_attestedPage :
    (({} : AppStore).previewInstall (attestedPage.flatMap stuffEntry)).map
      (fun preview => (preview.reproducibleAttested, preview.manifest.developerPeerId))
    = .ok (true, some (symbolicKey 1).peerIdString) := by
  decide +kernel

/-- The page, its manifest and its attested hash. -/
theorem load_attestedPage :
    (MiniAppBundle.loadFromBytes (attestedPage.flatMap stuffEntry)).map
      (fun bundle => (bundle.manifest, contentFiles bundle, bundle.getFile bundleSigFile))
    = .ok ({ signerManifest with reproducibleBuild := some { attestedBundleHash := some attestedHash } },
        [indexFile], none) := by
  decide +kernel

/-- The sidecar of the page. -/
def pageSidecar : Bytes :=
  let hash := hexEncode (Prims.blake3 ([indexFile,
    ("mycelium-app.json", 1 :: asBytes (symbolicKey 1).peerIdString)].flatMap hashedEntry)).toList
  BundleWriter.signaturePretty
    { bundleHash := hash, signature := hexEncode ((symbolicKey 1).secret.toList ++ asBytes hash) }

/-- The archive holds what was written. -/
theorem zipEntries_attestedPage : BundlePrims.zipEntries (attestedPage.flatMap stuffEntry)
    = .ok (attestedPage.map writtenEntry) :=
  (stuffedWriter_laws _).read _ _ rfl

/-- Signing the page adds its sidecar. -/
theorem signed_attestedPage {out : Bytes} {bundle bundle' : MiniAppBundle}
    (hsign : signBundle (symbolicKey 1) (attestedPage.flatMap stuffEntry) = .ok out)
    (hload : MiniAppBundle.loadFromBytes (attestedPage.flatMap stuffEntry) = .ok bundle)
    (hload' : MiniAppBundle.loadFromBytes out = .ok bundle') :
    bundle'.manifest = bundle.manifest
      ∧ bundle'.getFile bundleSigFile = some pageSidecar
      ∧ ∀ path, path ≠ bundleSigFile → path ≠ "mycelium-app.json" →
        bundle.getFile path = bundle'.getFile path := by
  have hpage := load_attestedPage
  -- the loader, the signer and the writer are run on this archive, and the results named
  rw [hload] at hpage
  have hmanifest : bundle.manifest = _ := congrArg Prod.fst (Except.ok.inj hpage)
  obtain ⟨entries, manifest, files, sig, h⟩ := signBundle_ok (stuffedWriter_laws _) hsign
  obtain rfl := h.manifest_eq (stuffedWriter_laws _) hload
  obtain ⟨signed, hsigned, hmanifest', hsidecar, hfiles⟩ := h.loaded (stuffedWriter_laws _) hload
  obtain rfl := Except.ok.inj (hsigned.symm.trans hload')
  obtain rfl := Except.ok.inj (zipEntries_attestedPage.symm.trans h.archive)
  obtain rfl : attestedPage = files := by
    have hall : signedEntries (attestedPage.map writtenEntry) = some attestedPage := by
      decide +kernel
    exact Option.some.inj (hall.symm.trans h.signed)
  have hcopy : signedCopy (symbolicKey 1) bundle.manifest attestedPage = attestedPage := by
    rw [hmanifest]
    decide +kernel
  have hsorted : sortedByName attestedPage = [indexFile,
      ("mycelium-app.json", 1 :: asBytes (symbolicKey 1).peerIdString)] :=
    sortedByName_of_sorted (List.Perm.swap _ _ _) (by decide +kernel) (by decide +kernel)
  have hsig := h.signature
  rw [hcopy] at hsig hsidecar
  refine ⟨?_, ?_, fun path hpath hother => (hfiles path hpath hother).symm⟩
  · rw [hmanifest', hmanifest]
    decide +kernel
  · rw [hsidecar, sidecar, ← Option.some.inj hsig, contentsHash, hsorted]
    rfl

/-- What is hashed for the page with these files. -/
def pageInput (files : List (String × Bytes)) : Bytes :=
  let manifestBytes := AppCodec.manifestJson signerManifest
  asBytes "mycelium-miniapp-content-v1\x00" ++ leBytes 8 manifestBytes.length ++ manifestBytes
    ++ files.flatMap hashedEntry

/-- The page with the sidecar and the page without it have different hashes. -/
theorem noCollision_attestedPage {bundle bundle' : MiniAppBundle}
    (hload : MiniAppBundle.loadFromBytes (attestedPage.flatMap stuffEntry) = .ok bundle)
    (hmanifest : bundle'.manifest = bundle.manifest)
    (hsidecar : bundle'.getFile bundleSigFile = some pageSidecar)
    (hfiles : ∀ path, path ≠ bundleSigFile → path ≠ "mycelium-app.json" →
      bundle.getFile path = bundle'.getFile path) : NoCollision bundle bundle' := by
  have hpage := load_attestedPage
  rw [hload] at hpage
  have hattests : bundle.manifest = _ := congrArg Prod.fst (Except.ok.inj hpage)
  -- without the sidecar the contents are the index page, with it there is one file more
  have hcontent : contentFiles bundle = [indexFile] :=
    congrArg (fun x => x.2.1) (Except.ok.inj hpage)
  have hrest : (attestedFiles bundle').Perm [indexFile] := by
    refine (perm_attestedFiles hfiles).symm.trans ?_
    rw [attestedFiles, hcontent]
    exact List.Perm.of_eq (by decide)
  have hcontent' : (contentFiles bundle').Perm [indexFile, (bundleSigFile, pageSidecar)] := by
    refine (perm_contentFiles bundle').trans ?_
    rw [sidecarFiles, hsidecar]
    exact (hrest.cons _).trans (List.Perm.swap _ _ _)
  have hsorted : sortedByName (contentFiles bundle) = [indexFile] :=
    sortedByName_of_sorted (by rw [hcontent]) (by decide) (List.pairwise_singleton _ _)
  have hsorted' : sortedByName (contentFiles bundle') = [indexFile, (bundleSigFile, pageSidecar)] :=
    sortedByName_of_sorted hcontent' (by decide) (by decide +kernel)
  have hinput : contentInput bundle = pageInput [indexFile] := by
    rw [contentInput, hsorted, hattests]
    rfl
  have hinput' : contentInput bundle' = pageInput [indexFile, (bundleSigFile, pageSidecar)] := by
    rw [contentInput, hsorted', hmanifest, hattests]
    rfl
  -- the two inputs of the hash differ, which is all that is asked of it
  have hne : Prims.blake3 (pageInput [indexFile])
      ≠ Prims.blake3 (pageInput [indexFile, (bundleSigFile, pageSidecar)]) := by
    decide +kernel
  intro hhash
  rw [hinput, hinput'] at hhash
  exact absurd hhash hne

/-- What a preview makes of the page, and that it can be signed. -/
theorem exists_signed_attestedPage :
    ∃ preview bundle out bundle', ({} : AppStore).previewInstall (attestedPage.flatMap stuffEntry)
        = .ok preview
      ∧ preview.reproducibleAttested = true
      ∧ preview.manifest.developerPeerId = some (symbolicKey 1).peerIdString
      ∧ Previewed {} (attestedPage.flatMap stuffEntry) bundle
      ∧ bundle.manifest.reproducibleAttestsHash (contentAttestationHash bundle) = true
      ∧ bundle.getFile bundleSigFile = none
      ∧ signBundle (symbolicKey 1) (attestedPage.flatMap stuffEntry) = .ok out
      ∧ MiniAppBundle.loadFromBytes out = .ok bundle' := by
  -- the preview succeeds, so its flags are those of the bundle that was read
  cases hpreview : ({} : AppStore).previewInstall (attestedPage.flatMap stuffEntry) with
  | error e =>
    have h := preview_attestedPage
    rw [hpreview] at h
    cases h
  | ok preview =>
    have h := preview_attestedPage
    rw [hpreview] at h
    have hattested : preview.reproducibleAttested = true := congrArg Prod.fst (Except.ok.inj h)
    have hdeveloper : preview.manifest.developerPeerId = some (symbolicKey 1).peerIdString :=
      congrArg Prod.snd (Except.ok.inj h)
    obtain ⟨bundle, hpreviewed, hmanifest, -, hflag⟩ := previewInstall_flags hpreview
    have hpage := load_attestedPage
    rw [hpreviewed.loaded] at hpage
    have hnone : bundle.getFile bundleSigFile = none :=
      congrArg (fun x => x.2.2) (Except.ok.inj hpage)
    -- the key that signs is the developer's, so nothing stops the signing
    have hsignable : Signable (symbolicKey 1) (attestedPage.flatMap stuffEntry)
        (attestedPage.map writtenEntry) bundle := by
      refine ⟨zipEntries_attestedPage, hpreviewed.loaded, by decide, by decide, fun p hp => ?_⟩
      rw [← hmanifest] at hp
      obtain rfl := Option.some.inj (hdeveloper.symm.trans hp)
      exact (symbolicKey_signer _ 1).peerId
    obtain ⟨out, _, bundle', hout, hsigned, -⟩ :=
      hsignable.step (symbolicKey_signer _ 1) (stuffedWriter_laws _)
    exact ⟨preview, bundle, out, bundle', rfl, hattested, hdeveloper, hpreviewed,
      hflag.symm.trans hattested, hnone, hout, hsigned.loaded⟩

/-- Signing the page takes its attestation away. -/
theorem signing_loses_attestation :
    ∃ preview out, ({} : AppStore).previewInstall (attestedPage.flatMap stuffEntry) = .ok preview
      ∧ preview.reproducibleAttested = true
      ∧ preview.manifest.developerPeerId = some (symbolicKey 1).peerIdString
      ∧ signBundle (symbolicKey 1) (attestedPage.flatMap stuffEntry) = .ok out
      ∧ ∀ preview', ({} : AppStore).previewInstall out = .ok preview' →
          preview'.reproducibleAttested = false := by
  obtain ⟨preview, bundle, out, bundle', hpreview, hattested, hdeveloper, hpreviewed, hattests,
    hnone, hout, hload'⟩ := exists_signed_attestedPage
  refine ⟨preview, out, hpreview, hattested, hdeveloper, hout, fun preview' hpreview' => ?_⟩
  obtain ⟨hmanifest, hsidecar, hfiles⟩ := signed_attestedPage hout hpreviewed.loaded hload'
  have hhash := noCollision_attestedPage hpreviewed.loaded hmanifest hsidecar hfiles
  obtain ⟨again, hpreviewed', -, -, hflag⟩ := previewInstall_flags hpreview'
  obtain rfl := Except.ok.inj (hload'.symm.trans hpreviewed'.loaded)
  rw [hflag, ← Bool.not_eq_true,
    attests_iff hhash hmanifest.symm hfiles hpreviewed.size hattests, hnone, hsidecar]
  exact nofun

/-- The page holds no sidecar, so its attestation does not survive. -/
theorem attestation_survives_page :
    ∃ out, signBundle (symbolicKey 1) (attestedPage.flatMap stuffEntry) = .ok out
      ∧ ¬ ∃ preview', ({} : AppStore).previewInstall out = .ok preview'
        ∧ preview'.reproducibleAttested = true ∧ preview'.bundleSignatureOk = true := by
  obtain ⟨preview, bundle, out, -, hpreview, hattested, hdeveloper, hpreviewed, -, hnone, hout, -⟩ :=
    exists_signed_attestedPage
  have hiff := attestation_survives_iff (symbolicKey_signer _ 1) (stuffedWriter_laws _) hpreview
    hattested hdeveloper (symbolicKey_signer _ 1).peerId hout fun b b' hb hb' => by
      obtain ⟨hmanifest, hsidecar, hfiles⟩ := signed_attestedPage hout hb hb'
      exact noCollision_attestedPage hb hmanifest hsidecar hfiles
  refine ⟨out, hout, fun h => ?_⟩
  obtain ⟨_, _, bundle', _, -, -, hload, -, hheld⟩ := (hiff.mp h).1
  obtain rfl := Except.ok.inj (hpreviewed.loaded.symm.trans hload)
  cases hnone.symm.trans hheld

end

end Mycelium.App
