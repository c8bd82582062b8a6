import Mycelium.App.SignedContents
import Mycelium.Core.Symbolic

/-!
# Mycelium app — how a bundle is signed

Translation of `sign_bundle` of `miniapp-sdk/src/main.rs`. The tool copies the entries of an archive
without the sidecar and with the manifest written anew, hashes the copy, and appends the sidecar to a
copy of the copy. The host hashes what it receives and leaves the sidecar out.

* `signBundle` — the tool;
* `signBundle_ok_iff` — when it succeeds, and what it writes;
* `sign_verifies` — one signing of an archive that can be signed gives another one, and it verifies;
* `signed_bundle_verifies` — and so does any number of them.
-/

namespace Mycelium.App

/-- The library functions that write a bundle. -/
class BundleWriter where
  /-- `ZipWriter`: `start_file` and `write_all` for every entry, then `finish`. -/
  writeZip : List (String × Bytes) → Except String Bytes
  /-- `serde_json::to_vec_pretty(&manifest)`. -/
  manifestPretty : MiniAppManifest → Bytes
  /-- `serde_json::to_string_pretty(&sig)`. -/
  signaturePretty : BundleSignatureFile → Bytes

/-- An entry as it is read back. -/
def writtenEntry (x : String × Bytes) : ZipEntry := ⟨x.1, isDirName x.1, some x.2⟩

/-- What is written is read back, and entries with different names can be written. Directories are
told by their name. -/
structure BundleWriter.Laws [BundlePrims] [BundleWriter] : Prop where
  read : ∀ files data, BundleWriter.writeZip files = .ok data →
    BundlePrims.zipEntries data = .ok (files.map writtenEntry)
  isDir : ∀ data entries, BundlePrims.zipEntries data = .ok entries →
    ∀ e ∈ entries, e.isDir = isDirName e.name
  write : ∀ files, (files.map Prod.fst).Nodup → (BundleWriter.writeZip files).isOk = true
  /-- A manifest that was read, whatever developer it names by now. -/
  manifest : ∀ raw m developer, BundlePrims.parseManifest raw = .ok m →
    BundlePrims.parseManifest (BundleWriter.manifestPretty { m with developerPeerId := developer })
      = .ok { m with developerPeerId := developer }
  signature : ∀ s, BundlePrims.parseBundleSignature (BundleWriter.signaturePretty s) = .ok s

/-- The key signs, its signatures verify, and its peer id is read back and holds the public key. -/
structure Signer [Prims] (keypair : Keypair) : Prop where
  signs : ∀ m, ∃ sig, Prims.identity.sign keypair m = some sig ∧ sig ≠ []
    ∧ Prims.identity.verify (Prims.identity.pub keypair) m sig = true
  peerId : Prims.parsePeerId keypair.peerIdString
    = some (Prims.toPeerId (Prims.identity.pub keypair))
  publicKey : (Prims.toPeerId (Prims.identity.pub keypair)).publicKey
    = some (Prims.identity.pub keypair)

section

variable [Prims] [BundlePrims]

/-- `BundleSignatureFile::sign`. -/
def BundleSignatureFile.sign (bundleBytes : Bytes) (keypair : Keypair) :
    Except String BundleSignatureFile :=
  match bundleHashForSignature bundleBytes with
  | none => .error "invalid Zip archive"
  | some bundleHash =>
    match Prims.identity.sign keypair (asBytes bundleHash) with
    | none => .error "ed25519 sign bundle hash"
    | some sig => .ok { bundleHash, signature := hexEncode sig }

/-- `ZipArchive::by_name`, and the bytes of the entry; of several with the name, the last. -/
def readByName (entries : List ZipEntry) (name : String) : Except String Bytes :=
  match ((entries.filter fun e => e.name = name).getLast?).bind ZipEntry.data with
  | none => .error "specified file not found in archive"
  | some buf => .ok buf

/-- The manifest names a developer: the signer, if it named none. -/
def MiniAppManifest.namingDeveloper (manifest : MiniAppManifest) (keypair : Keypair) :
    MiniAppManifest :=
  if manifest.developerPeerId.isNone then { manifest with developerPeerId := some keypair.peerIdString }
  else manifest

variable [BundleWriter]

/-- The entry of the manifest is written anew. -/
def rewriteManifest (manifest : MiniAppManifest) (x : String × Bytes) : String × Bytes :=
  (x.1, if x.1 = "mycelium-app.json" then BundleWriter.manifestPretty manifest else x.2)

/-- `sign_bundle`, from the bytes of the archive to the bytes that are written. -/
def signBundle (keypair : Keypair) (data : Bytes) : Except String Bytes := do
  let entries ← BundlePrims.zipEntries data
  let manifestBytes ← readByName entries "mycelium-app.json"
  let manifest ← BundlePrims.parseManifest manifestBytes
  match signedEntries entries with
  | none => .error "unreadable file in bundle"
  | some files =>
    -- the archive is written twice: the signature covers it without the sidecar
    let unsigned ← BundleWriter.writeZip
      (files.map (rewriteManifest (manifest.namingDeveloper keypair)))
    let sig ← BundleSignatureFile.sign unsigned keypair
    let entries ← BundlePrims.zipEntries unsigned
    match entries.mapM fun e => e.data.map fun buf => (e.name, buf) with
    | none => .error "unreadable file in bundle"
    | some files =>
      BundleWriter.writeZip (files ++ [(bundleSigFile, BundleWriter.signaturePretty sig)])

/-- Signing again and again. -/
def signTimes (keypair : Keypair) : Nat → Bytes → Except String Bytes
  | 0, data => .ok data
  | n + 1, data => do signTimes keypair n (← signBundle keypair data)

/-! ## Reading and writing entries -/

omit [Prims] [BundlePrims] [BundleWriter] in
/-- Of what was written, all but the sidecar is signed. -/
theorem signedEntries_written (files : List (String × Bytes)) :
    signedEntries (files.map writtenEntry) = some (files.filter fun x => x.1 ≠ bundleSigFile) := by
  induction files with
  | nil => rfl
  | cons x files ih =>
    rw [List.map_cons, signedEntries, ih]
    by_cases hname : x.1 = bundleSigFile
    · rw [if_pos (show (writtenEntry x).name = bundleSigFile from hname),
        List.filter_cons_of_neg (by simpa using hname)]
    · rw [if_neg (show ¬ (writtenEntry x).name = bundleSigFile from hname),
        List.filter_cons_of_pos (by simpa using hname)]
      rfl

omit [Prims] [BundlePrims] [BundleWriter] in
/-- What was written is read back in its order. -/
theorem mapM_written (files : List (String × Bytes)) :
    ((files.map writtenEntry).mapM fun e => e.data.map fun buf => (e.name, buf)) = some files := by
  induction files with
  | nil => rfl
  | cons x files ih =>
    rw [List.map_cons, List.mapM_cons, ih]
    rfl

omit [Prims] [BundlePrims] [BundleWriter] in
/-- The signature is not among the files it is over. -/
theorem name_ne_of_mem_signed {entries : List ZipEntry} {files : List (String × Bytes)}
    (h : signedEntries entries = some files) {x : String × Bytes} (hx : x ∈ files) :
    x.1 ≠ bundleSigFile := by
  have hname : x.1 ∈ signedNames entries := by
    rw [← map_fst_signedEntries h]
    exact List.mem_map_of_mem hx
  exact of_decide_eq_true (List.mem_filter.mp hname).2

omit [Prims] [BundlePrims] [BundleWriter] in
/-- The last entry of a name, in the archive and among the signed files. -/
theorem getLast_filter_signed {entries : List ZipEntry} {files : List (String × Bytes)}
    (h : signedEntries entries = some files) {name : String} (hname : name ≠ bundleSigFile) :
    ((entries.filter fun e => e.name = name).getLast?).bind ZipEntry.data = lastOf name files := by
  induction entries generalizing files with
  | nil =>
    obtain rfl := Option.some.inj h
    rfl
  | cons e rest ih =>
    rcases signedEntries_cons h with ⟨hsig, hrest⟩ | ⟨-, data, others, hdata, hrest, rfl⟩
    · have hne : e.name ≠ name := fun heq => hname (heq.symm.trans hsig)
      rw [List.filter_cons_of_neg (by simpa using hne), ih hrest]
    · by_cases hsame : e.name = name
      · subst hsame
        rw [lastOf_cons_self, ← ih hrest, List.filter_cons_of_pos (by simp), List.getLast?_cons]
        cases hlast : (rest.filter fun x => x.name = e.name).getLast? with
        | none => simpa using hdata
        | some e' =>
          -- a later entry of the name can be read as well
          obtain ⟨hmem, -⟩ := List.mem_filter.mp (List.mem_of_getLast? hlast)
          have hname' : e'.name = e.name :=
            of_decide_eq_true (List.mem_filter.mp (List.mem_of_getLast? hlast)).2
          have hlater : e.name ∈ others.map Prod.fst := by
            rw [map_fst_signedEntries hrest, ← hname']
            exact List.mem_filter.mpr ⟨List.mem_map_of_mem hmem, decide_eq_true (hname' ▸ hname)⟩
          have hsome := isSome_lastOf_iff.mpr hlater
          rw [← ih hrest, hlast] at hsome
          obtain ⟨buf, hbuf⟩ := Option.isSome_iff_exists.mp hsome
          have hdata' : e'.data = some buf := hbuf
          show e'.data = (e'.data).or (some data)
          rw [hdata', Option.some_or]
      · rw [List.filter_cons_of_neg (by simpa using hsame), lastOf_cons_ne hsame, ih hrest]

omit [Prims] [BundlePrims] in
/-- Rewriting the manifest changes the file of that name only. -/
theorem lastOf_rewriteManifest (manifest : MiniAppManifest) (path : String)
    (files : List (String × Bytes)) :
    lastOf path (files.map (rewriteManifest manifest)) = (lastOf path files).map fun buf =>
      if path = "mycelium-app.json" then BundleWriter.manifestPretty manifest else buf := by
  have hfilter : (files.map (rewriteManifest manifest)).filter (fun x => x.1 = path)
      = (files.filter fun x => x.1 = path).map (rewriteManifest manifest) := by
    rw [List.filter_map]
    rfl
  unfold lastOf
  rw [hfilter, List.getLast?_map, Option.map_map, Option.map_map]
  cases hlast : (files.filter fun x => x.1 = path).getLast? with
  | none => rfl
  | some x =>
    have hname : x.1 = path :=
      of_decide_eq_true (List.mem_filter.mp (List.mem_of_getLast? hlast)).2
    simp [rewriteManifest, hname]

/-! ## One signing -/

/-- The digest of the entries that are signed. -/
def contentsHash (files : List (String × Bytes)) : String :=
  hexEncode (Prims.blake3 ((sortedByName files).flatMap hashedEntry)).toList

/-- The entries of the copy. -/
def signedCopy (keypair : Keypair) (manifest : MiniAppManifest) (files : List (String × Bytes)) :
    List (String × Bytes) :=
  files.map (rewriteManifest (manifest.namingDeveloper keypair))

/-- The sidecar of the copy. -/
def sidecar (files : List (String × Bytes)) (sig : Bytes) : Bytes :=
  BundleWriter.signaturePretty { bundleHash := contentsHash files, signature := hexEncode sig }

/-- What one signing reads and writes. -/
structure SignedAs (keypair : Keypair) (data out : Bytes) (entries : List ZipEntry)
    (manifest : MiniAppManifest) (files : List (String × Bytes)) (sig : Bytes) : Prop where
  archive : BundlePrims.zipEntries data = .ok entries
  parsed : ∃ raw, readByName entries "mycelium-app.json" = .ok raw
    ∧ BundlePrims.parseManifest raw = .ok manifest
  signed : signedEntries entries = some files
  signature : Prims.identity.sign keypair (asBytes (contentsHash (signedCopy keypair manifest files)))
    = some sig
  zipped : BundleWriter.writeZip (signedCopy keypair manifest files
    ++ [(bundleSigFile, sidecar (signedCopy keypair manifest files) sig)]) = .ok out
  written : BundlePrims.zipEntries out = .ok ((signedCopy keypair manifest files
    ++ [(bundleSigFile, sidecar (signedCopy keypair manifest files) sig)]).map writtenEntry)

omit [BundleWriter] in
/-- The digest of an archive is that of its signed files. -/
theorem bundleHashForSignature_of_signed {data : Bytes} {entries : List ZipEntry}
    {files : List (String × Bytes)} (harchive : BundlePrims.zipEntries data = .ok entries)
    (hsigned : signedEntries entries = some files) :
    bundleHashForSignature data = some (contentsHash files) := by
  unfold bundleHashForSignature
  rw [harchive]
  dsimp only
  rw [hsigned]
  rfl

variable {keypair : Keypair} {data out : Bytes} {entries : List ZipEntry} {manifest : MiniAppManifest}
  {files : List (String × Bytes)} {sig : Bytes} {bundle : MiniAppBundle}

omit [BundlePrims] in
/-- The signed copy has the files it is made from. -/
theorem fst_signedCopy (keypair : Keypair) (manifest : MiniAppManifest)
    (files : List (String × Bytes)) :
    (signedCopy keypair manifest files).map Prod.fst = files.map Prod.fst := by
  rw [signedCopy, List.map_map]
  rfl

omit [BundlePrims] in
/-- The signature is not among them. -/
theorem name_ne_of_mem_signedCopy (hsigned : signedEntries entries = some files)
    {x : String × Bytes} (hx : x ∈ signedCopy keypair manifest files) : x.1 ≠ bundleSigFile := by
  have hname : x.1 ∈ (signedCopy keypair manifest files).map Prod.fst := List.mem_map_of_mem hx
  rw [fst_signedCopy] at hname
  obtain ⟨y, hy, heq⟩ := List.mem_map.mp hname
  rw [← heq]
  exact name_ne_of_mem_signed hsigned hy

omit [BundlePrims] in
/-- The sidecar is left out again. -/
theorem signedEntries_signedCopy (hsigned : signedEntries entries = some files) (more : Bytes) :
    signedEntries ((signedCopy keypair manifest files ++ [(bundleSigFile, more)]).map writtenEntry)
      = some (signedCopy keypair manifest files) := by
  rw [signedEntries_written, List.filter_append, List.filter_cons_of_neg (by simp), List.filter_nil,
    List.append_nil, List.filter_eq_self.mpr]
  intro x hx
  exact decide_eq_true (name_ne_of_mem_signedCopy hsigned hx)

omit [BundlePrims] in
/-- Reading the copy gives the files it was written with. -/
theorem signedEntries_copy (hsigned : signedEntries entries = some files) :
    signedEntries ((signedCopy keypair manifest files).map writtenEntry)
      = some (signedCopy keypair manifest files) := by
  rw [signedEntries_written, List.filter_eq_self.mpr]
  intro x hx
  exact decide_eq_true (name_ne_of_mem_signedCopy hsigned hx)

/-- **One signing.** -/
theorem signBundle_ok (hlaws : BundleWriter.Laws) (h : signBundle keypair data = .ok out) :
    ∃ entries manifest files sig, SignedAs keypair data out entries manifest files sig := by
  obtain ⟨entries, harchive, h⟩ := except_bind_ok h
  obtain ⟨raw, hraw, h⟩ := except_bind_ok h
  obtain ⟨manifest, hmanifest, h⟩ := except_bind_ok h
  split at h
  · cases h
  next files hsigned =>
  obtain ⟨unsigned, hunsigned, h⟩ := except_bind_ok h
  obtain ⟨sigFile, hsig, h⟩ := except_bind_ok h
  obtain ⟨copied, hcopied, h⟩ := except_bind_ok h
  have hunsigned' := hlaws.read _ _ hunsigned
  obtain rfl := Except.ok.inj (hcopied.symm.trans hunsigned')
  rw [mapM_written] at h
  dsimp only at h
  unfold BundleSignatureFile.sign at hsig
  rw [bundleHashForSignature_of_signed hunsigned' (signedEntries_copy hsigned)] at hsig
  dsimp only at hsig
  split at hsig
  · cases hsig
  next sig hsign =>
  obtain rfl := Except.ok.inj hsig
  exact ⟨entries, manifest, files, sig, harchive, ⟨raw, hraw, hmanifest⟩, hsigned, hsign, h,
    hlaws.read _ _ h⟩

/-! ## What the host makes of it -/

omit [Prims] [BundleWriter] in
/-- What a bundle is read from: an archive whose files are safe and whose manifest is valid. -/
theorem loadFromBytes_ok_iff :
    MiniAppBundle.loadFromBytes data = .ok bundle ↔ ∃ entries raw,
      BundlePrims.zipEntries data = .ok entries ∧ unpack ∅ entries = .ok bundle.files
      ∧ bundle.files.lookup "mycelium-app.json" = some raw
      ∧ BundlePrims.parseManifest raw = .ok bundle.manifest
      ∧ bundle.manifest.validate = .ok () := by
  constructor
  -- the steps in the order of the source, and back
  · intro h
    obtain ⟨entries, hentries, h⟩ := except_bind_ok h
    obtain ⟨files, hfiles, h⟩ := except_bind_ok h
    split at h
    · cases h
    next raw hraw =>
    obtain ⟨manifest, hmanifest, h⟩ := except_bind_ok h
    obtain ⟨⟨⟩, hvalid, h⟩ := except_bind_ok h
    obtain rfl := Except.ok.inj h
    exact ⟨entries, raw, hentries, hfiles, hraw, hmanifest, hvalid⟩
  · rintro ⟨entries, raw, hentries, hfiles, hraw, hmanifest, hvalid⟩
    unfold MiniAppBundle.loadFromBytes
    rw [hentries]
    show (unpack ∅ entries >>= _) = _
    rw [hfiles]
    show (match bundle.files.lookup "mycelium-app.json" with | none => _ | some _ => _) = _
    rw [hraw]
    dsimp only
    rw [hmanifest]
    show (bundle.manifest.validate >>= _) = _
    rw [hvalid]
    rfl

omit [Prims] [BundlePrims] [BundleWriter] in
/-- A file that is unpacked has a safe path. -/
theorem safe_of_unpack {tree tree' : KvTree.Of String Bytes} (h : unpack tree entries = .ok tree')
    {e : ZipEntry} (he : e ∈ entries) (hfile : e.isDir = false) :
    isSafeBundlePath e.name = true := by
  induction entries generalizing tree with
  | nil => cases he
  | cons e' rest ih =>
    unfold unpack at h
    rcases List.mem_cons.mp he with rfl | he
    · rw [hfile, if_neg Bool.false_ne_true] at h
      split at h
      · cases h
      · next hsafe => simpa using hsafe
    · split at h
      · exact ih h he
      split at h
      · cases h
      split at h
      · cases h
      · exact ih h he

omit [Prims] [BundlePrims] [BundleWriter] in
/-- Files with safe paths are unpacked. Induction on the files. -/
theorem unpack_written {files : List (String × Bytes)}
    (hsafe : ∀ x ∈ files, isDirName x.1 = false → isSafeBundlePath x.1 = true)
    (tree : KvTree.Of String Bytes) :
    ∃ tree', unpack tree (files.map writtenEntry) = .ok tree' := by
  induction files generalizing tree with
  | nil => exact ⟨tree, rfl⟩
  | cons x files ih =>
    have hrest := ih fun y hy => hsafe y (List.mem_cons_of_mem _ hy)
    rw [List.map_cons, unpack]
    split
    · exact hrest tree
    · next hfile =>
      have hfile' : isDirName x.1 = false := by simpa [writtenEntry] using hfile
      have hname : isSafeBundlePath (writtenEntry x).name = true :=
        hsafe x List.mem_cons_self hfile'
      rw [hname]
      exact hrest _

omit [Prims] [BundlePrims] [BundleWriter] in
/-- Unpacking in two parts. -/
theorem unpack_append (tree : KvTree.Of String Bytes) (entries more : List ZipEntry) :
    unpack tree (entries ++ more) = unpack tree entries >>= fun tree' => unpack tree' more := by
  induction entries generalizing tree with
  | nil => rfl
  | cons e entries ih =>
    rw [List.cons_append, unpack, unpack]
    split
    · exact ih tree
    split
    · rfl
    split
    · rfl
    · exact ih _

omit [Prims] [BundlePrims] [BundleWriter] in
/-- The signature is unpacked like any other file. -/
theorem unpack_sidecar (tree : KvTree.Of String Bytes) (more : Bytes) :
    unpack tree [writtenEntry (bundleSigFile, more)] = .ok (tree.insert bundleSigFile more) := by
  have hfile : isDirName bundleSigFile = false := by decide
  have hsafe : isSafeBundlePath bundleSigFile = true := by decide
  simp [unpack, writtenEntry, hfile, hsafe]

omit [Prims] in
/-- The files of a bundle, from the entries that are signed. -/
theorem getFile_of_signed (hlaws : BundleWriter.Laws)
    (hload : MiniAppBundle.loadFromBytes data = .ok bundle)
    (harchive : BundlePrims.zipEntries data = .ok entries)
    (hsigned : signedEntries entries = some files) {path : String} (hpath : path ≠ bundleSigFile) :
    bundle.getFile path = if isDirName path then none else lastOf path files := by
  obtain ⟨entries', raw, harchive', hunpack, -⟩ := loadFromBytes_ok_iff.mp hload
  obtain rfl := Except.ok.inj (harchive.symm.trans harchive')
  show bundle.files.lookup path = _
  rw [unpack_lookup (hlaws.isDir data entries harchive) hunpack hsigned hpath, AList.lookup_empty,
    Option.or_none]

omit [BundlePrims] [BundleWriter] in
/-- Naming the developer does not make a manifest invalid. -/
theorem validate_namingDeveloper (keypair : Keypair) (manifest : MiniAppManifest) :
    (manifest.namingDeveloper keypair).validate = manifest.validate := by
  unfold MiniAppManifest.namingDeveloper
  split <;> rfl

omit [BundlePrims] [BundleWriter] in
/-- A manifest that names its signer, or nobody, names its signer afterwards. -/
theorem developer_namingDeveloper (hkey : Signer keypair)
    (hdeveloper : ∀ p, manifest.developerPeerId = some p →
      Prims.parsePeerId p = some (Prims.toPeerId (Prims.identity.pub keypair))) :
    ∀ p, (manifest.namingDeveloper keypair).developerPeerId = some p →
      Prims.parsePeerId p = some (Prims.toPeerId (Prims.identity.pub keypair)) := by
  intro p hp
  unfold MiniAppManifest.namingDeveloper at hp
  split at hp
  · rw [← Option.some.inj hp]
    exact hkey.peerId
  · exact hdeveloper p hp

omit [BundlePrims] [BundleWriter] in
/-- Afterwards it names somebody. -/
theorem exists_developer (keypair : Keypair) (manifest : MiniAppManifest) :
    ∃ p, (manifest.namingDeveloper keypair).developerPeerId = some p := by
  unfold MiniAppManifest.namingDeveloper
  cases hdev : manifest.developerPeerId with
  | none => exact ⟨_, rfl⟩
  | some p => exact ⟨p, hdev⟩

/-- The rewritten manifest is read back. -/
theorem BundleWriter.Laws.read_namingDeveloper (hlaws : BundleWriter.Laws) {raw : Bytes}
    (hparsed : BundlePrims.parseManifest raw = .ok manifest) (keypair : Keypair) :
    BundlePrims.parseManifest (BundleWriter.manifestPretty (manifest.namingDeveloper keypair))
      = .ok (manifest.namingDeveloper keypair) := by
  unfold MiniAppManifest.namingDeveloper
  split
  · exact hlaws.manifest raw manifest _ hparsed
  · exact hlaws.manifest raw manifest manifest.developerPeerId hparsed

namespace SignedAs

/-- The tool and the host read the same manifest. -/
theorem manifest_eq (hlaws : BundleWriter.Laws)
    (h : SignedAs keypair data out entries manifest files sig)
    (hload : MiniAppBundle.loadFromBytes data = .ok bundle) : bundle.manifest = manifest := by
  obtain ⟨raw, hraw, hparsed⟩ := h.parsed
  obtain ⟨entries', raw', -, -, hraw', hparsed', -⟩ := loadFromBytes_ok_iff.mp hload
  have hfile : bundle.getFile "mycelium-app.json" = lastOf "mycelium-app.json" files :=
    getFile_of_signed hlaws hload h.archive h.signed (by decide)
  have hlast : lastOf "mycelium-app.json" files = some raw := by
    rw [← getLast_filter_signed h.signed (by decide)]
    unfold readByName at hraw
    split at hraw
    · cases hraw
    · next buf hbuf => rw [hbuf, Except.ok.inj hraw]
  have hsame : raw' = raw := Option.some.inj (hraw'.symm.trans (hfile.trans hlast))
  rw [hsame, hparsed] at hparsed'
  exact (Except.ok.inj hparsed').symm

/-- **The signed archive is loaded**: the manifest names a developer, the sidecar is the new one, and
the other files are the same. -/
theorem loaded (hlaws : BundleWriter.Laws)
    (h : SignedAs keypair data out entries manifest files sig)
    (hload : MiniAppBundle.loadFromBytes data = .ok bundle) :
    ∃ bundle', MiniAppBundle.loadFromBytes out = .ok bundle'
      ∧ bundle'.manifest = manifest.namingDeveloper keypair
      ∧ bundle'.getFile bundleSigFile = some (sidecar (signedCopy keypair manifest files) sig)
      ∧ ∀ path, path ≠ bundleSigFile → path ≠ "mycelium-app.json" →
        bundle'.getFile path = bundle.getFile path := by
  have hmanifest := h.manifest_eq hlaws hload
  have hfiles : ∀ path, path ≠ bundleSigFile →
      bundle.getFile path = if isDirName path then none else lastOf path files :=
    fun path hpath => getFile_of_signed hlaws hload h.archive h.signed hpath
  obtain ⟨entries', raw, harchive', hunpack, hraw, hparsed, hvalid⟩ := loadFromBytes_ok_iff.mp hload
  obtain rfl := Except.ok.inj (h.archive.symm.trans harchive')
  have hparsed' : BundlePrims.parseManifest raw = .ok manifest := hmanifest ▸ hparsed
  -- the rewritten copy has the names of the archive that was read, so its paths are safe too
  have hsafe : ∀ x ∈ signedCopy keypair manifest files, isDirName x.1 = false →
      isSafeBundlePath x.1 = true := by
    intro x hx hfile
    have hname : x.1 ∈ (signedCopy keypair manifest files).map Prod.fst := List.mem_map_of_mem hx
    rw [fst_signedCopy] at hname
    obtain ⟨y, hy, heq⟩ := List.mem_map.mp hname
    obtain ⟨e, he, hename, -⟩ := exists_of_mem_signedEntries h.signed hy
    rw [← heq, ← hename] at hfile ⊢
    exact safe_of_unpack hunpack he ((hlaws.isDir data entries h.archive e he).trans hfile)
  obtain ⟨tree, htree⟩ := unpack_written hsafe ∅
  -- the unpacked tree holds, under each name, the last file of that name
  have hlookup : ∀ path, path ≠ bundleSigFile → tree.lookup path
      = if isDirName path then none else lastOf path (signedCopy keypair manifest files) := by
    intro path hpath
    have hread : ∀ e ∈ (signedCopy keypair manifest files).map writtenEntry,
        e.isDir = isDirName e.name := by
      intro e he
      obtain ⟨x, -, rfl⟩ := List.mem_map.mp he
      rfl
    rw [unpack_lookup hread htree (signedEntries_copy h.signed) hpath, AList.lookup_empty,
      Option.or_none]
  -- the manifest alone is rewritten, to the one that names the developer
  have hmanifestFile : tree.lookup "mycelium-app.json"
      = some (BundleWriter.manifestPretty (manifest.namingDeveloper keypair)) := by
    have hfile : bundle.getFile "mycelium-app.json" = lastOf "mycelium-app.json" files :=
      hfiles _ (by decide)
    rw [hlookup _ (by decide)]
    show lastOf _ _ = _
    rw [signedCopy, lastOf_rewriteManifest, ← hfile, MiniAppBundle.getFile, hraw]
    rfl
  refine ⟨{ manifest := manifest.namingDeveloper keypair
            files := tree.insert bundleSigFile (sidecar (signedCopy keypair manifest files) sig) },
    ?_, rfl, AList.lookup_insert _, ?_⟩
  · refine loadFromBytes_ok_iff.mpr ⟨_, _, h.written, ?_, ?_, hlaws.read_namingDeveloper hparsed' keypair, ?_⟩
    · rw [List.map_append, unpack_append, htree]
      exact unpack_sidecar tree _
    · rw [AList.lookup_insert_ne (by decide)]
      exact hmanifestFile
    · rw [← hmanifest, validate_namingDeveloper]
      exact hvalid
  · intro path hpath hother
    show (tree.insert bundleSigFile _).lookup path = _
    rw [AList.lookup_insert_ne hpath, hlookup path hpath, hfiles path hpath, signedCopy,
      lastOf_rewriteManifest]
    simp only [if_neg hother, Option.map_id']

/-- **The sidecar verifies** under the developer of the manifest, if that is the signer. -/
theorem verifies (hkey : Signer keypair) (hlaws : BundleWriter.Laws)
    (h : SignedAs keypair data out entries manifest files sig)
    (hdeveloper : ∀ p, manifest.developerPeerId = some p →
      Prims.parsePeerId p = some (Prims.toPeerId (Prims.identity.pub keypair)))
    {bundle' : MiniAppBundle} (hmanifest : bundle'.manifest = manifest.namingDeveloper keypair)
    (hsidecar : bundle'.getFile bundleSigFile
      = some (sidecar (signedCopy keypair manifest files) sig)) :
    verifyBundleDeveloperSignature bundle' out = .ok true := by
  -- the signature is over the contents of the copy, and the developer named is the signer
  obtain ⟨sig', hsig', hne, hverify⟩ := hkey.signs (asBytes (contentsHash
    (signedCopy keypair manifest files)))
  obtain rfl := Option.some.inj (h.signature.symm.trans hsig')
  obtain ⟨p, hp, hparse⟩ : ∃ p, bundle'.manifest.developerPeerId = some p
      ∧ Prims.parsePeerId p = some (Prims.toPeerId (Prims.identity.pub keypair)) := by
    rw [hmanifest]
    obtain ⟨p, hp⟩ := exists_developer keypair manifest
    exact ⟨p, hp, developer_namingDeveloper hkey hdeveloper p hp⟩
  have hhash := bundleHashForSignature_of_signed h.written (signedEntries_signedCopy h.signed _)
  have hnonempty : hexEncode sig ≠ "" := by
    intro hempty
    have hdecode := hexDecode_hexEncode sig
    rw [hempty] at hdecode
    exact hne (Option.some.inj hdecode).symm
  -- the verifier walks through its checks: text, hash, developer, key, hex, signature
  unfold verifyBundleDeveloperSignature
  rw [hsidecar]
  dsimp only
  rw [sidecar, hlaws.signature]
  dsimp only
  unfold BundleSignatureFile.verify
  rw [if_neg hnonempty, hhash]
  dsimp only
  rw [if_neg (fun hne => hne rfl), hp]
  dsimp only
  rw [hparse]
  dsimp only
  rw [hkey.publicKey]
  dsimp only
  rw [trim_hexEncode, hexDecode_hexEncode]
  dsimp only
  rw [hverify]

end SignedAs

/-! ## Signing again -/

/-- An archive that can be signed: a bundle whose entries can be read and have different names, and
whose manifest names no developer or the signer. -/
structure Signable (keypair : Keypair) (data : Bytes) (entries : List ZipEntry)
    (bundle : MiniAppBundle) : Prop where
  archive : BundlePrims.zipEntries data = .ok entries
  loaded : MiniAppBundle.loadFromBytes data = .ok bundle
  nodup : (entries.map ZipEntry.name).Nodup
  readable : ∀ e ∈ entries, e.data.isSome
  developer : ∀ p, bundle.manifest.developerPeerId = some p →
    Prims.parsePeerId p = some (Prims.toPeerId (Prims.identity.pub keypair))

omit [Prims] [BundlePrims] [BundleWriter] in
/-- If all entries can be read, so can the signed ones. -/
theorem exists_signedEntries (hread : ∀ e ∈ entries, e.data.isSome) :
    ∃ files, signedEntries entries = some files := by
  induction entries with
  | nil => exact ⟨[], rfl⟩
  | cons e entries ih =>
    obtain ⟨files, hfiles⟩ := ih fun x hx => hread x (List.mem_cons_of_mem _ hx)
    obtain ⟨buf, hbuf⟩ := Option.isSome_iff_exists.mp (hread e List.mem_cons_self)
    rw [signedEntries, hfiles, hbuf]
    split
    · exact ⟨files, rfl⟩
    · exact ⟨(e.name, buf) :: files, rfl⟩

omit [Prims] in
/-- An archive with different names can be written. -/
theorem exists_writeZip (hlaws : BundleWriter.Laws) (hnodup : (files.map Prod.fst).Nodup) :
    ∃ out, BundleWriter.writeZip files = .ok out := by
  have hok := hlaws.write files hnodup
  cases hout : BundleWriter.writeZip files with
  | error e =>
    rw [hout] at hok
    cases hok
  | ok out => exact ⟨out, rfl⟩

omit [BundlePrims] in
/-- The signature adds a name that was not there. -/
theorem nodup_signedCopy (hnodup : (entries.map ZipEntry.name).Nodup)
    (hsigned : signedEntries entries = some files) (more : Bytes) :
    ((signedCopy keypair manifest files ++ [(bundleSigFile, more)]).map Prod.fst).Nodup := by
  rw [List.map_append, List.nodup_append]
  refine ⟨?_, List.nodup_singleton _, ?_⟩
  · rw [fst_signedCopy, map_fst_signedEntries hsigned]
    exact hnodup.filter _
  · intro name hname name' hname'
    obtain ⟨x, hx, rfl⟩ := List.mem_map.mp hname
    rw [List.mem_singleton.mp hname']
    exact name_ne_of_mem_signedCopy hsigned hx

/-- An archive that can be signed is signed. -/
theorem Signable.exists_out (hkey : Signer keypair) (hlaws : BundleWriter.Laws)
    (h : Signable keypair data entries bundle) :
    ∃ out, signBundle keypair data = .ok out := by
  obtain ⟨files, hsigned⟩ := exists_signedEntries h.readable
  obtain ⟨entries', raw, harchive', -, hraw, hparsed, -⟩ := loadFromBytes_ok_iff.mp h.loaded
  obtain rfl := Except.ok.inj (h.archive.symm.trans harchive')
  -- the archive was loaded, so its manifest can be read by name
  have hread : readByName entries "mycelium-app.json" = .ok raw := by
    have hfile : bundle.getFile "mycelium-app.json" = lastOf "mycelium-app.json" files :=
      getFile_of_signed hlaws h.loaded h.archive hsigned (by decide)
    unfold readByName
    rw [getLast_filter_signed hsigned (by decide), ← hfile, MiniAppBundle.getFile, hraw]
  -- the zip writer refuses a name used twice, and none is
  have hnodup : ((signedCopy keypair bundle.manifest files).map Prod.fst).Nodup := by
    have hmore : ((signedCopy keypair bundle.manifest files ++ [(bundleSigFile, [])]).map
      Prod.fst).Nodup := nodup_signedCopy h.nodup hsigned []
    rw [List.map_append] at hmore
    exact (List.nodup_append.mp hmore).1
  obtain ⟨unsigned, hunsigned⟩ := exists_writeZip hlaws hnodup
  have hunsigned' := hlaws.read _ _ hunsigned
  obtain ⟨sig, hsig, -⟩ := hkey.signs (asBytes (contentsHash
    (signedCopy keypair bundle.manifest files)))
  have hsidecar : BundleSignatureFile.sign unsigned keypair = .ok
      { bundleHash := contentsHash (signedCopy keypair bundle.manifest files)
        signature := hexEncode sig } := by
    unfold BundleSignatureFile.sign
    rw [bundleHashForSignature_of_signed hunsigned' (signedEntries_copy hsigned)]
    dsimp only
    rw [hsig]
  obtain ⟨out, hout⟩ := exists_writeZip hlaws (nodup_signedCopy h.nodup hsigned
    (sidecar (signedCopy keypair bundle.manifest files) sig))
  -- the calls in the order of the source
  refine ⟨out, except_bind_ok_iff.mpr ⟨entries, h.archive, except_bind_ok_iff.mpr ⟨raw, hread,
    except_bind_ok_iff.mpr ⟨bundle.manifest, hparsed, ?_⟩⟩⟩⟩
  rw [hsigned]
  refine except_bind_ok_iff.mpr ⟨unsigned, hunsigned, except_bind_ok_iff.mpr ⟨_, hsidecar,
    except_bind_ok_iff.mpr ⟨_, hunsigned', ?_⟩⟩⟩
  rw [mapM_written]
  exact hout

/-- **One signing** of an archive that can be signed gives another one, and its sidecar verifies. -/
theorem Signable.step (hkey : Signer keypair) (hlaws : BundleWriter.Laws)
    (h : Signable keypair data entries bundle) :
    ∃ out entries' bundle', signBundle keypair data = .ok out
      ∧ Signable keypair out entries' bundle'
      ∧ verifyBundleDeveloperSignature bundle' out = .ok true := by
  obtain ⟨out, hout⟩ := h.exists_out hkey hlaws
  obtain ⟨entries', manifest, files, sig, hsigned⟩ := signBundle_ok hlaws hout
  obtain rfl := Except.ok.inj (h.archive.symm.trans hsigned.archive)
  obtain rfl := hsigned.manifest_eq hlaws h.loaded
  obtain ⟨bundle', hload, hmanifest, hsidecar, -⟩ := hsigned.loaded hlaws h.loaded
  refine ⟨out, _, bundle', hout, ⟨hsigned.written, hload, ?_, ?_, ?_⟩,
    hsigned.verifies hkey hlaws h.developer hmanifest hsidecar⟩
  · rw [List.map_map]
    exact nodup_signedCopy h.nodup hsigned.signed _
  · intro e he
    obtain ⟨x, -, rfl⟩ := List.mem_map.mp he
    rfl
  · rw [hmanifest]
    exact developer_namingDeveloper hkey h.developer

/-- **A signed bundle verifies**, however often it was signed. -/
theorem signed_bundle_verifies (hkey : Signer keypair) (hlaws : BundleWriter.Laws)
    (h : Signable keypair data entries bundle) (n : Nat) :
    ∃ out bundle', signTimes keypair (n + 1) data = .ok out
      ∧ MiniAppBundle.loadFromBytes out = .ok bundle'
      ∧ verifyBundleDeveloperSignature bundle' out = .ok true := by
  induction n generalizing data entries bundle with
  | zero =>
    obtain ⟨out, entries', bundle', hout, hsignable, hverify⟩ := h.step hkey hlaws
    exact ⟨out, bundle', except_bind_ok_iff.mpr ⟨out, hout, rfl⟩, hsignable.loaded, hverify⟩
  | succ n ih =>
    obtain ⟨out, entries', bundle', hout, hsignable, -⟩ := h.step hkey hlaws
    obtain ⟨out', bundle'', hout', hrest⟩ := ih hsignable
    exact ⟨out', bundle'', except_bind_ok_iff.mpr ⟨out, hout, hout'⟩, hrest⟩

end

/-! ## A bundle that is signed twice -/

/-- Every byte behind a one, and a zero at the end. -/
def stuff (bs : Bytes) : Bytes := bs.flatMap (fun b => [1, b]) ++ [0]

def unstuff : Bytes → Option (Bytes × Bytes)
  | 0 :: rest => some ([], rest)
  | 1 :: b :: rest => (unstuff rest).map fun p => (b :: p.1, p.2)
  | _ => none

/-- A stuffed text is read back up to its end. Induction on its bytes. -/
theorem unstuff_stuff (bs rest : Bytes) : unstuff (stuff bs ++ rest) = some (bs, rest) := by
  induction bs with
  | nil => rfl
  | cons b bs ih =>
    show (unstuff (stuff bs ++ rest)).map _ = _
    rw [ih]
    rfl

def stuffEntry (x : String × Bytes) : Bytes := stuff (asBytes x.1) ++ stuff x.2

/-- Entries up to a number of them. -/
def unstuffEntries : Nat → Bytes → Option (List (String × Bytes))
  | 0, _ => none
  | _ + 1, [] => some []
  | n + 1, bytes => do
    let (name, bytes) ← unstuff bytes
    let name ← fromUtf8 name
    let (data, bytes) ← unstuff bytes
    let files ← unstuffEntries n bytes
    some ((name, data) :: files)

/-- So are all entries, with fuel for each. Induction on the files. -/
theorem unstuffEntries_stuff (files : List (String × Bytes)) :
    ∀ n, files.length < n → unstuffEntries n (files.flatMap stuffEntry) = some files := by
  induction files with
  | nil =>
    intro n hn
    cases n with
    | zero => cases hn
    | succ n => rfl
  | cons x files ih =>
    intro n hn
    cases n with
    | zero => cases hn
    | succ n =>
      have hrest := ih n (Nat.lt_of_succ_lt_succ hn)
      have hname := unstuff_stuff (asBytes x.1) (stuff x.2 ++ files.flatMap stuffEntry)
      have hdata := unstuff_stuff x.2 (files.flatMap stuffEntry)
      rw [List.flatMap_cons, stuffEntry, List.append_assoc, unstuffEntries]
      · simp [hname, fromUtf8_asBytes, hdata, hrest]
      · simp [stuff]

/-- The bytes are fuel enough. -/
theorem length_le_stuffed (files : List (String × Bytes)) :
    files.length ≤ (files.flatMap stuffEntry).length := by
  induction files with
  | nil => exact Nat.le_refl 0
  | cons x files ih =>
    have hentry : 1 ≤ (stuffEntry x).length := by
      simp [stuffEntry, stuff]
      omega
    rw [List.flatMap_cons, List.length_append, List.length_cons]
    omega

/-- Archives of such entries. A manifest is told by the developer it names. -/
@[reducible] def stuffedBundles (manifest : MiniAppManifest) : BundlePrims where
  zipEntries data :=
    match unstuffEntries (data.length + 1) data with
    | some files => .ok (files.map writtenEntry)
    | none => .error "invalid Zip archive"
  parseManifest
    | [0] => .ok { manifest with developerPeerId := none }
    | 1 :: bytes =>
      match fromUtf8 bytes with
      | some p => .ok { manifest with developerPeerId := some p }
      | none => .error "invalid unicode code point"
    | _ => .error "expected value"
  parseBundleSignature bytes :=
    match unstuff bytes with
    | some (hash, sig) =>
      match fromUtf8 hash, fromUtf8 sig with
      | some bundleHash, some signature => .ok { bundleHash, signature }
      | _, _ => .error "invalid unicode code point"
    | none => .error "expected value"
  toLowercase s := String.ofList (s.toList.map Char.toLower)

@[reducible] def stuffedWriter : BundleWriter where
  writeZip files := .ok (files.flatMap stuffEntry)
  manifestPretty m :=
    match m.developerPeerId with
    | none => [0]
    | some p => 1 :: asBytes p
  signaturePretty s := stuff (asBytes s.bundleHash) ++ asBytes s.signature

section

/-- The stuffing writer does what is asked of a writer. -/
theorem stuffedWriter_laws (manifest : MiniAppManifest) :
    @BundleWriter.Laws (stuffedBundles manifest) stuffedWriter := by
  let := stuffedBundles manifest
  let := stuffedWriter
  refine { read := ?_, isDir := ?_, write := fun _ _ => rfl, manifest := ?_, signature := ?_ }
  · intro files data h
    obtain rfl := Except.ok.inj h
    simp only [BundlePrims.zipEntries,
      unstuffEntries_stuff files _ (Nat.lt_succ_of_le (length_le_stuffed files))]
  · intro data entries h e he
    simp only [BundlePrims.zipEntries] at h
    split at h
    · obtain rfl := Except.ok.inj h
      obtain ⟨x, -, rfl⟩ := List.mem_map.mp he
      rfl
    · cases h
  · intro raw m developer h
    -- the only manifests this parser gives are the one it was set up with, under some developer
    have hm : { m with developerPeerId := developer }
        = { manifest with developerPeerId := developer } := by
      simp only [BundlePrims.parseManifest] at h
      split at h
      · rw [← Except.ok.inj h]
      · split at h
        · rw [← Except.ok.inj h]
        · cases h
      · cases h
    rw [hm]
    cases developer with
    | none => rfl
    | some p => simp [BundlePrims.parseManifest, BundleWriter.manifestPretty, fromUtf8_asBytes]
  · intro s
    have hread := unstuff_stuff (asBytes s.bundleHash) (asBytes s.signature)
    simp only [BundlePrims.parseBundleSignature, BundleWriter.signaturePretty, hread,
      fromUtf8_asBytes]

/-- A symbolic key signs, whatever the hash. -/
theorem symbolicKey_signer (blake3 : Bytes → Bytes32) (b : UInt8) :
    @Signer { symbolicPrims with blake3 } (symbolicKey b) := by
  let : Prims := { symbolicPrims with blake3 }
  refine { signs := fun m => ?_, peerId := ?_, publicKey := rfl }
  · refine ⟨(symbolicKey b).secret.toList ++ m, rfl, ?_, symbolicIdentity_ideal.complete rfl⟩
    intro hnil
    have hlength := congrArg List.length hnil
    simp at hlength
  · show ((hexDecode (hexEncode _)).map _ : Option PeerId) = _
    rw [hexDecode_hexEncode]
    rfl

@[reducible] def pageBundles : BundlePrims := stuffedBundles (symbolicListing 1 5).manifest

attribute [local instance] symbolicPrims pageBundles stuffedWriter

/-- A manifest and a page. -/
def pageFiles : List (String × Bytes) :=
  [("mycelium-app.json", [0]), ("index.html", asBytes "<html></html>")]

/-- An unsigned bundle is signed twice. -/
theorem page_signed_twice :
    ∃ out bundle', signTimes (symbolicKey 1) 2 (pageFiles.flatMap stuffEntry) = .ok out
      ∧ MiniAppBundle.loadFromBytes out = .ok bundle'
      ∧ verifyBundleDeveloperSignature bundle' out = .ok true := by
  have harchive : BundlePrims.zipEntries (pageFiles.flatMap stuffEntry)
      = .ok (pageFiles.map writtenEntry) := (stuffedWriter_laws _).read _ _ rfl
  have hdeveloper : (MiniAppBundle.loadFromBytes (pageFiles.flatMap stuffEntry)).map
      (·.manifest.developerPeerId) = .ok none := by
    decide +kernel
  cases hload : MiniAppBundle.loadFromBytes (pageFiles.flatMap stuffEntry) with
  | error e =>
    rw [hload] at hdeveloper
    cases hdeveloper
  | ok bundle =>
    rw [hload] at hdeveloper
    have hnone : bundle.manifest.developerPeerId = none := Except.ok.inj hdeveloper
    exact signed_bundle_verifies (symbolicKey_signer _ 1) (stuffedWriter_laws _)
      ⟨harchive, hload, by decide, by decide, fun p hp => by cases hnone.symm.trans hp⟩ 1

end

end Mycelium.App
