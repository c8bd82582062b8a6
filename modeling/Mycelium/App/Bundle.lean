import Mycelium.App.AppStore
import Mycelium.Lib.Fields

/-!
# Mycelium app — bundles

Translation of what a mini-app bundle is checked for before it is installed: the manifest
(`mycelium-app/src/miniapp/manifest.rs`, `reproducible_build.rs`), the archive (`bundle.rs`), the
static scan (`bundle_scan.rs`) and the developer's sidecar signature (`bundle_signature.rs`).

Unpacking an archive and reading JSON is left to `BundlePrims`. A loop over the files of a bundle
follows the table's own order, as the loop over the hash map does; only the text of an error
depends on it.
-/

namespace Mycelium.App

/-- One entry of an archive; `none` when its bytes cannot be read. -/
structure ZipEntry where
  name : String
  isDir : Bool
  data : Option Bytes
deriving DecidableEq

/-- The sidecar `mycelium-bundle.sig.json`. -/
structure BundleSignatureFile where
  bundleHash : String
  signature : String
deriving DecidableEq

/-- The library functions that read a bundle. -/
class BundlePrims where
  /-- `ZipArchive::new`, with all entries; `Err` when it is no archive. -/
  zipEntries : Bytes → Except String (List ZipEntry)
  /-- `serde_json::from_slice::<MiniAppManifest>`. -/
  parseManifest : Bytes → Except String MiniAppManifest
  /-- `serde_json::from_slice::<BundleSignatureFile>`. -/
  parseBundleSignature : Bytes → Except String BundleSignatureFile
  /-- `str::to_lowercase`. -/
  toLowercase : String → String

/-! ## Text -/

/-- `str::contains` for a string pattern. -/
def containsStr (s pattern : String) : Bool :=
  s.toList.tails.any fun rest => pattern.toList.isPrefixOf rest

/-- `str::split` for a string pattern, on characters: `skip` are left of the pattern just found,
`acc` is the piece so far, reversed. -/
def splitStrAux (pattern : List Char) : Nat → List Char → List Char → List (List Char)
  | _, acc, [] => [acc.reverse]
  | skip + 1, acc, _ :: rest => splitStrAux pattern skip acc rest
  | 0, acc, c :: rest =>
    if pattern.isPrefixOf (c :: rest) then
      acc.reverse :: splitStrAux pattern (pattern.length - 1) [] rest
    else splitStrAux pattern 0 (c :: acc) rest

def splitStr (s pattern : String) : List (List Char) := splitStrAux pattern.toList 0 [] s.toList

example : splitStr "a<script>b<scriptc" "<script" = [['a'], ['>', 'b'], ['c']] := by decide

/-! ## The manifest -/

/-- `char::is_ascii_hexdigit`. -/
def isAsciiHexdigit (c : Char) : Bool :=
  ('0' ≤ c && c ≤ '9') || ('a' ≤ c && c ≤ 'f') || ('A' ≤ c && c ≤ 'F')

/-- A digest of 64 hex characters. -/
def isHexDigest (h : String) : Bool := h.utf8ByteSize = 64 && h.toList.all isAsciiHexdigit

/-- `ReproducibleBuild::validate`. -/
def ReproducibleBuild.validate (rb : ReproducibleBuild) : Except String Unit :=
  if rb.attestedBundleHash.any (fun h => !isHexDigest h) then
    .error "attested_bundle_hash must be 64 hex chars (BLAKE3)"
  else if rb.recipeDigestHex.any (fun d => !isHexDigest d) then
    .error "recipe_digest_hex must be 64 hex chars (BLAKE3)"
  else .ok ()

/-- `MiniAppManifest::validate`; the quoted runtime is printed without escapes. -/
def MiniAppManifest.validate (m : MiniAppManifest) : Except String Unit :=
  if m.id = "" || !m.id.toList.contains '.' then
    .error "app id must be reverse-domain format (e.g. com.example.app)"
  else if m.name = "" then .error "name is required"
  else if 120 < m.description.length then .error "description must be ≤ 120 characters"
  else if m.entry = "" then .error "entry point is required"
  else if m.runtime ≠ "webview" then
    .error ("runtime \"" ++ m.runtime ++ "\" is not supported (only \"webview\" in this release)")
  else
    match m.reproducibleBuild with
    | some rb => rb.validate
    | none => .ok ()

/-- `eq_ignore_ascii_case`. -/
def eqIgnoreAsciiCase (a b : String) : Bool := a.toList.map Char.toLower = b.toList.map Char.toLower

/-- `reproducible_attests_hash`. -/
def MiniAppManifest.reproducibleAttestsHash (m : MiniAppManifest) (bundleHashHex : String) : Bool :=
  match m.reproducibleBuild.bind ReproducibleBuild.attestedBundleHash with
  | some h => eqIgnoreAsciiCase h bundleHashHex
  | none => false

/-- `allows_bulletin_scope`. -/
def MiniAppManifest.allowsBulletinScope (m : MiniAppManifest) (scope : String) : Bool :=
  m.bulletinScopes.isEmpty || m.bulletinScopes.contains scope

/-! ## The archive -/

/-- `MiniAppBundle`. -/
structure MiniAppBundle where
  manifest : MiniAppManifest
  files : KvTree.Of String Bytes

/-- `is_safe_bundle_path`. -/
def isSafeBundlePath (name : String) : Bool :=
  if name = "" then false
  else if startsWith name "/" || startsWith name "\\" then false
  else if containsStr name ".." then false
  else !(name.toList.splitOnP fun c => c = '/' || c = '\\').any fun seg => seg = ['.', '.']

/-- The loop over the entries of `load_from_bytes`. -/
def unpack (files : KvTree.Of String Bytes) : List ZipEntry → Except String (KvTree.Of String Bytes)
  | [] => .ok files
  | entry :: rest =>
    if entry.isDir then unpack files rest
    else if !isSafeBundlePath entry.name then
      .error ("invalid file path in bundle: " ++ entry.name)
    else
      match entry.data with
      | none => .error "unreadable file in bundle"
      | some buf => unpack (files.insert entry.name buf) rest

namespace MiniAppBundle

def getFile (bundle : MiniAppBundle) (path : String) : Option Bytes := bundle.files.lookup path

/-- `total_size`. -/
def totalSize (bundle : MiniAppBundle) : Nat := KvTree.sumBy List.length bundle.files

section

variable [BundlePrims]

/-- `load_from_bytes`. -/
def loadFromBytes (data : Bytes) : Except String MiniAppBundle := do
  let entries ← BundlePrims.zipEntries data
  let files ← unpack ∅ entries
  match files.lookup "mycelium-app.json" with
  | none => .error "missing mycelium-app.json"
  | some manifestBytes =>
    let manifest ← BundlePrims.parseManifest manifestBytes
    manifest.validate
    return { manifest, files }

end

end MiniAppBundle

/-! ## The static scan -/

def maxBundleFiles : Nat := 128

def maxCompressionRatio : Nat := 32

def minBytesForRatioCheck : Nat := 512 * 1024

/-- `ALLOWED_EXTENSIONS`. -/
def allowedExtensions : List String :=
  ["html", "htm", "css", "js", "json", "png", "jpg", "jpeg", "gif", "svg", "webp", "ico", "txt",
   "woff", "woff2", "ttf", "eot", "map", "md"]

/-- `sniff_polyglot`. -/
def sniffPolyglot (path : String) (data : Bytes) : Except String Unit :=
  if (asBytes "MZ").isPrefixOf data then
    .error ("executable content detected in " ++ path)
  else if (asBytes "%PDF-").isPrefixOf data then
    .error ("PDF content not allowed in bundle: " ++ path)
  else if (asBytes "\x7fELF").isPrefixOf data then
    .error ("ELF binary not allowed in bundle: " ++ path)
  else .ok ()

section

variable [BundlePrims]

/-- `html_has_inline_script`. -/
def htmlHasInlineScript (html : String) : Bool :=
  ((splitStr (BundlePrims.toLowercase html) "<script").drop 1).any fun chunk =>
    let trimmed := chunk.dropWhile isWhitespace
    !"src=".toList.isPrefixOf trimmed && !"src ".toList.isPrefixOf trimmed

/-- `validate_path_extension`. -/
def validatePathExtension (path : String) : Except String Unit :=
  let lower := BundlePrims.toLowercase path
  if containsStr lower ".." then .error ("invalid path: " ++ path)
  else
    let ext := String.ofList ((lower.toList.splitOn '.').getLastD [])
    if ext = "" || ext.toList.contains '/' then
      .error ("file without allowed extension: " ++ path)
    else if !allowedExtensions.contains ext then
      .error ("disallowed file type ." ++ ext ++ " in bundle (" ++ path ++ ")")
    else .ok ()

/-- The texts of `validate_html_content` that may not occur, with the scheme each stands for. -/
def forbiddenSchemes : List (String × String) :=
  [("javascript:", "javascript:"), ("vbscript:", "vbscript:"), ("data:text/html", "data:text/html"),
   ("file://", "file://"), ("\"file:", "file:"), ("'file:", "file:"), ("(file:", "file:"),
   (" href=\"file:", "file:"), (" src=\"file:", "file:")]

/-- `validate_html_content`. -/
def validateHtmlContent (html label : String) : Except String Unit :=
  let lower := BundlePrims.toLowercase html
  match forbiddenSchemes.find? fun scheme => containsStr lower scheme.1 with
  | some scheme => .error (label ++ " contains forbidden URL scheme (" ++ scheme.2 ++ ")")
  | none =>
    if containsStr lower "<base" then
      .error (label ++ " must not contain <base> (navigation escape risk)")
    else if containsStr lower "<meta" && containsStr lower "http-equiv" && containsStr lower "refresh"
    then .error (label ++ " must not use meta refresh")
    else .ok ()

/-- `validate_html_asset`. -/
def validateHtmlAsset (path : String) (data : Bytes) : Except String Unit :=
  match fromUtf8 data with
  | none => .error (path ++ " is not valid UTF-8 HTML")
  | some html => validateHtmlContent html path

/-- `validate_entry_html`. -/
def validateEntryHtml (bundle : MiniAppBundle) : Except String Unit := do
  let entry := bundle.manifest.entry
  match bundle.getFile entry with
  | none => .error ("entry point not found: " ++ entry)
  | some bytes =>
    match fromUtf8 bytes with
    | none => .error ("entry " ++ entry ++ " is not valid UTF-8")
    | some html =>
      validateHtmlContent html entry
      if htmlHasInlineScript html then
        .error ("entry " ++ entry
          ++ " contains inline <script>; use external .js with nonce (SD-040)")
      else .ok ()

/-- The checks of one file. -/
def scanFile (path : String) (data : Bytes) : Except String Unit := do
  if path = "mycelium-app.json" then .ok ()
  else
    validatePathExtension path
    sniffPolyglot path data
    if (stripSuffix path ".html").isSome || (stripSuffix path ".htm").isSome then
      validateHtmlAsset path data
    else .ok ()

/-- `scan_bundle`. -/
def scanBundle (bundle : MiniAppBundle) (archiveBytes : Bytes) : Except String Unit := do
  let uncompressed := bundle.totalSize
  let compressed := max archiveBytes.length 1
  if maxBundleFiles < bundle.files.entries.length then
    .error ("bundle has " ++ toString bundle.files.entries.length ++ " files (max 128)")
  else if minBytesForRatioCheck ≤ uncompressed && compressed * maxCompressionRatio < uncompressed then
    .error ("bundle compression ratio suspicious (" ++ toString uncompressed
      ++ " bytes uncompressed vs " ++ toString compressed ++ " archive)")
  else
    bundle.files.entries.forM fun e => scanFile e.1 e.2
    validateEntryHtml bundle

/-! ## Hashes and the sidecar signature -/

/-- `BUNDLE_SIG_FILE`. -/
def bundleSigFile : String := "mycelium-bundle.sig.json"

/-- A name and the bytes under it, as both hashes take them in. -/
def hashedEntry (e : String × Bytes) : Bytes :=
  asBytes e.1 ++ [0] ++ leBytes 8 e.2.length ++ e.2

variable [Prims]

/-- `bundle_hash_hex`. -/
def bundleHashHex (bundleBytes : Bytes) : String := hexEncode (Prims.blake3 bundleBytes).toList

omit [BundlePrims] [Prims] in
/-- The entries that are signed, in archive order; `none` when one cannot be read. -/
def signedEntries : List ZipEntry → Option (List (String × Bytes))
  | [] => some []
  | entry :: rest =>
    if entry.name = bundleSigFile then signedEntries rest
    else do return (entry.name, ← entry.data) :: (← signedEntries rest)

/-- `bundle_hash_for_signature`; `none` is the source's `Err`. -/
def bundleHashForSignature (bundleBytes : Bytes) : Option String :=
  match BundlePrims.zipEntries bundleBytes with
  | .error _ => none
  | .ok entries =>
    (signedEntries entries).map fun signed =>
      hexEncode (Prims.blake3
        ((signed.mergeSort fun a b => a.1 ≤ b.1).flatMap hashedEntry)).toList

/-- `BundleSignatureFile::verify`. -/
def BundleSignatureFile.verify (sigFile : BundleSignatureFile) (bundleBytes : Bytes)
    (manifest : MiniAppManifest) : Except String Bool :=
  -- a bundle that is unsigned, unhashable or names nobody is not verified, which is no error
  if sigFile.signature = "" then .ok false
  else
    match bundleHashForSignature bundleBytes with
    | none => .ok false
    | some expectedHash =>
      if sigFile.bundleHash ≠ expectedHash then .ok false
      else
        match manifest.developerPeerId with
        | none => .ok false
        | some peerIdStr =>
          match Prims.parsePeerId peerIdStr with
          | none => .error "invalid developer_peer_id"
          | some peerId =>
            match peerId.publicKey with
            | none => .ok false
            | some pk =>
              match hexDecode (trim sigFile.signature) with
              | none => .error "invalid hex in bundle signature"
              | some sigBytes => .ok (Prims.identity.verify pk (asBytes sigFile.bundleHash) sigBytes)

/-- `verify_bundle_developer_signature`. -/
def verifyBundleDeveloperSignature (bundle : MiniAppBundle) (bundleBytes : Bytes) :
    Except String Bool :=
  match bundle.getFile bundleSigFile with
  | none => .ok false
  | some sigBytes =>
    match BundlePrims.parseBundleSignature sigBytes with
    | .error e => .error e
    | .ok sigFile => sigFile.verify bundleBytes bundle.manifest

/-- The bundle carries a sidecar over its contents, signed with the key that the manifest names. -/
def SignedByDeveloper (bundle : MiniAppBundle) (bundleBytes : Bytes) : Prop :=
  ∃ raw sigFile peerIdStr peerId pk sig,
    bundle.getFile bundleSigFile = some raw
    ∧ BundlePrims.parseBundleSignature raw = .ok sigFile
    ∧ bundleHashForSignature bundleBytes = some sigFile.bundleHash
    ∧ bundle.manifest.developerPeerId = some peerIdStr
    ∧ Prims.parsePeerId peerIdStr = some peerId ∧ peerId.publicKey = some pk
    ∧ hexDecode (trim sigFile.signature) = some sig
    ∧ Prims.identity.verify pk (asBytes sigFile.bundleHash) sig = true

theorem BundleSignatureFile.of_verify {sigFile : BundleSignatureFile} {bundleBytes : Bytes}
    {manifest : MiniAppManifest} (h : sigFile.verify bundleBytes manifest = .ok true) :
    bundleHashForSignature bundleBytes = some sigFile.bundleHash
    ∧ ∃ peerIdStr peerId pk sig, manifest.developerPeerId = some peerIdStr
      ∧ Prims.parsePeerId peerIdStr = some peerId ∧ peerId.publicKey = some pk
      ∧ hexDecode (trim sigFile.signature) = some sig
      ∧ Prims.identity.verify pk (asBytes sigFile.bundleHash) sig = true := by
  unfold BundleSignatureFile.verify at h
  -- every branch but the last ends in `Ok(false)` or `Err`
  split at h
  · cases h
  split at h
  · cases h
  next expectedHash hhash =>
  split at h
  · cases h
  next hsame =>
  split at h
  · cases h
  next peerIdStr hdev =>
  split at h
  · cases h
  next peerId hparse =>
  split at h
  · cases h
  next pk hpk =>
  split at h
  · cases h
  next sig hsig =>
  rw [not_not] at hsame
  exact ⟨by rw [hsame, hhash], peerIdStr, peerId, pk, sig, hdev, hparse, hpk, hsig, Except.ok.inj h⟩

theorem signedByDeveloper_of_verify {bundle : MiniAppBundle} {bundleBytes : Bytes}
    (h : verifyBundleDeveloperSignature bundle bundleBytes = .ok true) :
    SignedByDeveloper bundle bundleBytes := by
  unfold verifyBundleDeveloperSignature at h
  split at h
  · cases h
  next raw hraw =>
  split at h
  · cases h
  next sigFile hparsed =>
  obtain ⟨hhash, peerIdStr, peerId, pk, sig, hrest⟩ := BundleSignatureFile.of_verify h
  exact ⟨raw, sigFile, peerIdStr, peerId, pk, sig, hraw, hparsed, hhash, hrest⟩

/-- `content_attestation_hash`. -/
def contentAttestationHash [AppCodec] (bundle : MiniAppBundle) : String :=
  let manifestBytes := AppCodec.manifestJson { bundle.manifest with reproducibleBuild := none }
  let files := (bundle.files.entries.filter fun e => e.1 != "mycelium-app.json").mergeSort
    fun a b => a.1 ≤ b.1
  hexEncode (Prims.blake3 (asBytes "mycelium-miniapp-content-v1\x00"
    ++ leBytes 8 manifestBytes.length ++ manifestBytes
    ++ files.flatMap fun e => hashedEntry (e.1, e.2))).toList

end

end Mycelium.App
