import Mycelium.App.Install

/-!
# Mycelium app — which pages the static scan reads

The list of allowed extensions is asked for the lower-cased path, and the check of a page is made
for a path that ends in `.html` or `.htm` as it stands. A page under another spelling is let
through unread.

* `scanBundle_ok_iff` — what a bundle that is let through has passed;
* `validateHtmlContent_ok_iff` — and a page that was read;
* `html_scan_iff` — the spellings under which a page is read.
-/

namespace Mycelium.App

section

variable [BundlePrims]

/-- What `validate_path_extension` takes for the extension. -/
def lowerExtension (path : String) : String :=
  String.ofList (((BundlePrims.toLowercase path).toList.splitOn '.').getLastD [])

/-- The extension, compared without case, is that of a page. -/
def IsPage (path : String) : Prop := lowerExtension path = "html" ∨ lowerExtension path = "htm"

/-- The test before `validate_html_asset`. -/
def endsAsPage (path : String) : Bool :=
  (stripSuffix path ".html").isSome || (stripSuffix path ".htm").isSome

/-- What `validate_html_content` forbids does not occur. -/
structure CleanHtml (html : String) : Prop where
  schemes : ∀ scheme ∈ forbiddenSchemes,
    containsStr (BundlePrims.toLowercase html) scheme.1 = false
  base : containsStr (BundlePrims.toLowercase html) "<base" = false
  refresh : (containsStr (BundlePrims.toLowercase html) "<meta"
    && containsStr (BundlePrims.toLowercase html) "http-equiv"
    && containsStr (BundlePrims.toLowercase html) "refresh") = false

/-- The bytes of a page. -/
def CleanPage (data : Bytes) : Prop := ∃ html, fromUtf8 data = some html ∧ CleanHtml html

/-- `str::to_lowercase` of ASCII characters. -/
def BundlePrims.AsciiLower : Prop :=
  ∀ s : String, (∀ c ∈ s.toList, c.toNat < 128) →
    BundlePrims.toLowercase s = String.ofList (s.toList.map Char.toLower)

/-- On ASCII, lower case is lower case character by character. -/
theorem BundlePrims.AsciiLower.eq (h : BundlePrims.AsciiLower) {s : String}
    (hascii : (s.toList.all fun c => decide (c.toNat < 128)) = true) :
    BundlePrims.toLowercase s = String.ofList (s.toList.map Char.toLower) :=
  h s fun c hc => of_decide_eq_true (List.all_eq_true.mp hascii c hc)

/-! ## What is let through -/

omit [BundlePrims] in
/-- A loop of checks passes if each of them does. -/
theorem forM_ok_iff {α : Type} {f : α → Except String Unit} {l : List α} :
    l.forM f = .ok () ↔ ∀ a ∈ l, f a = .ok () := by
  induction l with
  | nil => exact iff_of_true rfl nofun
  | cons a l ih =>
    show (f a >>= fun _ => l.forM f) = .ok () ↔ _
    rw [except_bind_ok_iff, List.forall_mem_cons, ← ih]
    constructor
    · rintro ⟨⟨⟩, ha, hl⟩
      exact ⟨ha, hl⟩
    · rintro ⟨ha, hl⟩
      exact ⟨(), ha, hl⟩

/-- A text passes the scan exactly if it is clean. -/
theorem validateHtmlContent_ok_iff {html label : String} :
    validateHtmlContent html label = .ok () ↔ CleanHtml html := by
  unfold validateHtmlContent
  constructor
  · intro h
    -- the three checks in the order of the source; each failure is a constructor of its own
    dsimp only at h
    split at h
    · cases h
    next hschemes =>
    split at h
    · cases h
    next hbase =>
    split at h
    · cases h
    next hrefresh =>
    refine ⟨?_, by simpa using hbase, by simpa using hrefresh⟩
    intro scheme hscheme
    simpa using List.find?_eq_none.mp hschemes scheme hscheme
  · intro h
    have hschemes : (forbiddenSchemes.find? fun scheme =>
        containsStr (BundlePrims.toLowercase html) scheme.1) = none := by
      rw [List.find?_eq_none]
      intro scheme hscheme
      rw [h.schemes scheme hscheme]
      exact Bool.false_ne_true
    dsimp only
    rw [hschemes, h.base, h.refresh]
    rfl

/-- A file passes exactly if it is a clean page. -/
theorem validateHtmlAsset_ok_iff {path : String} {data : Bytes} :
    validateHtmlAsset path data = .ok () ↔ CleanPage data := by
  unfold validateHtmlAsset CleanPage
  cases fromUtf8 data with
  | none => simp
  | some html => simp [validateHtmlContent_ok_iff]

/-- What is asked of a file: the manifest is exempt, pages are scanned. -/
theorem scanFile_ok_iff {path : String} {data : Bytes} :
    scanFile path data = .ok () ↔ path = "mycelium-app.json"
      ∨ validatePathExtension path = .ok () ∧ sniffPolyglot path data = .ok ()
        ∧ (endsAsPage path = true → CleanPage data) := by
  unfold scanFile
  by_cases hmanifest : path = "mycelium-app.json"
  · rw [if_pos hmanifest]
    exact iff_of_true rfl (.inl hmanifest)
  rw [if_neg hmanifest, or_iff_right hmanifest, except_bind_ok_iff, ← @validateHtmlAsset_ok_iff _ path data]
  constructor
  · rintro ⟨⟨⟩, hextension, h⟩
    obtain ⟨⟨⟩, hsniff, h⟩ := except_bind_ok h
    exact ⟨hextension, hsniff, fun hends => (if_pos hends).symm.trans h⟩
  · rintro ⟨hextension, hsniff, hpage⟩
    refine ⟨(), hextension, except_bind_ok_iff.mpr ⟨(), hsniff, ?_⟩⟩
    split
    · next hends => exact hpage hends
    · rfl

/-- What is asked of a bundle. -/
theorem scanBundle_ok_iff {bundle : MiniAppBundle} {archive : Bytes} :
    scanBundle bundle archive = .ok () ↔ bundle.files.entries.length ≤ maxBundleFiles
      ∧ (minBytesForRatioCheck ≤ bundle.totalSize →
          bundle.totalSize ≤ max archive.length 1 * maxCompressionRatio)
      ∧ (∀ path data, bundle.getFile path = some data → scanFile path data = .ok ())
      ∧ validateEntryHtml bundle = .ok () := by
  have hfiles : (∀ e ∈ bundle.files.entries, scanFile e.1 e.2 = .ok ())
      ↔ ∀ path data, bundle.getFile path = some data → scanFile path data = .ok () := by
    constructor
    · intro h path data hfile
      exact h ⟨path, data⟩ (AList.mem_lookup_iff.mp hfile)
    · intro h e he
      exact h e.1 e.2 (AList.mem_lookup_iff.mpr he)
  -- the counts are compared before any file is looked at
  unfold scanBundle
  dsimp only
  split
  · next hcount => exact iff_of_false nofun fun h => absurd h.1 (Nat.not_le.mpr hcount)
  next hcount =>
  split
  · next hratio =>
    obtain ⟨hmin, hlarge⟩ := Bool.and_eq_true_iff.mp hratio
    refine iff_of_false nofun fun h => ?_
    exact absurd (h.2.1 (of_decide_eq_true hmin)) (Nat.not_le.mpr (of_decide_eq_true hlarge))
  next hratio =>
  rw [except_bind_ok_iff, ← hfiles, ← forM_ok_iff]
  constructor
  · rintro ⟨⟨⟩, hscan, hentry⟩
    refine ⟨Nat.le_of_not_lt hcount, fun hmin => ?_, hscan, hentry⟩
    rw [Bool.and_eq_true_iff, not_and, decide_eq_true_eq, decide_eq_true_eq] at hratio
    exact Nat.le_of_not_lt (hratio hmin)
  · rintro ⟨-, -, hscan, hentry⟩
    exact ⟨(), hscan, hentry⟩

/-- The entry page is clean, whatever its path ends in. -/
theorem cleanPage_of_entry {bundle : MiniAppBundle} (h : validateEntryHtml bundle = .ok ())
    {data : Bytes} (hfile : bundle.getFile bundle.manifest.entry = some data) : CleanPage data := by
  unfold validateEntryHtml at h
  dsimp only at h
  rw [hfile] at h
  dsimp only at h
  split at h
  · cases h
  next html hhtml =>
  obtain ⟨⟨⟩, hclean, -⟩ := except_bind_ok h
  exact ⟨html, hhtml, validateHtmlContent_ok_iff.mp hclean⟩

/-! ## Which pages are read -/

/-- The manifest is a JSON file. -/
theorem lowerExtension_manifest (hlower : BundlePrims.AsciiLower) :
    lowerExtension "mycelium-app.json" = "json" := by
  rw [lowerExtension, hlower.eq (by decide)]
  decide

/-- **A page whose path ends as one is read**, and so is the entry. -/
theorem cleanPage_of_scan (hlower : BundlePrims.AsciiLower) {bundle : MiniAppBundle} {archive : Bytes}
    (hscan : scanBundle bundle archive = .ok ()) {path : String} {data : Bytes}
    (hfile : bundle.getFile path = some data) (hpage : IsPage path)
    (hread : endsAsPage path = true ∨ path = bundle.manifest.entry) : CleanPage data := by
  obtain ⟨-, -, hfiles, hentry⟩ := scanBundle_ok_iff.mp hscan
  rcases hread with hends | rfl
  · rcases scanFile_ok_iff.mp (hfiles path data hfile) with rfl | ⟨-, -, hclean⟩
    · -- the manifest is passed over, but it is no page
      rw [IsPage, lowerExtension_manifest hlower] at hpage
      exact absurd hpage (by decide)
    · exact hclean hends
  · exact cleanPage_of_entry hentry hfile

/-- A page with a script in a link. -/
def linkedPage : Bytes := asBytes "<a href=\"javascript:track()\">x</a>"

/-- A start page, and this one under another path. -/
def pageBundle (path : String) : MiniAppBundle where
  manifest := { (symbolicListing 1 5).manifest with entry := "index.html" }
  files := ((∅ : KvTree.Of String Bytes).insert "index.html" (asBytes "<html></html>")).insert path
    linkedPage

/-- The page of the example is clean. -/
theorem cleanHtml_start (hlower : BundlePrims.AsciiLower) : CleanHtml "<html></html>" := by
  have htext : BundlePrims.toLowercase "<html></html>" = "<html></html>" := by
    rw [hlower.eq (by decide)]
    decide
  refine ⟨?_, ?_, ?_⟩
  · rw [htext]
    decide
  · rw [htext]
    decide
  · rw [htext]
    decide

/-- The page that links out is not. -/
theorem not_cleanPage_linked (hlower : BundlePrims.AsciiLower) :
    ¬ CleanPage linkedPage := by
  rintro ⟨html, hhtml, hclean⟩
  rw [linkedPage, fromUtf8_asBytes] at hhtml
  obtain rfl := Option.some.inj hhtml
  have hscheme := hclean.schemes ("javascript:", "javascript:") (by decide)
  rw [hlower.eq (by decide)] at hscheme
  exact absurd hscheme (by decide)

/-- The path of the page is allowed. -/
theorem validatePathExtension_start (hlower : BundlePrims.AsciiLower) :
    validatePathExtension "index.html" = .ok () := by
  have htext : BundlePrims.toLowercase "index.html" = "index.html" := by
    rw [hlower.eq (by decide)]
    decide
  unfold validatePathExtension
  rw [htext]
  rfl

/-- A second page does not touch the entry page. -/
theorem validateEntryHtml_pageBundle (hlower : BundlePrims.AsciiLower) {path : String}
    (hne : path ≠ "index.html") : validateEntryHtml (pageBundle path) = .ok () := by
  have hfile : (pageBundle path).getFile (pageBundle path).manifest.entry
      = some (asBytes "<html></html>") := by
    show ((AList.insert _ _ _).insert path _).lookup "index.html" = _
    rw [AList.lookup_insert_ne hne.symm, AList.lookup_insert]
  have hscript : htmlHasInlineScript "<html></html>" = false := by
    rw [htmlHasInlineScript, hlower.eq (by decide)]
    decide
  unfold validateEntryHtml
  dsimp only
  rw [hfile]
  dsimp only
  rw [fromUtf8_asBytes]
  dsimp only
  rw [validateHtmlContent_ok_iff.mpr (cleanHtml_start hlower), hscript]
  rfl

/-- It is let through if the other path does not end as that of a page. -/
theorem scan_pageBundle (hlower : BundlePrims.AsciiLower) {path : String}
    (hextension : validatePathExtension path = .ok ()) (hends : endsAsPage path = false) :
    scanBundle (pageBundle path) [] = .ok () := by
  have hne : path ≠ "index.html" := by
    rintro rfl
    exact absurd hends (by decide)
  have hentries : (pageBundle path).files.entries
      = [⟨path, linkedPage⟩, ⟨"index.html", asBytes "<html></html>"⟩] := by
    unfold pageBundle
    dsimp only
    rw [AList.entries_insert_of_notMem, AList.entries_insert_of_notMem (AList.notMem_empty _)]
    · rfl
    · rw [AList.mem_insert]
      simpa using hne
  have htotal : (pageBundle path).totalSize < minBytesForRatioCheck := by
    unfold MiniAppBundle.totalSize KvTree.sumBy KvTree.values
    rw [hentries]
    exact (by decide : linkedPage.length + ((asBytes "<html></html>").length + 0)
      < minBytesForRatioCheck)
  refine scanBundle_ok_iff.mpr ⟨?_, fun h => absurd h (Nat.not_le.mpr htotal), ?_,
    validateEntryHtml_pageBundle hlower hne⟩
  · rw [hentries]
    exact (by decide : 2 ≤ maxBundleFiles)
  · intro path' data hfile
    have hmem := AList.mem_lookup_iff.mp hfile
    rw [hentries, List.mem_pair] at hmem
    -- the page under the extension that is not scanned, and the start page, which is
    rcases hmem with heq | heq
    · obtain ⟨rfl, rfl⟩ := Sigma.mk.injEq .. ▸ heq
      refine scanFile_ok_iff.mpr (.inr ⟨hextension, rfl, fun h => ?_⟩)
      rw [hends] at h
      cases h
    · obtain ⟨rfl, rfl⟩ := Sigma.mk.injEq .. ▸ heq
      exact scanFile_ok_iff.mpr (.inr ⟨validatePathExtension_start hlower, by decide,
        fun _ => ⟨_, fromUtf8_asBytes _, cleanHtml_start hlower⟩⟩)

/-- **Which pages are read.** Whatever accepted bundle holds a page under a path that the list of
extensions lets through, the page is clean, exactly if the path ends in `.html` or `.htm` as it stands;
in one accepted bundle all pages are clean exactly if those are that end otherwise and are not its
entry. -/
theorem html_scan_iff (hlower : BundlePrims.AsciiLower) {path : String} (hpage : IsPage path)
    (hextension : validatePathExtension path = .ok ()) {bundle : MiniAppBundle} {archive : Bytes}
    (hscan : scanBundle bundle archive = .ok ()) :
    ((∀ bundle archive data, scanBundle bundle archive = .ok () → bundle.getFile path = some data →
        CleanPage data) ↔ endsAsPage path = true)
    ∧ ((∀ path data, bundle.getFile path = some data → IsPage path → CleanPage data)
      ↔ ∀ path data, bundle.getFile path = some data → IsPage path → endsAsPage path = false →
          path ≠ bundle.manifest.entry → CleanPage data) := by
  refine ⟨⟨?_, ?_⟩, ⟨?_, ?_⟩⟩
  · intro h
    by_contra hends
    rw [Bool.not_eq_true] at hends
    have hfile : (pageBundle path).getFile path = some linkedPage := AList.lookup_insert _
    exact not_cleanPage_linked hlower (h _ [] _ (scan_pageBundle hlower hextension hends) hfile)
  · intro hends bundle archive data hscan hfile
    exact cleanPage_of_scan hlower hscan hfile hpage (.inl hends)
  · intro h path data hfile hpage _ _
    exact h path data hfile hpage
  · intro h path data hfile hpage
    by_cases hread : endsAsPage path = true ∨ path = bundle.manifest.entry
    · exact cleanPage_of_scan hlower hscan hfile hpage hread
    · obtain ⟨hends, hentry⟩ := not_or.mp hread
      exact h path data hfile hpage (Bool.eq_false_iff.mpr hends) hentry

end

section

attribute [local instance] symbolicBundles

/-- The lower case of the example is that of ASCII. -/
theorem symbolicBundles_asciiLower : BundlePrims.AsciiLower := fun _ _ => rfl

/-- A bundle is let through with a page `INFO.HTML` that has a script in a link. -/
theorem html_scan_misses_upper :
    IsPage "INFO.HTML" ∧ scanBundle (pageBundle "INFO.HTML") [] = .ok ()
      ∧ (pageBundle "INFO.HTML").getFile "INFO.HTML" = some linkedPage ∧ ¬ CleanPage linkedPage :=
  ⟨by unfold IsPage; decide, scan_pageBundle symbolicBundles_asciiLower rfl (by decide),
    AList.lookup_insert _, not_cleanPage_linked symbolicBundles_asciiLower⟩

/-- Under `info.html` the scan reads it, in whatever bundle. -/
theorem html_scan_reads_lower :
    endsAsPage "info.html" = true
      ∧ ∀ bundle archive data, scanBundle bundle archive = .ok () →
        bundle.getFile "info.html" = some data → CleanPage data := by
  have hpage : IsPage "info.html" := by
    unfold IsPage
    decide
  have hscan : scanBundle (pageBundle "INFO.HTML") [] = .ok () :=
    scan_pageBundle symbolicBundles_asciiLower rfl (by decide)
  have hends : endsAsPage "info.html" = true := by decide
  exact ⟨hends, (html_scan_iff symbolicBundles_asciiLower hpage rfl hscan).1.mpr hends⟩

end

end Mycelium.App
