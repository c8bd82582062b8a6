import Mycelium.App.Install
import Mycelium.Lib.Framing
import Mathlib.Data.List.Sort

/-!
# Mycelium app — what a bundle signature covers

`bundle_hash_for_signature` hashes the entries of an archive in the order of their names, each as
its name, a NUL, the length and the contents. Nothing keeps a NUL out of a name, so a name may
hold what looks like an entry.

* `files_of_signed` — the files of a bundle are the last signed entry of each name;
* `signed_inj_of_names`, `signed_inj_of_no_nul` — when the digest input determines the entries;
* `bundle_signature_covers_iff` — and so the files.
-/

namespace Mycelium.App

/-- `entries.sort_by` of `bundle_hash_for_signature`. -/
def sortedByName (signed : List (String × Bytes)) : List (String × Bytes) :=
  signed.mergeSort fun a b => a.1 ≤ b.1

/-- The bytes that `bundle_hash_for_signature` hashes. -/
def digestInput (entries : List ZipEntry) : Option Bytes :=
  (signedEntries entries).map fun signed => (sortedByName signed).flatMap hashedEntry

/-- The hash for the signature is that of the digest input, if the archive can be read. -/
theorem bundleHashForSignature_eq [Prims] [BundlePrims] (data : Bytes) :
    bundleHashForSignature data = match BundlePrims.zipEntries data with
      | .error _ => none
      | .ok entries =>
        (digestInput entries).map fun input => hexEncode (Prims.blake3 input).toList := by
  unfold bundleHashForSignature digestInput
  cases BundlePrims.zipEntries data with
  | error e => rfl
  | ok entries =>
    simp only [Option.map_map]
    rfl

/-- `ZipFile::is_dir` looks at the last character of the name. -/
def isDirName (name : String) : Bool := name.toList.getLast?.any fun c => c = '/' || c = '\\'

/-- What the crate `zip` makes of an archive: directories are told by their name, and the length
of what was read is a `u64`. -/
structure WellRead (entries : List ZipEntry) : Prop where
  isDir : ∀ e ∈ entries, e.isDir = isDirName e.name
  length : ∀ e ∈ entries, ∀ buf, e.data = some buf → buf.length < 2 ^ 64

def BundlePrims.ZipLaws [BundlePrims] : Prop :=
  ∀ data entries, BundlePrims.zipEntries data = .ok entries → WellRead entries

/-- The archive holds these entries, and is accepted as this bundle. -/
structure Accepts [BundlePrims] (data : Bytes) (entries : List ZipEntry) (bundle : MiniAppBundle) :
    Prop where
  archive : BundlePrims.zipEntries data = .ok entries
  loaded : MiniAppBundle.loadFromBytes data = .ok bundle
  scanned : scanBundle bundle data = .ok ()

/-- The same files, leaving out the sidecar. -/
def SameContents (bundle bundle' : MiniAppBundle) : Prop :=
  ∀ path ≠ bundleSigFile, bundle.getFile path = bundle'.getFile path

/-- The names of the entries that are signed. -/
def signedNames (entries : List ZipEntry) : List String :=
  (entries.map ZipEntry.name).filter (· ≠ bundleSigFile)

/-- An archive of files with different names. -/
structure Plain (entries : List ZipEntry) : Prop where
  files : ∀ e ∈ entries, e.isDir = false
  nodup : (entries.map ZipEntry.name).Nodup

/-! ## The entries that are signed -/

/-- The first entry is the signature, or is signed. -/
theorem signedEntries_cons {e : ZipEntry} {rest : List ZipEntry} {signed : List (String × Bytes)}
    (h : signedEntries (e :: rest) = some signed) :
    (e.name = bundleSigFile ∧ signedEntries rest = some signed)
    ∨ (e.name ≠ bundleSigFile ∧ ∃ data others, e.data = some data
      ∧ signedEntries rest = some others ∧ signed = (e.name, data) :: others) := by
  unfold signedEntries at h
  split at h
  · next hname => exact .inl ⟨hname, h⟩
  · next hname =>
    obtain ⟨data, hdata, h⟩ := Option.bind_eq_some_iff.mp h
    obtain ⟨others, hothers, h⟩ := Option.bind_eq_some_iff.mp h
    exact .inr ⟨hname, data, others, hdata, hothers, (Option.some.inj h).symm⟩

/-- The signed names are those of the entries. -/
theorem map_fst_signedEntries {entries : List ZipEntry} {signed : List (String × Bytes)}
    (h : signedEntries entries = some signed) : signed.map Prod.fst = signedNames entries := by
  unfold signedNames
  induction entries generalizing signed with
  | nil =>
    obtain rfl := Option.some.inj h
    rfl
  | cons e rest ih =>
    rcases signedEntries_cons h with ⟨hname, hrest⟩ | ⟨hname, data, others, -, hrest, rfl⟩
    · rw [List.map_cons, List.filter_cons_of_neg (by simpa using hname)]
      exact ih hrest
    · rw [List.map_cons, List.map_cons, List.filter_cons_of_pos (by simpa using hname), ih hrest]

/-- A signed file comes from an entry. -/
theorem exists_of_mem_signedEntries {entries : List ZipEntry} {signed : List (String × Bytes)}
    (h : signedEntries entries = some signed) {x : String × Bytes} (hx : x ∈ signed) :
    ∃ e ∈ entries, e.name = x.1 ∧ e.data = some x.2 := by
  induction entries generalizing signed with
  | nil =>
    obtain rfl := Option.some.inj h
    cases hx
  | cons e rest ih =>
    rcases signedEntries_cons h with ⟨-, hrest⟩ | ⟨-, data, others, hdata, hrest, rfl⟩
    · obtain ⟨e', he', hx'⟩ := ih hrest hx
      exact ⟨e', List.mem_cons_of_mem _ he', hx'⟩
    · rcases List.mem_cons.mp hx with rfl | hx
      · exact ⟨e, List.mem_cons_self, rfl, hdata⟩
      · obtain ⟨e', he', hx'⟩ := ih hrest hx
        exact ⟨e', List.mem_cons_of_mem _ he', hx'⟩

/-! ## The files of a bundle -/

/-- The contents of the last entry with a name. -/
def lastOf (path : String) (signed : List (String × Bytes)) : Option Bytes :=
  ((signed.filter fun x => x.1 = path).getLast?).map Prod.snd

/-- A later file of the same name wins. -/
theorem lastOf_cons_self (path : String) (data : Bytes) (signed : List (String × Bytes)) :
    lastOf path ((path, data) :: signed) = (lastOf path signed).or (some data) := by
  unfold lastOf
  rw [List.filter_cons_of_pos (by simp), List.getLast?_cons]
  cases (signed.filter fun x => x.1 = path).getLast? <;> rfl

/-- Another name does not matter. -/
theorem lastOf_cons_ne {path name : String} (hne : name ≠ path) (data : Bytes)
    (signed : List (String × Bytes)) : lastOf path ((name, data) :: signed) = lastOf path signed := by
  unfold lastOf
  rw [List.filter_cons_of_neg (by simpa using hne)]

/-- A path is found exactly if it is among the names. -/
theorem isSome_lastOf_iff {path : String} {signed : List (String × Bytes)} :
    (lastOf path signed).isSome ↔ path ∈ signed.map Prod.fst := by
  unfold lastOf
  rw [Option.isSome_map, List.getLast?_isSome, List.mem_map]
  constructor
  · intro hne
    obtain ⟨x, hx⟩ := List.exists_mem_of_ne_nil _ hne
    obtain ⟨hmem, hname⟩ := List.mem_filter.mp hx
    exact ⟨x, hmem, of_decide_eq_true hname⟩
  · rintro ⟨x, hmem, rfl⟩
    exact List.ne_nil_of_mem (List.mem_filter.mpr ⟨hmem, decide_eq_true rfl⟩)

/-- The comparison by name is transitive. -/
theorem byName_trans (a b c : String × Bytes) (hab : decide (a.1 ≤ b.1) = true)
    (hbc : decide (b.1 ≤ c.1) = true) : decide (a.1 ≤ c.1) = true :=
  decide_eq_true ((of_decide_eq_true hab).trans (of_decide_eq_true hbc))

/-- It is total. -/
theorem byName_total (a b : String × Bytes) :
    (decide (a.1 ≤ b.1) || decide (b.1 ≤ a.1)) = true := by
  rw [Bool.or_eq_true, decide_eq_true_eq, decide_eq_true_eq]
  exact le_total a.1 b.1

/-- Sorting rearranges. -/
theorem perm_sortedByName (signed : List (String × Bytes)) : (sortedByName signed).Perm signed :=
  List.mergeSort_perm _ _

/-- Sorted, the names are in order. -/
theorem pairwise_sortedByName (signed : List (String × Bytes)) :
    ((sortedByName signed).map Prod.fst).Pairwise (· ≤ ·) := by
  rw [List.pairwise_map]
  exact (List.pairwise_mergeSort byName_trans byName_total signed).imp fun h => of_decide_eq_true h

/-- Sorting by name keeps the entries of one name in their order. -/
theorem lastOf_sortedByName (path : String) (signed : List (String × Bytes)) :
    lastOf path (sortedByName signed) = lastOf path signed := by
  have hsame : (signed.filter fun x => x.1 = path).Pairwise fun a b => decide (a.1 ≤ b.1) = true := by
    refine List.Pairwise.imp_of_mem (R := fun _ _ => True) ?_ (List.pairwise_of_forall fun _ _ => trivial)
    intro a b ha hb _
    have hname := of_decide_eq_true (List.mem_filter.mp ha).2
    have hname' := of_decide_eq_true (List.mem_filter.mp hb).2
    exact decide_eq_true (le_of_eq (hname.trans hname'.symm))
  have hkept : (signed.filter fun x => x.1 = path).Sublist (sortedByName signed) :=
    List.sublist_mergeSort byName_trans byName_total hsame List.filter_sublist
  have hsub := hkept.filter fun x => decide (x.1 = path)
  have hperm := (perm_sortedByName signed).filter fun x => decide (x.1 = path)
  -- the sort is stable, so these entries are still in the sorted row, and there are no more of them
  rw [List.filter_filter] at hsub
  simp only [Bool.and_self] at hsub
  unfold lastOf
  rw [hsub.eq_of_length hperm.length_eq.symm]

/-- Unpacking an archive takes its first entry, which is a directory or a file. -/
theorem unpack_cons {files files' : KvTree.Of String Bytes} {e : ZipEntry} {rest : List ZipEntry}
    (h : unpack files (e :: rest) = .ok files') :
    (e.isDir = true ∧ unpack files rest = .ok files')
    ∨ (e.isDir = false ∧ ∃ buf, e.data = some buf
      ∧ unpack (files.insert e.name buf) rest = .ok files') := by
  unfold unpack at h
  split at h
  · next hdir => exact .inl ⟨hdir, h⟩
  next hdir =>
  split at h
  · cases h
  split at h
  · cases h
  · next buf hbuf => exact .inr ⟨by simpa using hdir, buf, hbuf, h⟩

/-- **The files of a bundle.** The loop over the archive leaves the last entry of each name, unless
the name is that of a directory. Induction on the entries. -/
theorem unpack_lookup {entries : List ZipEntry} {files files' : KvTree.Of String Bytes}
    {signed : List (String × Bytes)} (hread : ∀ e ∈ entries, e.isDir = isDirName e.name)
    (hunpack : unpack files entries = .ok files') (hsigned : signedEntries entries = some signed)
    {path : String} (hpath : path ≠ bundleSigFile) :
    files'.lookup path = if isDirName path then files.lookup path
      else (lastOf path signed).or (files.lookup path) := by
  induction entries generalizing files signed with
  | nil =>
    obtain rfl := Except.ok.inj hunpack
    obtain rfl := Option.some.inj hsigned
    cases isDirName path <;> rfl
  | cons e rest ih =>
    have hdir := hread e List.mem_cons_self
    have hreadRest : ∀ x ∈ rest, x.isDir = isDirName x.name :=
      fun x hx => hread x (List.mem_cons_of_mem _ hx)
    -- an entry of another name changes neither side
    have hother : ∀ {others}, e.name ≠ path → signedEntries rest = some others →
        files'.lookup path = if isDirName path then files.lookup path
          else (lastOf path others).or (files.lookup path) := by
      intro others hname hrest
      rcases unpack_cons hunpack with ⟨-, hunpack⟩ | ⟨-, buf, -, hunpack⟩
      · exact ih hreadRest hunpack hrest
      · rw [ih hreadRest hunpack hrest, AList.lookup_insert_ne hname.symm]
    rcases signedEntries_cons hsigned with ⟨hsig, hrest⟩ | ⟨-, data, others, hdata, hrest, rfl⟩
    · exact hother (fun h => hpath (h.symm.trans hsig)) hrest
    · by_cases hname : e.name = path
      · -- what comes later under this name goes before
        subst hname
        rw [lastOf_cons_self]
        rcases unpack_cons hunpack with ⟨hisDir, hunpack⟩ | ⟨hisDir, buf, hbuf, hunpack⟩
        · rw [ih hreadRest hunpack hrest, if_pos (hdir.symm.trans hisDir), if_pos (hdir.symm.trans hisDir)]
        · obtain rfl := Option.some.inj (hdata.symm.trans hbuf)
          have hfile : ¬ isDirName e.name = true := by
            rw [← hdir, hisDir]
            exact Bool.false_ne_true
          rw [ih hreadRest hunpack hrest, if_neg hfile, if_neg hfile, AList.lookup_insert, Option.or_assoc,
            Option.some_or]
      · rw [lastOf_cons_ne hname]
        exact hother hname hrest

section

variable [BundlePrims]

/-- An accepted bundle has the files of its archive. -/
theorem Accepts.unpacked {data : Bytes} {entries : List ZipEntry} {bundle : MiniAppBundle}
    (h : Accepts data entries bundle) : unpack ∅ entries = .ok bundle.files := by
  obtain ⟨entries', hentries, hload⟩ := except_bind_ok h.loaded
  obtain rfl := Except.ok.inj (h.archive.symm.trans hentries)
  obtain ⟨files, hfiles, hload⟩ := except_bind_ok hload
  split at hload
  · cases hload
  obtain ⟨manifest, -, hload⟩ := except_bind_ok hload
  obtain ⟨⟨⟩, -, hload⟩ := except_bind_ok hload
  obtain rfl := Except.ok.inj hload
  exact hfiles

/-- The files of an accepted archive, from the entries that are signed. -/
theorem Accepts.getFile {data : Bytes} {entries : List ZipEntry} {bundle : MiniAppBundle}
    (h : Accepts data entries bundle) (hread : WellRead entries) {signed : List (String × Bytes)}
    (hsigned : signedEntries entries = some signed) {path : String} (hpath : path ≠ bundleSigFile) :
    bundle.getFile path = if isDirName path then none else lastOf path signed := by
  show bundle.files.lookup path = _
  rw [unpack_lookup hread.isDir h.unpacked hsigned hpath, AList.lookup_empty, Option.or_none]

end

/-! ## What the digest input determines -/

/-- The framing of `bundle_hash_for_signature`. -/
def entryFraming : Framing UInt8 where
  sep := 0
  bound := 256 ^ 8
  width := 8
  encodeLength := leBytes 8
  length_encodeLength := length_leBytes 8
  encodeLength_inj := leBytes_inj

/-- An entry as its bytes. -/
def entryBytes (x : String × Bytes) : Bytes × Bytes := (asBytes x.1, x.2)

/-- An entry is determined by its name and data as bytes. -/
theorem entryBytes_injective : Function.Injective entryBytes := by
  intro x y h
  obtain ⟨hname, hdata⟩ := Prod.mk.inj h
  exact Prod.ext (asBytes_injective hname) hdata

/-- What is hashed is framed by the lengths. -/
theorem flatMap_hashedEntry (signed : List (String × Bytes)) :
    signed.flatMap hashedEntry = (signed.map entryBytes).flatMap entryFraming.frame := by
  have hframe : hashedEntry = entryFraming.frame ∘ entryBytes := by
    funext x
    simp [hashedEntry, Framing.frame, entryFraming, entryBytes]
  rw [List.flatMap_map, hframe]
  rfl

variable {entries entries' : List ZipEntry} {signed signed' : List (String × Bytes)}

/-- The lengths fit in their fields. -/
theorem bounded_signedEntries (hread : WellRead entries) (h : signedEntries entries = some signed) :
    entryFraming.Bounded ((sortedByName signed).map entryBytes) := by
  intro e he
  obtain ⟨x, hx, rfl⟩ := List.mem_map.mp he
  obtain ⟨z, hz, -, hdata⟩ := exists_of_mem_signedEntries h ((perm_sortedByName _).subset hx)
  exact (hread.length z hz _ hdata).trans_eq (by norm_num [entryFraming])

/-- One digest input, one row of framed entries. -/
theorem frames_eq_of_digestInput (hsigned : signedEntries entries = some signed)
    (hsigned' : signedEntries entries' = some signed')
    (hinput : digestInput entries = digestInput entries') :
    ((sortedByName signed).map entryBytes).flatMap entryFraming.frame
      = ((sortedByName signed').map entryBytes).flatMap entryFraming.frame := by
  rwa [digestInput, digestInput, hsigned, hsigned', Option.map_some, Option.map_some,
    Option.some.injEq, flatMap_hashedEntry, flatMap_hashedEntry] at hinput

/-- Rows of framed entries with the same names are the same rows, in the order of the names. -/
theorem sortedByName_inj_of_names {files files' : List (String × Bytes)}
    (hbound : entryFraming.Bounded ((sortedByName files).map entryBytes))
    (hbound' : entryFraming.Bounded ((sortedByName files').map entryBytes))
    (hnames : (files.map Prod.fst).Perm (files'.map Prod.fst))
    (hframes : ((sortedByName files).map entryBytes).flatMap entryFraming.frame
      = ((sortedByName files').map entryBytes).flatMap entryFraming.frame) :
    sortedByName files = sortedByName files' := by
  have hperm : ((sortedByName files).map Prod.fst).Perm ((sortedByName files').map Prod.fst) :=
    ((perm_sortedByName _).map _).trans (hnames.trans ((perm_sortedByName _).map _).symm)
  -- both rows are in the order of the names
  have hsorted := hperm.eq_of_pairwise' (pairwise_sortedByName files) (pairwise_sortedByName files')
  have hbytes : ((sortedByName files).map entryBytes).map Prod.fst
      = ((sortedByName files').map entryBytes).map Prod.fst := by
    have hmap := congrArg (List.map asBytes) hsorted
    rw [List.map_map, List.map_map] at hmap ⊢
    exact hmap
  exact List.map_injective_iff.mpr entryBytes_injective
    (Framing.flatMap_frame_inj_of_names hbound hbound' hbytes hframes)

/-- **The names determine the entries**, up to the order in the archive. -/
theorem signed_inj_of_names (hread : WellRead entries) (hread' : WellRead entries')
    (hsigned : signedEntries entries = some signed)
    (hsigned' : signedEntries entries' = some signed')
    (hnames : (signedNames entries).Perm (signedNames entries'))
    (hinput : digestInput entries = digestInput entries') :
    sortedByName signed = sortedByName signed' := by
  rw [← map_fst_signedEntries hsigned, ← map_fst_signedEntries hsigned'] at hnames
  exact sortedByName_inj_of_names (bounded_signedEntries hread hsigned)
    (bounded_signedEntries hread' hsigned') hnames (frames_eq_of_digestInput hsigned hsigned' hinput)

/-- **Names without a NUL are determined too.** -/
theorem signed_inj_of_no_nul (hread : WellRead entries) (hread' : WellRead entries')
    (hsigned : signedEntries entries = some signed)
    (hsigned' : signedEntries entries' = some signed')
    (hnul : ∀ e ∈ entries, 0 ∉ asBytes e.name) (hnul' : ∀ e ∈ entries', 0 ∉ asBytes e.name)
    (hinput : digestInput entries = digestInput entries') :
    sortedByName signed = sortedByName signed' := by
  have hsep : ∀ {zs : List ZipEntry} {l : List (String × Bytes)}, signedEntries zs = some l →
      (∀ e ∈ zs, 0 ∉ asBytes e.name) →
      ∀ e ∈ (sortedByName l).map entryBytes, entryFraming.sep ∉ e.1 := by
    intro zs l hl hzs e he
    obtain ⟨x, hx, rfl⟩ := List.mem_map.mp he
    obtain ⟨z, hz, hname, -⟩ := exists_of_mem_signedEntries hl ((perm_sortedByName _).subset hx)
    show 0 ∉ asBytes x.1
    rw [← hname]
    exact hzs z hz
  exact List.map_injective_iff.mpr entryBytes_injective (Framing.flatMap_frame_inj_of_not_mem
    (bounded_signedEntries hread hsigned) (bounded_signedEntries hread' hsigned')
    (hsep hsigned hnul) (hsep hsigned' hnul')
    (frames_eq_of_digestInput hsigned hsigned' hinput))

/-! ## Accepted archives -/

section

variable [BundlePrims] {data data' : Bytes} {bundle bundle' : MiniAppBundle}

/-- Archives that are signed alike have the same contents. -/
theorem sameContents_of_signed (h : Accepts data entries bundle)
    (h' : Accepts data' entries' bundle') (hread : WellRead entries) (hread' : WellRead entries')
    (hsigned : signedEntries entries = some signed)
    (hsigned' : signedEntries entries' = some signed')
    (heq : sortedByName signed = sortedByName signed') : SameContents bundle bundle' := by
  intro path hpath
  rw [h.getFile hread hsigned hpath, h'.getFile hread' hsigned' hpath, ← lastOf_sortedByName, heq,
    lastOf_sortedByName]

/-- The names of an archive of files are the paths of the bundle. -/
theorem mem_signedNames_iff (h : Accepts data entries bundle) (hread : WellRead entries)
    (hplain : Plain entries) (hsigned : signedEntries entries = some signed) (path : String) :
    path ∈ signedNames entries ↔ path ≠ bundleSigFile ∧ (bundle.getFile path).isSome := by
  have hmem : path ∈ signedNames entries → path ≠ bundleSigFile ∧ isDirName path = false := by
    intro hpath
    obtain ⟨hname, hne⟩ := List.mem_filter.mp hpath
    obtain ⟨e, he, rfl⟩ := List.mem_map.mp hname
    exact ⟨of_decide_eq_true hne, (hread.isDir e he).symm.trans (hplain.files e he)⟩
  constructor
  · intro hpath
    obtain ⟨hne, hfile⟩ := hmem hpath
    refine ⟨hne, ?_⟩
    rw [h.getFile hread hsigned hne, if_neg (by rw [hfile]; exact Bool.false_ne_true),
      isSome_lastOf_iff, map_fst_signedEntries hsigned]
    exact hpath
  · rintro ⟨hne, hsome⟩
    rw [h.getFile hread hsigned hne] at hsome
    split at hsome
    · cases hsome
    · rwa [isSome_lastOf_iff, map_fst_signedEntries hsigned] at hsome

/-- **What a bundle signature covers.** Two accepted archives with one digest input hold the same
files, leaving out the sidecar, if their entries have the same names, and so if no name holds a
NUL. For archives of files with different names it takes that: they hold the same files exactly if
the names are the same. -/
theorem bundle_signature_covers_iff (hzip : BundlePrims.ZipLaws)
    (h : Accepts data entries bundle) (h' : Accepts data' entries' bundle')
    (hsome : (digestInput entries).isSome) (hinput : digestInput entries = digestInput entries') :
    ((signedNames entries).Perm (signedNames entries') → SameContents bundle bundle')
    ∧ ((∀ e ∈ entries ++ entries', 0 ∉ asBytes e.name) → SameContents bundle bundle')
    ∧ (Plain entries → Plain entries' →
      (SameContents bundle bundle' ↔ (signedNames entries).Perm (signedNames entries'))) := by
  have hread := hzip data entries h.archive
  have hread' := hzip data' entries' h'.archive
  obtain ⟨signed, hsigned⟩ : ∃ signed, signedEntries entries = some signed := by
    rwa [digestInput, Option.isSome_map, Option.isSome_iff_exists] at hsome
  obtain ⟨signed', hsigned'⟩ : ∃ signed', signedEntries entries' = some signed' := by
    rwa [hinput, digestInput, Option.isSome_map, Option.isSome_iff_exists] at hsome
  have hnames : (signedNames entries).Perm (signedNames entries') → SameContents bundle bundle' :=
    fun hperm => sameContents_of_signed h h' hread hread' hsigned hsigned'
      (signed_inj_of_names hread hread' hsigned hsigned' hperm hinput)
  refine ⟨hnames, fun hnul => ?_, fun hplain hplain' => ⟨fun hsame => ?_, hnames⟩⟩
  · exact sameContents_of_signed h h' hread hread' hsigned hsigned'
      (signed_inj_of_no_nul hread hread' hsigned hsigned'
        (fun e he => hnul e (List.mem_append_left _ he))
        (fun e he => hnul e (List.mem_append_right _ he)) hinput)
  · -- the names of an archive of files can be told from its files
    refine (List.perm_ext_iff_of_nodup (hplain.nodup.filter _) (hplain'.nodup.filter _)).mpr
      fun path => ?_
    show path ∈ signedNames entries ↔ path ∈ signedNames entries'
    rw [mem_signedNames_iff h hread hplain hsigned, mem_signedNames_iff h' hread' hplain' hsigned']
    exact and_congr_right fun hne => by rw [hsame path hne]

/-- A bundle that loads and passes the scan is accepted. -/
theorem exists_accepts (data : Bytes) (entries : List ZipEntry)
    (harchive : BundlePrims.zipEntries data = .ok entries)
    (h : (MiniAppBundle.loadFromBytes data >>= fun bundle => scanBundle bundle data).isOk = true) :
    ∃ bundle, Accepts data entries bundle := by
  cases hload : MiniAppBundle.loadFromBytes data with
  | error e =>
    rw [hload] at h
    cases h
  | ok bundle =>
    rw [hload] at h
    cases hscan : scanBundle bundle data with
    | error e =>
      replace h : (scanBundle bundle data).isOk = true := h
      rw [hscan] at h
      cases h
    | ok u => exact ⟨bundle, harchive, hload, hscan⟩

end

section

/-- The entries of an archive in the order of their names. -/
theorem digestInput_of_sorted (entries : List ZipEntry) (signed : List (String × Bytes))
    (hsigned : signedEntries entries = some signed)
    (hsorted : signed.Pairwise fun a b => decide (a.1 ≤ b.1) = true) :
    digestInput entries = some (signed.flatMap hashedEntry) := by
  rw [digestInput, hsigned, Option.map_some, sortedByName, List.mergeSort_of_pairwise hsorted]

/-- Two scripts, a page and a manifest. -/
def scriptEntries : List ZipEntry :=
  [⟨"a.js", false, some (asBytes "track()")⟩, ⟨"b.js", false, some (asBytes "run()")⟩,
   ⟨"index.html", false, some (asBytes "<html></html>")⟩, ⟨"mycelium-app.json", false, some []⟩]

/-- One script, whose name holds the first of the two. -/
def nulEntries : List ZipEntry :=
  [⟨"a.js\x00\x07\x00\x00\x00\x00\x00\x00\x00track()b.js", false, some (asBytes "run()")⟩,
   ⟨"index.html", false, some (asBytes "<html></html>")⟩, ⟨"mycelium-app.json", false, some []⟩]

@[reducible] def scriptBundles : BundlePrims where
  zipEntries data :=
    if data = [1] then .ok scriptEntries
    else if data = [2] then .ok nulEntries
    else .error "invalid Zip archive"
  parseManifest _ := .ok (symbolicListing 1 5).manifest
  parseBundleSignature _ := .error "expected value"
  toLowercase s := String.ofList (s.toList.map Char.toLower)

attribute [local instance] scriptBundles

/-- The two archives meet what is asked of an archive. -/
theorem scriptBundles_laws : BundlePrims.ZipLaws := by
  have hread : ∀ entries ∈ [scriptEntries, nulEntries], ∀ e ∈ entries,
      e.isDir = isDirName e.name ∧ (e.data.getD []).length < 2 ^ 64 := by
    decide +kernel
  intro data entries h
  have hmem : entries ∈ [scriptEntries, nulEntries] := by
    unfold BundlePrims.zipEntries scriptBundles at h
    simp only at h
    split at h
    · obtain rfl := Except.ok.inj h
      exact List.mem_cons_self
    split at h
    · obtain rfl := Except.ok.inj h
      exact List.mem_cons_of_mem _ List.mem_cons_self
    · cases h
  refine ⟨fun e he => (hread entries hmem e he).1, fun e he buf hbuf => ?_⟩
  have hlength := (hread entries hmem e he).2
  rwa [hbuf] at hlength

/-- The entries of both archives as they are signed. -/
def signedPairs (entries : List ZipEntry) : List (String × Bytes) :=
  entries.map fun e => (e.name, e.data.getD [])

/-- What is signed of them. -/
theorem signedEntries_pairs : signedEntries scriptEntries = some (signedPairs scriptEntries)
    ∧ signedEntries nulEntries = some (signedPairs nulEntries) := by
  decide +kernel

/-- Their digests are over the same bytes. -/
theorem digestInput_nulEntries : digestInput scriptEntries = digestInput nulEntries
    ∧ (digestInput scriptEntries).isSome := by
  rw [digestInput_of_sorted scriptEntries _ signedEntries_pairs.1 (by decide +kernel),
    digestInput_of_sorted nulEntries _ signedEntries_pairs.2 (by decide +kernel)]
  decide +kernel

/-- A signature of the two scripts is one of the single script. -/
theorem bundle_signature_carried_over :
    ∃ bundle bundle', Accepts [1] scriptEntries bundle ∧ Accepts [2] nulEntries bundle'
      ∧ digestInput scriptEntries = digestInput nulEntries ∧ (digestInput scriptEntries).isSome
      ∧ bundle.getFile "a.js" = some (asBytes "track()") ∧ bundle'.getFile "a.js" = none := by
  obtain ⟨bundle, h⟩ := exists_accepts [1] scriptEntries rfl (by decide +kernel)
  obtain ⟨bundle', h'⟩ := exists_accepts [2] nulEntries rfl (by decide +kernel)
  refine ⟨bundle, bundle', h, h', digestInput_nulEntries.1, digestInput_nulEntries.2, ?_, ?_⟩
  · rw [h.getFile (scriptBundles_laws [1] _ rfl) signedEntries_pairs.1 (by decide)]
    decide +kernel
  · rw [h'.getFile (scriptBundles_laws [2] _ rfl) signedEntries_pairs.2 (by decide)]
    decide +kernel

/-- Both are accepted, and one has a script that the other does not have. -/
theorem bundle_signature_covers_scripts :
    ∃ bundle bundle', Accepts [1] scriptEntries bundle ∧ Accepts [2] nulEntries bundle'
      ∧ ¬ SameContents bundle bundle' := by
  obtain ⟨bundle, h⟩ := exists_accepts [1] scriptEntries rfl (by decide +kernel)
  obtain ⟨bundle', h'⟩ := exists_accepts [2] nulEntries rfl (by decide +kernel)
  refine ⟨bundle, bundle', h, h', ?_⟩
  rw [(bundle_signature_covers_iff scriptBundles_laws h h' digestInput_nulEntries.2
    digestInput_nulEntries.1).2.2 ⟨by decide, by decide⟩ ⟨by decide, by decide⟩]
  intro hperm
  exact absurd hperm.length_eq (by decide)

end

end Mycelium.App
