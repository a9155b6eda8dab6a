import LiterateCheck.Proofs.Discovery.Keeping
import LiterateCheck.Proofs.Discovery.Marks
import LiterateCheck.Proofs.Path.Order
import LiterateCheck.Proofs.Text.RawNames

/-!
# The documents of a project

Discovery gives the paths of the documents below a root that a selection keeps
(`mem_discoverWith_iff`). Different names lead to different paths, so no path is given twice and the
sorted list is strictly increasing (`nodup_discoverWith`).

1. Directories with a configuration of their own are left out below the root's own directories, but
   not among these (`mem_discover_iff`).
2. Where there are none, discovery is exact, whatever ignores, excludes and includes
   (`discover_exact`). A file whose name is not UTF-8 is no document, whatever its name ends in.
-/

namespace LiterateCheck

/-! ## The documents of a project -/

/-- A list of paths holds the documents below a root that a selection keeps, each once, in the
order of their components. -/
structure Selection.Exact (selection : Selection) (disk : Disk) (cwd : Location) (root : Path)
    (files : List Path) : Prop where
  nodup : (files.map Path.components).Nodup
  sorted : files.Pairwise fun a b => a.compare b = .lt
  mem_iff : ∀ path, path ∈ files ↔
    ∃ front name, path = root.under (front ++ [name]) ∧ selection.Keeps disk cwd root front name

/-- No proper subdirectory of a root has a configuration of its own. -/
def HasOneProject (disk : Disk) (cwd : Location) (root : Path) : Prop :=
  ∀ names ≠ [], (∀ name ∈ names, Path.IsFileName name) →
    disk.isDirectory cwd (root.under names) = true → hasConfig disk cwd (root.under names) = false

section Discover

variable {disk : Disk} {cwd : Location} {selection : Selection} {root : Path}
  {config : Config} {files : List Path}

/-- A walk that found some names gives the sorted paths of those whose documents are included. -/
theorem discoverWith_eq_ok (hnames : disk.WellNamed)
    (h : discoverWith disk cwd root selection = .ok files) :
    ∃ found : List (List String), found.Nodup ∧
      (∀ names, names ∈ found ↔ Walk.Finds disk cwd selection true root names) ∧
      files = Path.sort ((found.map root.under).filter fun path =>
        selection.included (relativePath root path)) := by
  unfold discoverWith at h
  obtain ⟨walk, hrun, hfiles⟩ := bind_eq_ok_iff.1 h
  obtain ⟨found, hfound, hnodup, hmem⟩ := Walk.gathers_run hnames (Nat.le_add_right ..) hrun
  rw [List.nil_append] at hfound
  exact ⟨found, hnodup, hmem, hfound ▸ (Except.ok.inj hfiles).symm⟩

theorem mem_discoverWith_iff (hnames : disk.WellNamed)
    (h : discoverWith disk cwd root selection = .ok files) (path : Path) :
    path ∈ files ↔ ∃ front name, path = root.under (front ++ [name]) ∧
      selection.Keeps disk cwd root front name ∧
      ∀ part ≠ [], part <+: front → hasConfig disk cwd (root.under part) = true →
        part.length = 1 := by
  obtain ⟨found, -, hmem, rfl⟩ := discoverWith_eq_ok hnames h
  rw [(Path.sort_perm _).mem_iff, List.mem_filter, List.mem_map]
  constructor
  · rintro ⟨⟨names, hfound, rfl⟩, hincluded⟩
    have hfinds := (hmem names).1 hfound
    have hne : names ≠ [] := by
      rintro rfl
      cases hfinds
    rw [← List.dropLast_concat_getLast hne] at hfinds hincluded ⊢
    exact ⟨_, _, rfl, keeps_of_finds hnames hfinds hincluded⟩
  · rintro ⟨front, name, rfl, hkeeps, hconfig⟩
    refine ⟨⟨_, (hmem _).2 (hkeeps.finds hconfig), rfl⟩, ?_⟩
    rw [relativePath_under root hkeeps.fileNames]
    exact hkeeps.included

theorem nodup_discoverWith (hnames : disk.WellNamed)
    (h : discoverWith disk cwd root selection = .ok files) :
    (files.map Path.components).Nodup ∧ files.Pairwise fun a b => a.compare b = .lt := by
  obtain ⟨found, hnodup, hmem, rfl⟩ := discoverWith_eq_ok hnames h
  have hfile (names : List String) (hfound : names ∈ found) :
      ∀ name ∈ names, Path.IsFileName name := ((hmem names).1 hfound).isFileName hnames
  have hpaths : ((found.map root.under).map Path.components).Nodup := by
    rw [List.map_map]
    refine List.pairwise_map.2 (hnodup.imp_of_mem fun {a b} ha hb hne heq => hne ?_)
    exact Path.under_inj (hfile a ha) (hfile b hb) heq
  have hkept := hpaths.sublist (((List.filter_sublist (l := found.map root.under)
    (p := fun path => selection.included (relativePath root path)))).map Path.components)
  exact ⟨((Path.sort_perm _).map Path.components).nodup_iff.2 hkept, Path.pairwise_sort hkept⟩

theorem exact_of_discoverWith (hnames : disk.WellNamed) (hone : HasOneProject disk cwd root)
    (h : discoverWith disk cwd root selection = .ok files) :
    selection.Exact disk cwd root files := by
  obtain ⟨hnodup, hsorted⟩ := nodup_discoverWith hnames h
  refine ⟨hnodup, hsorted, fun path => (mem_discoverWith_iff hnames h path).trans ?_⟩
  constructor
  · rintro ⟨front, name, rfl, hkeeps, -⟩
    exact ⟨front, name, rfl, hkeeps⟩
  · rintro ⟨front, name, rfl, hkeeps⟩
    refine ⟨front, name, rfl, hkeeps, fun part hne hpart hconfig => ?_⟩
    -- the part is a directory below the root, so it has no configuration
    have hfront := (List.forall_mem_append.1 hkeeps.fileNames).1
    have hroot := Disk.text_ne_empty_of_isDirectory hkeeps.rootDirectory
    have hpart' := Disk.isDirectory_under_of_prefix hroot hfront hpart hkeeps.listed.isDirectory
    have hnone := hone part hne (fun name hname => hfront name (hpart.subset hname)) hpart'
    rw [hconfig] at hnone
    cases hnone

theorem discover_eq_ok (h : discover disk cwd root config = .ok files) :
    ∃ selection, Selection.ofConfig disk cwd root config = .ok selection ∧
      discoverWith disk cwd root selection = .ok files :=
  bind_eq_ok_iff.1 h

theorem isEmpty_includeGlobs {patterns : List String} {globs : List Glob}
    (h : includeGlobs patterns = .ok globs) : globs.isEmpty = patterns.isEmpty := by
  cases patterns with
  | nil =>
    obtain rfl : [] = globs := Except.ok.inj h
    rfl
  | cons pattern others =>
    unfold includeGlobs at h
    rw [List.mapM_cons] at h
    obtain ⟨glob, -, hothers⟩ := bind_eq_ok_iff.1 h
    obtain ⟨rest, -, hglobs⟩ := bind_eq_ok_iff.1 hothers
    obtain rfl : glob :: rest = globs := Except.ok.inj hglobs
    rfl

/-- A configuration with valid patterns selects by its ignore file, by its exclude patterns and,
when there are some, by its include patterns. -/
theorem ofConfig_eq_ok (h : Selection.ofConfig disk cwd root config = .ok selection) :
    ∃ excluded globs, IgnoreRules.ofPatterns root config.excludePatterns = .ok excluded ∧
      includeGlobs config.includePatterns = .ok globs ∧
      selection =
        { ignored :=
            (if config.disableGitignore then ⟨root, []⟩ else ignoreRules disk cwd root :
              IgnoreRules).ignores
          excluded := excluded.ignores
          included := fun path =>
            config.includePatterns.isEmpty || globs.any fun glob => glob.isMatch path.text
          outputRoot := root.join config.outputDir } := by
  unfold Selection.ofConfig at h
  dsimp only at h
  split at h
  · rename_i excluded hexcluded
    change (includeGlobs config.includePatterns >>= _) = _ at h
    obtain ⟨globs, hglobs, hselection⟩ := bind_eq_ok_iff.1 h
    refine ⟨excluded, globs, hexcluded, hglobs, ?_⟩
    rw [← isEmpty_includeGlobs hglobs]
    exact (Except.ok.inj hselection).symm
  · cases h

end Discover

/-- What the default configuration selects below the root of a disk without ignore rules. -/
def documentSelection : Selection :=
  { ignored := fun _ _ => false, excluded := fun _ _ => false, included := fun _ => true
    outputRoot := ⟨"/target/moonbit-check"⟩ }

theorem ofConfig_of_no_ignore {disk : Disk} (hnone : disk.entryAt? [".gitignore"] = none) :
    Selection.ofConfig disk [] ⟨"/"⟩ .default = .ok documentSelection := by
  have hlocate : disk.locate [] ⟨"/.gitignore"⟩ = .ok (.vacant [] ".gitignore") :=
    Disk.find_of_follows (by decide) (.vacant (by decide) hnone)
  have hrules : ignoreRules disk [] ⟨"/"⟩ = ⟨⟨"/"⟩, []⟩ := by
    unfold ignoreRules Disk.bytesAt Disk.lookup
    rw [show (Path.mk "/").join ⟨".gitignore"⟩ = ⟨"/.gitignore"⟩ from rfl, hlocate]
  unfold Selection.ofConfig
  rw [hrules]
  rfl

/-! ## A project of one document -/

/-- A disk with a document in a directory, which may have a configuration of its own. -/
def documentDisk (configured : Bool) : Disk where
  entries :=
    (["a"], .directory) :: (["a", "x.mbt.md"], .file .empty false) ::
      if configured then [(["a", "mbt-check.toml"], .file .empty false)] else []
  distinct := by cases configured <;> decide

theorem wellNamed_documentDisk (configured : Bool) : (documentDisk configured).WellNamed := by
  unfold Disk.WellNamed
  cases configured <;> decide

section DocumentDisk

variable (configured : Bool)

theorem lookup_documentDisk_directory :
    (documentDisk configured).lookup [] ⟨"/a"⟩ = .ok (["a"], .directory) :=
  Disk.lookup_of_locate (Disk.find_of_follows (by decide) (.into (by decide) rfl .stop))

theorem lookup_documentDisk_document :
    (documentDisk configured).lookup [] ⟨"/a/x.mbt.md"⟩ =
      .ok (["a", "x.mbt.md"], .file .empty false) :=
  Disk.lookup_of_locate
    (Disk.find_of_follows (by decide) (.into (by decide) rfl (.file (by decide) rfl)))

theorem lookup_documentDisk_config :
    (documentDisk true).lookup [] ⟨"/a/mbt-check.toml"⟩ =
      .ok (["a", "mbt-check.toml"], .file .empty false) :=
  Disk.lookup_of_locate
    (Disk.find_of_follows (by decide) (.into (by decide) rfl (.file (by decide) rfl)))

theorem ofConfig_documentDisk :
    Selection.ofConfig (documentDisk configured) [] ⟨"/"⟩ .default = .ok documentSelection :=
  ofConfig_of_no_ignore (by cases configured <;> rfl)

theorem fits_documentDisk : (documentDisk configured).Fits := by
  unfold Disk.Fits
  cases configured <;> decide

theorem run_documentDisk_directory {walk : Walk}
    (hwalk : Walk.mark (documentDisk configured) [] ⟨"/a"⟩ ∉ walk.visited) (fuel : Nat) :
    ∃ visited, Walk.run (documentDisk configured) [] documentSelection (fuel + 1) false ⟨"/a"⟩
      walk = .ok ⟨visited, walk.files ++ [⟨"/a/x.mbt.md"⟩]⟩ := by
  have hdocument : Walk.Takes (documentDisk configured) [] documentSelection ⟨"/a/x.mbt.md"⟩
      "x.mbt.md" := by
    refine ⟨by decide, ⟨rfl, rfl⟩, ?_, by decide⟩
    unfold Disk.isDirectory
    rw [lookup_documentDisk_document]
    rfl
  rw [Walk.run, lookup_documentDisk_directory]
  dsimp only
  rw [if_neg hwalk]
  refine ⟨Walk.mark (documentDisk configured) [] ⟨"/a"⟩ :: walk.visited, ?_⟩
  cases configured with
  | false =>
    rw [show (documentDisk false).children ["a"] = [("x.mbt.md", .file .empty false)] from rfl,
      List.foldlM_cons, show (Path.mk "/a").join ⟨"x.mbt.md"⟩ = ⟨"/a/x.mbt.md"⟩ from rfl,
      Walk.takeEntry_of_takes hdocument]
    rfl
  | true =>
    have hconfig : (documentDisk true).isDirectory [] ⟨"/a/mbt-check.toml"⟩ = false := by
      unfold Disk.isDirectory
      rw [lookup_documentDisk_config]
      rfl
    have hliterate : isLiterate ⟨"/a/mbt-check.toml"⟩ = false := by decide
    rw [show (documentDisk true).children ["a"] =
        [("x.mbt.md", .file .empty false), ("mbt-check.toml", .file .empty false)] from rfl,
      List.foldlM_cons, show (Path.mk "/a").join ⟨"x.mbt.md"⟩ = ⟨"/a/x.mbt.md"⟩ from rfl,
      Walk.takeEntry_of_takes hdocument]
    show List.foldlM _ _ _ = _
    rw [List.foldlM_cons, show (Path.mk "/a").join ⟨"mbt-check.toml"⟩ = ⟨"/a/mbt-check.toml"⟩
        from rfl, Walk.takeEntry_of_neither]
    · rfl
    · intro h
      cases h.isDirectory.symm.trans hconfig
    · intro h
      cases h.literate.symm.trans hliterate

theorem discover_documentDisk :
    discover (documentDisk configured) [] ⟨"/"⟩ .default = .ok [⟨"/a/x.mbt.md"⟩] := by
  have henters : Walk.Enters (documentDisk configured) [] documentSelection true ⟨"/a"⟩ "a" :=
    ⟨by decide, ⟨rfl, rfl⟩, Disk.isDirectory_iff.2 ⟨_, lookup_documentDisk_directory configured⟩,
      by decide, fun _ => rfl⟩
  unfold discover
  rw [ofConfig_documentDisk]
  show discoverWith _ _ _ _ = _
  unfold discoverWith
  rw [show maxPathSize = 4094 + 1 + 1 from rfl, Walk.run, Disk.lookup_root]
  dsimp only
  have hnew : Walk.mark (documentDisk configured) [] ⟨"/a"⟩ ∉
      [Walk.mark (documentDisk configured) [] ⟨"/"⟩] := by
    rw [Walk.mark_of_lookup (fits_documentDisk configured) (Disk.lookup_root _),
      Walk.mark_of_lookup (fits_documentDisk configured) (lookup_documentDisk_directory configured)]
    decide
  obtain ⟨visited, hrun⟩ := @run_documentDisk_directory configured
    ⟨[Walk.mark (documentDisk configured) [] ⟨"/"⟩], []⟩ hnew 4094
  rw [if_neg List.not_mem_nil, show (documentDisk configured).children [] = [("a", .directory)] by
      cases configured <;> rfl,
    List.foldlM_cons, show (Path.mk "/").join ⟨"a"⟩ = ⟨"/a"⟩ from rfl,
    Walk.takeEntry_of_enters henters, hrun]
  exact congrArg Except.ok (List.mergeSort_singleton ..)

end DocumentDisk

/-! ## Separate projects -/

/-- **Which projects below the root are entered.** Discovery gives the documents that the
configuration keeps, when no directory on the way has a configuration of its own. Directories that
stand in the root itself are no exception to the rules but to this one: they are entered, configured
or not. -/
theorem mem_discover_iff {disk : Disk} {cwd : Location} {root : Path} {config : Config}
    {files : List Path} (hnames : disk.WellNamed)
    (h : discover disk cwd root config = .ok files) :
    ∃ selection, Selection.ofConfig disk cwd root config = .ok selection ∧
      ∀ path, path ∈ files ↔ ∃ front name, path = root.under (front ++ [name]) ∧
        selection.Keeps disk cwd root front name ∧
        ∀ part ≠ [], part <+: front → hasConfig disk cwd (root.under part) = true →
          part.length = 1 := by
  obtain ⟨selection, hselection, hwith⟩ := discover_eq_ok h
  exact ⟨selection, hselection, mem_discoverWith_iff hnames hwith⟩

/-- The document below a configured directory of the root is kept. -/
theorem mem_discover_documentDisk : ∃ selection front name,
    Selection.ofConfig (documentDisk true) [] ⟨"/"⟩ .default = .ok selection ∧
      ⟨"/a/x.mbt.md"⟩ = (Path.mk "/").under (front ++ [name]) ∧
      selection.Keeps (documentDisk true) [] ⟨"/"⟩ front name := by
  obtain ⟨selection, hselection, hmem⟩ :=
    mem_discover_iff (wellNamed_documentDisk true) (discover_documentDisk true)
  obtain ⟨front, name, hpath, hkeeps, -⟩ :=
    (hmem ⟨"/a/x.mbt.md"⟩).1 (List.mem_singleton_self _)
  exact ⟨selection, front, name, hselection, hpath, hkeeps⟩

/-- A directory of the root with a configuration of its own is a separate project, and yet a
document below it is given. -/
theorem discover_enters_project : (documentDisk true).WellNamed ∧
    discover (documentDisk true) [] ⟨"/"⟩ .default = .ok [(Path.mk "/").under ["a", "x.mbt.md"]] ∧
    (documentDisk true).isDirectory [] ((Path.mk "/").under ["a"]) = true ∧
    hasConfig (documentDisk true) [] ((Path.mk "/").under ["a"]) = true := by
  refine ⟨wellNamed_documentDisk true, discover_documentDisk true,
    Disk.isDirectory_iff.2 ⟨_, lookup_documentDisk_directory true⟩, ?_⟩
  have hfile : (documentDisk true).isFile [] ⟨"/a/mbt-check.toml"⟩ = true := by
    unfold Disk.isFile
    rw [lookup_documentDisk_config]
    rfl
  unfold hasConfig Config.path?
  rw [List.find?_isSome]
  exact ⟨⟨"/a/mbt-check.toml"⟩, by decide, hfile⟩

/-! ## One project -/

/-- **Discovery is exact.** Where no directory below the root is a project of its own, discovery
gives exactly the documents that are kept, whatever keeps them, each once and in the order of their
components. The name of a document is UTF-8, and only names that are UTF-8 are passed over. A
configuration keeps what neither its ignore rules nor its exclude patterns match, what lies outside
its output directory and what one of its include patterns matches, when there are some. -/
theorem discover_exact {disk : Disk} {cwd : Location} {root : Path} (hnames : disk.WellNamed)
    (hone : HasOneProject disk cwd root) :
    (∀ selection files, discoverWith disk cwd root selection = .ok files →
      selection.Exact disk cwd root files) ∧
    ∀ config files, discover disk cwd root config = .ok files →
      ∃ excluded globs, IgnoreRules.ofPatterns root config.excludePatterns = .ok excluded ∧
        includeGlobs config.includePatterns = .ok globs ∧
        Selection.Exact
          { ignored :=
              (if config.disableGitignore then ⟨root, []⟩ else ignoreRules disk cwd root :
                IgnoreRules).ignores
            excluded := excluded.ignores
            included := fun path =>
              config.includePatterns.isEmpty || globs.any fun glob => glob.isMatch path.text
            outputRoot := root.join config.outputDir } disk cwd root files := by
  refine ⟨fun selection files => exact_of_discoverWith hnames hone, fun config files h => ?_⟩
  obtain ⟨selection, hselection, hwith⟩ := discover_eq_ok h
  obtain ⟨excluded, globs, hexcluded, hglobs, rfl⟩ := ofConfig_eq_ok hselection
  exact ⟨excluded, globs, hexcluded, hglobs, exact_of_discoverWith hnames hone hwith⟩

/-- Below the root only `a` is a directory, and it has no configuration. -/
theorem hasOneProject_documentDisk : HasOneProject (documentDisk false) [] ⟨"/"⟩ := by
  have hroot : (Path.mk "/").text ≠ "" := by decide
  have hbelow : (Path.mk "/a").text ≠ "" := by decide
  intro names hne hfile hdirectory
  obtain ⟨first, rest, rfl⟩ := List.exists_cons_of_ne_nil hne
  obtain ⟨hfirst, hrest⟩ := List.forall_mem_cons.1 hfile
  -- the first name is listed in the root
  have hway := Disk.isDirectory_under_of_prefix hroot hfile (List.prefix_append [first] rest)
    hdirectory
  obtain ⟨l, hl, hlisted⟩ := Disk.lists_iff.1 (Disk.lists_of_isDirectory_join hroot hfirst hway)
  cases (documentDisk false).lookup_root.symm.trans hl
  obtain rfl : first = "a" := List.mem_singleton.1 hlisted
  cases rest with
  | nil =>
    unfold hasConfig Config.path?
    rw [Bool.eq_false_iff, ne_eq, List.find?_isSome]
    rintro ⟨path, hpath, hisFile⟩
    have hway : (documentDisk false).Follows true maxLinks [] ["a"] (.entry ["a"] .directory) :=
      .into (by decide) rfl .stop
    have hno : (documentDisk false).isFile [] path = false := by
      simp only [Config.candidates, List.map_cons, List.map_nil, List.mem_cons, List.not_mem_nil,
        or_false] at hpath
      rcases hpath with rfl | rfl | rfl
      · exact Disk.isFile_eq_false_of_missing (by decide) hway
          (show _ = ["a"] ++ ["mbt-check.toml"] by decide) (by decide) rfl
      · exact Disk.isFile_eq_false_of_missing (by decide) hway
          (show _ = ["a"] ++ [".mbt-check.toml"] by decide) (by decide) rfl
      · exact Disk.isFile_eq_false_of_missing (by decide) hway
          (show _ = ["a"] ++ [".config", "mbt-check.toml"] by decide) (by decide) rfl
    cases hno.symm.trans hisFile
  | cons second rest =>
    -- the second would be listed in `a`, where only the document is
    obtain ⟨hsecond, -⟩ := List.forall_mem_cons.1 hrest
    have hway := Disk.isDirectory_under_of_prefix hbelow hrest (List.prefix_append [second] rest)
      hdirectory
    obtain ⟨l, hl, hlisted⟩ := Disk.lists_iff.1 (Disk.lists_of_isDirectory_join hbelow hsecond hway)
    cases (lookup_documentDisk_directory false).symm.trans hl
    obtain rfl : second = "x.mbt.md" := List.mem_singleton.1 hlisted
    obtain ⟨l, hl⟩ := Disk.isDirectory_iff.1 hway
    cases (lookup_documentDisk_document false).symm.trans hl

/-- The one document of the disk is what the default configuration keeps. -/
theorem discover_exact_documentDisk :
    discover (documentDisk false) [] ⟨"/"⟩ .default = .ok [⟨"/a/x.mbt.md"⟩] ∧
      documentSelection.Exact (documentDisk false) [] ⟨"/"⟩ [⟨"/a/x.mbt.md"⟩] := by
  obtain ⟨hexact, -⟩ := discover_exact (wellNamed_documentDisk false) hasOneProject_documentDisk
  have hdiscover := discover_documentDisk false
  obtain ⟨selection, hselection, hwith⟩ := discover_eq_ok hdiscover
  obtain rfl := Except.ok.inj ((ofConfig_documentDisk false).symm.trans hselection)
  exact ⟨hdiscover, hexact _ _ hwith⟩

/-! ### A name that is not UTF-8 -/

/-- A byte that begins no character, and the suffix of documents. -/
def strayBytes : List UInt8 := 0xFF :: Text.bytes ".mbt.md"

/-- The name that these bytes make. -/
def strayDocument : String := "\x00\u00FF.mbt.md"

theorem strayDocument_eq : strayDocument = .ofList (Text.ofRaw strayBytes) := by
  unfold strayBytes
  rw [Text.ofRaw_cons_bytes rfl]
  rfl

theorem zero_not_mem_strayBytes : 0 ∉ strayBytes := by decide

theorem bytes_ne_strayBytes (text : String) : Text.bytes text ≠ strayBytes :=
  Text.bytes_ne_of_utf8?_eq_none zero_not_mem_strayBytes (strayDocument_eq ▸ rfl) text

/-- A disk with a file of that name. -/
def strayDisk : Disk := Disk.empty.put [strayDocument] (.file .empty false)

theorem isDirectory_strayDocument :
    strayDisk.isDirectory [] ((Path.mk "/").join ⟨strayDocument⟩) = false := by
  have hlookup : strayDisk.lookup [] ((Path.mk "/").join ⟨strayDocument⟩) =
      .ok ([strayDocument], .file .empty false) :=
    Disk.lookup_of_locate (Disk.find_of_follows (by decide) (.file (by decide) rfl))
  unfold Disk.isDirectory
  rw [hlookup]
  rfl

/-- There is no directory below the root. -/
theorem hasOneProject_strayDisk : HasOneProject strayDisk [] ⟨"/"⟩ := by
  have hroot : (Path.mk "/").text ≠ "" := by decide
  intro names hne hfile hdirectory
  obtain ⟨first, rest, rfl⟩ := List.exists_cons_of_ne_nil hne
  have hway := Disk.isDirectory_under_of_prefix hroot hfile (List.prefix_append [first] rest)
    hdirectory
  obtain ⟨l, hl, hlisted⟩ := Disk.lists_iff.1
    (Disk.lists_of_isDirectory_join hroot (List.forall_mem_cons.1 hfile).1 hway)
  cases strayDisk.lookup_root.symm.trans hl
  obtain rfl : first = strayDocument := List.mem_singleton.1 hlisted
  cases isDirectory_strayDocument.symm.trans hway

/-- A file that nothing keeps out and whose name ends in the suffix of documents is not given: the
bytes of the name are those of no text. -/
theorem discover_overlooks_stray : strayDisk.WellNamed ∧ HasOneProject strayDisk [] ⟨"/"⟩ ∧
    Selection.ofConfig strayDisk [] ⟨"/"⟩ .default = .ok documentSelection ∧
    strayDisk.entryAt? [strayDocument] = some (.file .empty false) ∧
    literateSuffix.toList <:+ strayDocument.toList ∧
    Text.rawBytes strayDocument = strayBytes ∧ (∀ text, Text.bytes text ≠ strayBytes) ∧
    strayDocument.toList.head? ≠ some '.' ∧ strayDocument ≠ "node_modules" ∧
    strayDocument ≠ "target" ∧ discover strayDisk [] ⟨"/"⟩ .default = .ok [] := by
  have hselection : Selection.ofConfig strayDisk [] ⟨"/"⟩ .default = .ok documentSelection :=
    ofConfig_of_no_ignore rfl
  refine ⟨Disk.wellNamed_empty.put _ (by decide), hasOneProject_strayDisk, hselection, rfl,
    by decide, ?bytes, bytes_ne_strayBytes, by decide, by decide, by decide, ?_⟩
  case bytes => rw [strayDocument_eq, Text.rawBytes_ofRaw zero_not_mem_strayBytes]
  unfold discover
  rw [hselection]
  show discoverWith _ _ _ _ = _
  unfold discoverWith
  rw [show maxPathSize = 4095 + 1 from rfl, Walk.run, Disk.lookup_root]
  dsimp only
  rw [if_neg List.not_mem_nil, show strayDisk.children [] = [(strayDocument, .file .empty false)]
      from rfl, List.foldlM_cons, Walk.takeEntry_of_neither]
  · exact congrArg Except.ok List.mergeSort_nil
  · intro h
    cases h.isDirectory.symm.trans isDirectory_strayDocument
  · intro h
    exact absurd h.literate (by decide)

end LiterateCheck
