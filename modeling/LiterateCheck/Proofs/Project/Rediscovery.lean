import LiterateCheck.Proofs.Discovery.Steering
import LiterateCheck.Proofs.Project.Repeating

/-!
# Discovery after a project was generated

A project that is generated below the root of its documents leaves discovery as it was, wherever
below the root it goes and whatever discovery is configured to pass over.

1. Writing a project leaves the files alone that have other names than its own
   (`keptBelow_leavesOthers`). None of its names is that of a document, a configuration or an ignore
   file.
2. Clearing takes files away only below the output root. When no file stands there that steers
   discovery, the same files steer it before and afterwards.
3. So discovery has the same outcome (`discover_after_generate`), as long as each directory below
   the documents' root is found by its path both times. A path that runs through what the generation
   takes away leads nowhere afterwards (`discover_after_generate_detour`).
-/

namespace LiterateCheck

open Run (Gives)

/-! ## Names of a project's files -/

theorem isConfigName_iff {name : String} :
    IsConfigName name ↔ name = "mbt-check.toml" ∨ name = ".mbt-check.toml" := by
  constructor
  · rintro ⟨candidate, hcandidate, hname⟩
    simp only [Config.candidates, List.mem_cons, List.not_mem_nil, or_false] at hcandidate
    rcases hcandidate with rfl | rfl | rfl
    · exact .inl (Option.some.inj hname).symm
    · exact .inr (Option.some.inj hname).symm
    · exact .inl (Option.some.inj hname).symm
  · rintro (rfl | rfl)
    · exact ⟨⟨"mbt-check.toml"⟩, by decide, by decide⟩
    · exact ⟨⟨".mbt-check.toml"⟩, by decide, by decide⟩

theorem not_isWritten_of_steers {name : String} (h : Steers name) : ¬ IsWritten name := by
  rcases h with hliterate | hconfig
  · -- of two endings of a name the shorter ends the longer
    rintro (hwritten | hwritten)
    · exact absurd (List.suffix_of_suffix_length_le hwritten hliterate (by decide)) (by decide)
    · exact absurd (List.suffix_of_suffix_length_le hwritten hliterate (by decide)) (by decide)
  · unfold IsWritten
    rcases isConfigName_iff.1 hconfig with rfl | rfl <;> decide

/-! ## What writing leaves alone -/

/-- A plain disk stays plain, and its files stay as they are, but for those that are named as the
files of a project are. -/
def LeavesOthers (before after : Disk) : Prop :=
  before.Plain → after.Plain ∧
    ∀ directory name, ¬ IsWritten name → before.SameFile after (directory ++ [name])

namespace LeavesOthers

theorem refl (disk : Disk) : LeavesOthers disk disk :=
  fun h => ⟨h, fun _ _ _ => .of_eq rfl⟩

theorem trans {a b c : Disk} (hab : LeavesOthers a b) (hbc : LeavesOthers b c) :
    LeavesOthers a c := by
  intro ha
  obtain ⟨hb, hfirst⟩ := hab ha
  obtain ⟨hc, hsecond⟩ := hbc hb
  exact ⟨hc, fun directory name hname =>
    (hfirst directory name hname).trans (hsecond directory name hname)⟩

theorem of_makeDirectory {cwd : Location} {path : Path} {before after : Disk}
    (h : Disk.makeDirectory cwd path before = .ok after) : LeavesOthers before after :=
  fun hplain => ⟨hplain.makeDirectory h, fun _ _ _ => Disk.sameFile_of_makeDirectory h _⟩

theorem of_writesFile {cwd : Location} {directory : Path} {name : String} {found : Found}
    {content : ByteArray} {before after : Disk} (hname : Path.IsFileName name)
    (hwritten : IsWritten name) (hlocate : before.locate cwd (directory.join ⟨name⟩) = .ok found)
    (hfound : found.takesFile = true) (h : before.WritesFile after found.location content) :
    LeavesOthers before after := by
  refine fun hplain => ⟨hplain.of_writesFile hlocate hfound h, fun front other hother => ?_⟩
  have hplace := Disk.place_of_locate hplain.noLinks hlocate
  rw [Path.place_join_name cwd directory hname] at hplace
  refine .of_eq (h.elsewhere fun heq => hother ?_)
  rw [hplace] at heq
  obtain rfl : other = name := by simpa using (List.append_inj' heq rfl).2
  exact hwritten

end LeavesOthers

theorem keptBelow_leavesOthers (cwd : Location) (root : Path) :
    KeptBelow cwd root LeavesOthers where
  refl := .refl
  trans _ _ _ := .trans
  directory _ _ _ := Disk.makeDirectories_rel LeavesOthers (fun _ _ => True) .refl .trans
    (fun _ => .of_makeDirectory) (fun _ _ _ => trivial) (fun _ _ => trivial) _ trivial
  file _ _ hname hwritten hlocate hfound h := .of_writesFile hname hwritten hlocate hfound h

/-! ## The whole run -/

section Generate

variable {cwd : Location} {documents : List Path} {root outputRoot : Path}
  {options : ProjectOptions} {before after : World} {table : GroupTable} {tree : ProjectTree}

/-- Below a location there is no document and no configuration. -/
def NoneSteers (disk : Disk) (place : Location) : Prop :=
  ∀ directory name, Steers name → Disk.isBelow place (directory ++ [name]) = true →
    ¬ disk.HasFile (directory ++ [name])

/-- A generated project leaves the files that steer discovery as they are. -/
theorem sameFile_of_generateProject (hplain : before.disk.Plain)
    (hbelow : Disk.isBelow (root.place cwd) (outputRoot.place cwd) = true)
    (hnone : NoneSteers before.disk (outputRoot.place cwd))
    (h : Gives (generateProject cwd documents outputRoot options) before (table, tree) after) :
    after.disk.Plain ∧
      ∀ l, IsSteering (root.place cwd) l → before.disk.SameFile after.disk l := by
  obtain ⟨read, prepared, written, hread, hprepare, hwrite, rfl⟩ := gives_generateProject.1 h
  obtain ⟨cleared, hclear, hmake, -⟩ := gives_prepareRoot.1 hprepare
  dsimp only at hclear ⊢
  rw [← (reads_extract documents).gives hread] at hclear
  have hmade : LeavesOthers cleared prepared.disk :=
    Disk.makeAll_rel .refl .trans .of_makeDirectory hmake
  have hleaves : LeavesOthers cleared written.disk :=
    hmade.trans (((keptBelow_leavesOthers cwd outputRoot).ends_writeProject table options).gives
      hwrite)
  obtain ⟨hafter, hfiles⟩ := hleaves (hplain.clear hclear)
  refine ⟨hafter, fun l hsteers => ?_⟩
  rcases hsteers with ⟨directory, name, rfl, hname⟩ | rfl
  · refine (hplain.sameFile_of_clear hclear fun content executable hentry => ?_).trans
      (hfiles directory name (not_isWritten_of_steers hname))
    rw [← Bool.not_eq_true]
    exact fun hinside => hnone directory name hname hinside ⟨content, executable, hentry⟩
  · -- the ignore file stands beside the output root or above it
    have hname : ¬ IsWritten ".gitignore" := by
      unfold IsWritten
      decide
    refine (hplain.sameFile_of_clear hclear fun _ _ _ => ?_).trans (hfiles _ _ hname)
    unfold Disk.isBelow at hbelow ⊢
    rw [Bool.and_eq_true, decide_eq_true_iff] at hbelow
    rw [Bool.and_eq_false_iff, decide_eq_false_iff_not, List.length_append, List.length_singleton]
    exact .inr (by omega)

/-- **Generation does not feed back into discovery.** On a disk without links a project is generated
to a root that lies properly below the root of the documents, whatever documents, groups and
supplementary sources it is made of. When no document and no configuration lay below the output
root, discovery has the same outcome afterwards as before, with any configuration, also one that
names another output directory. Before and afterwards every directory below the root of the
documents has to be found by its path. -/
theorem discover_after_generate (hplain : before.disk.Plain)
    (hbelow : Disk.isBelow (root.place cwd) (outputRoot.place cwd) = true)
    (hnone : NoneSteers before.disk (outputRoot.place cwd))
    (h : Gives (generateProject cwd documents outputRoot options) before (table, tree) after)
    (hsees : before.disk.Sees cwd root) (hsees' : after.disk.Sees cwd root) (config : Config) :
    discover after.disk cwd root config = discover before.disk cwd root config := by
  obtain ⟨hafter, hfiles⟩ := sameFile_of_generateProject hplain hbelow hnone h
  have halike : SteersAlike before.disk after.disk cwd root :=
    ⟨hplain, hafter, hsees, hsees', hfiles⟩
  exact (discover_eq_of_steersAlike halike config).symm

end Generate

/-! ### A document beside the output root -/

/-- What the default configuration selects where there is no ignore file. -/
def defaultSelection (root : Path) : Selection :=
  { ignored := IgnoreRules.ignores ⟨root, []⟩, excluded := IgnoreRules.ignores ⟨root, []⟩
    included := fun _ => true, outputRoot := root.join Config.default.outputDir }

/-- A name that the default configuration takes for that of a document. -/
structure IsDocumentName (name : String) : Prop where
  isFileName : Path.IsFileName name
  literate : Text.isUtf8 name = true ∧ literateSuffix.toList <:+ name.toList
  looked : isPassedOver name = false

section Document

variable {disk : Disk} {root : Path} {name : String} {content : ByteArray} {executable : Bool}

theorem ofConfig_default (hplain : disk.Plain)
    (hignore : disk.entryAt? (root.place [] ++ [".gitignore"]) = none) :
    Selection.ofConfig disk [] root .default = .ok (defaultSelection root) := by
  have hname : Path.IsFileName ".gitignore" := by decide
  have hrules : ignoreRules disk [] root = ⟨root, []⟩ := by
    unfold ignoreRules
    cases hbytes : disk.bytesAt [] (root.join ⟨".gitignore"⟩) with
    | error reason => rfl
    | ok bytes =>
      obtain ⟨l, held, hlookup⟩ := Disk.bytesAt_eq_ok_iff.1 hbytes
      obtain ⟨rfl, hentry⟩ := hplain.lookup hlookup
      rw [Path.place_join_name [] root hname, hignore] at hentry
      cases hentry
  unfold Selection.ofConfig
  rw [hrules]
  rfl

theorem mem_discover_document (hplain : disk.Plain)
    (hroot : disk.lookup [] root = .ok ([], .directory)) (hname : IsDocumentName name)
    (hdocument : disk.entryAt? [name] = some (.file content executable))
    (hignore : disk.entryAt? [".gitignore"] = none) :
    ∃ files, discover disk [] root .default = .ok files ∧ root.under [name] ∈ files := by
  have hplace : root.place [] = [] := (hplain.lookup hroot).1.symm
  have hselection : Selection.ofConfig disk [] root .default = .ok (defaultSelection root) :=
    ofConfig_default hplain (by rw [hplace]; exact hignore)
  obtain ⟨files, hfiles⟩ := exists_discoverWith_of_plain hplain [] root (defaultSelection root)
  have hfile := List.forall_mem_singleton.2 hname.isFileName
  have hkeeps : (defaultSelection root).Keeps disk [] root [] name := by
    refine { rootDirectory := Disk.isDirectory_iff.2 ⟨_, hroot⟩
             fileNames := hfile, listed := ?listed, notDirectory := ?notDirectory
             literate := hname.literate
             looked := List.forall_mem_singleton.2 (isPassedOver_eq_false_iff.1 hname.looked)
             passes := fun _ _ _ => ⟨rfl, rfl⟩
             outsideOutput := fun part hne hpart => absurd (List.prefix_nil.1 hpart) hne
             included := rfl }
    case listed =>
      have hchild : (name, Entry.file content executable) ∈ disk.children [] :=
        Disk.mem_children_iff.2 hdocument
      exact Disk.lists_iff.2 ⟨[], hroot, List.mem_map_of_mem hchild⟩
    case notDirectory =>
      rw [← Bool.not_eq_true]
      intro hdirectory
      obtain ⟨l, hlookup⟩ := Disk.isDirectory_iff.1 hdirectory
      obtain ⟨rfl, hentry⟩ := hplain.lookup hlookup
      rw [List.nil_append, Path.place_under [] root hfile, hplace, List.nil_append, hdocument]
        at hentry
      cases hentry
  refine ⟨files, ?_, (mem_discoverWith_iff hplain.wellNamed hfiles _).2 ⟨[], name, rfl, hkeeps,
    fun part hne hpart => absurd (List.prefix_nil.1 hpart) hne⟩⟩
  unfold discover
  rw [hselection]
  exact hfiles

theorem discover_of_not_directory (hroot : disk.isDirectory [] root = false) :
    discover disk [] root .default = .ok [] := by
  obtain ⟨selection, hselection⟩ :
      ∃ selection, Selection.ofConfig disk [] root .default = .ok selection := ⟨_, rfl⟩
  unfold discover
  rw [hselection]
  show discoverWith disk [] root selection = .ok []
  have habsent (l : Location) : disk.lookup [] root ≠ .ok (l, .directory) := fun hlookup =>
    absurd (Disk.isDirectory_iff.2 ⟨l, hlookup⟩) (by rw [hroot]; exact Bool.false_ne_true)
  unfold discoverWith
  rw [Walk.run_of_absent habsent]
  exact congrArg Except.ok List.mergeSort_nil

end Document

theorem place_out : (Path.mk "/out").place [] = ["out"] := by decide

/-- From the root of a disk all is seen, when the system takes the names of its directories and the
paths that they make. -/
theorem sees_of_directories {disk : Disk} (hplain : disk.Plain) {directories : List Location}
    (hfits : ∀ names ∈ directories, (∀ name ∈ names, IsName name) ∧
      Text.holdsNul ((Path.mk "/").under names).text = false ∧
        ((Path.mk "/").under names).size < maxPathSize)
    (h : ∀ names ≠ [], disk.entryAt? names = some .directory → names ∈ directories) :
    disk.Sees [] ⟨"/"⟩ := by
  refine Disk.sees_of_isDirectory hplain (Disk.isDirectory_iff.2 ⟨_, disk.lookup_root⟩)
    fun names hentry => ?_
  have hplace : (Path.mk "/").place [] = [] := by decide
  rw [hplace, List.nil_append] at hentry
  by_cases hnil : names = []
  · subst hnil
    decide
  · exact hfits names (h names hnil hentry)

theorem noneSteers_of_entries {disk : Disk} {place : Location}
    (h : ∀ item ∈ disk.entries, item.2.isFile = true → Disk.isBelow place item.1 = true →
      ∃ name, item.1.getLast? = some name ∧ ¬ Steers name) : NoneSteers disk place := by
  rintro directory name hsteers hinside ⟨content, executable, hentry⟩
  obtain ⟨other, hlast, hother⟩ := h _ ((Disk.mem_entries_iff (by simp)).2 hentry) rfl hinside
  rw [List.getLast?_concat, Option.some.injEq] at hlast
  exact hother (hlast ▸ hsteers)

theorem noneSteers_litteredDisk : NoneSteers litteredDisk ["out"] := by
  have hstale : ¬ Steers "stale" := by
    unfold Steers
    rw [isConfigName_iff]
    decide
  have hentries : ∀ item ∈ litteredDisk.entries, item.2.isFile = true →
      Disk.isBelow ["out"] item.1 = true → item.1.getLast? = some "stale" := by decide
  exact noneSteers_of_entries fun item hitem hfile hinside =>
    ⟨"stale", hentries item hitem hfile hinside, hstale⟩

/-- The directories of the project and of its sources. -/
def projectDirectories : List Location := [["sup"], ["out"], ["out", "x.md"]]

theorem sees_of_agrees_projectDisk {disk : Disk} (hplain : disk.Plain)
    (hagrees : projectDisk.Agrees disk) : disk.Sees [] ⟨"/"⟩ := by
  have hdirectories : ∀ item ∈ projectDisk.entries, item.2.isDirectory = true →
      item.1 ∈ projectDirectories := by decide
  refine sees_of_directories hplain (show ∀ names ∈ projectDirectories, _ by decide)
    fun names hnames hentry => ?_
  exact hdirectories _ ((Disk.mem_entries_iff hnames).2 ((hagrees names).trans hentry)) rfl

/-- The documents are found as before when the project was generated over the stale file. -/
theorem discover_after_generate_stale : ∃ tree after files,
    Gives (generateProject [] clashDocuments ⟨"/out"⟩ supplyOptions) ⟨litteredDisk, []⟩
      (clashTable, tree) after ∧
    after.disk.textAt [] ⟨"/out/x.md/x.md.mbt"⟩ = .ok "copied" ∧
    discover litteredDisk [] ⟨"/"⟩ .default = .ok files ∧ ⟨"/x.mbt.md"⟩ ∈ files ∧
    discover after.disk [] ⟨"/"⟩ .default = .ok files := by
  obtain ⟨cleared, made, hclear, hmake, hmade⟩ :=
    (@designates_out litteredDisk rfl).clear_makeAll_of_directory rfl
  obtain ⟨tree, after, h, hafter⟩ := @gives_generateProject_clash litteredDisk ⟨rfl, rfl⟩ [] _ _
    hclear hmake fun l => (hmade l).symm
  obtain ⟨files, hfiles, hmem⟩ := @mem_discover_document litteredDisk ⟨"/"⟩ "x.mbt.md" _ _
    plain_litteredDisk litteredDisk.lookup_root ⟨by decide, by decide, by decide⟩ rfl rfl
  have hdirectories : ∀ item ∈ litteredDisk.entries, item.2.isDirectory = true →
      item.1 ∈ projectDirectories := by decide
  have hsees : litteredDisk.Sees [] ⟨"/"⟩ :=
    sees_of_directories plain_litteredDisk (show ∀ names ∈ projectDirectories, _ by decide)
      fun names hnames hentry => hdirectories _ ((Disk.mem_entries_iff hnames).2 hentry) rfl
  have hbelow : Disk.isBelow ((Path.mk "/").place []) ((Path.mk "/out").place []) = true := by
    decide
  have hnone := place_out ▸ noneSteers_litteredDisk
  obtain ⟨hplain, -⟩ := sameFile_of_generateProject plain_litteredDisk hbelow hnone h
  have hsame := discover_after_generate plain_litteredDisk hbelow hnone h hsees
    (sees_of_agrees_projectDisk hplain hafter) .default
  exact ⟨tree, after, files, h,
    Disk.textAt_of_lookup ((hafter.lookup_eq _ _).symm.trans lookup_projectDisk_copy), hfiles, hmem,
    hsame.trans hfiles⟩

/-! ### A root whose path runs through the output root -/

/-- A document beside an output root with a directory in it. -/
def detourDisk : Disk := clearedDisk.put ["out", "sub"] .directory

/-- The directory of the document, by a path that runs through the output root. -/
def detourRoot : Path := ⟨"/out/sub/../.."⟩

theorem plain_clearedDisk : clearedDisk.Plain := by
  have hplain := @Disk.Plain.put .empty Disk.plain_empty [] "a.mbt.md" rfl (by decide) rfl
    (.file "".toUTF8 false) (by simp)
  exact @Disk.Plain.put plainDisk hplain [] "out" rfl (by decide) rfl _ (by simp)

theorem plain_detourDisk : detourDisk.Plain :=
  @Disk.Plain.put clearedDisk plain_clearedDisk ["out"] "sub" rfl
    ⟨by decide, by decide, by decide, by decide⟩ rfl _ (by simp)

theorem noneSteers_detourDisk : NoneSteers detourDisk ["out"] := by
  have hentries : ∀ item ∈ detourDisk.entries, item.2.isFile = true →
      Disk.isBelow ["out"] item.1 = false := by decide
  refine noneSteers_of_entries fun item hitem hfile hinside => ?_
  cases (hentries item hitem hfile).symm.trans hinside

/-- The disk after the project was generated. -/
def rewrittenDisk : Disk := clearedDisk.put ["out", moduleFile.text] (manifest .default)

theorem lookup_detourRoot : detourDisk.lookup [] detourRoot = .ok ([], .directory) :=
  Disk.lookup_of_locate (Disk.find_of_follows (by decide)
    (.into isName_output rfl (.into (by decide) rfl (.up (.up .stop)))))

/-- The output root lies properly below the root, and neither a document nor a configuration below
the output root. Yet the root's path runs through a directory that is cleared away, so the document
that was found before is not found after the project was generated. -/
theorem discover_after_generate_detour : detourDisk.Plain ∧
    Disk.isBelow (detourRoot.place []) ((Path.mk "/out").place []) = true ∧
    NoneSteers detourDisk ((Path.mk "/out").place []) ∧ ∃ tree after files,
      Gives (generateProject [] [⟨"/a.mbt.md"⟩] ⟨"/out"⟩ .default) ⟨detourDisk, []⟩ (.empty, tree)
        after ∧
      discover detourDisk [] detourRoot .default = .ok files ∧
      detourRoot.under ["a.mbt.md"] ∈ files ∧
      discover after.disk [] detourRoot .default = .ok [] := by
  obtain ⟨cleared, made, hclear, hmake, hmade⟩ :=
    (@designates_out detourDisk rfl).clear_makeAll_of_directory rfl
  obtain ⟨tree, notices, h⟩ := @gives_generateProject_document ⟨"/out"⟩ ⟨detourDisk, []⟩ _ _ rfl
    hclear hmake (locate_manifest ((hmade _).trans rfl) ((hmade _).trans rfl))
  have hagrees : (made.put ["out", moduleFile.text] (manifest .default)).Agrees rewrittenDisk :=
    hmade.put _ _
  obtain ⟨files, hfiles, hmem⟩ := @mem_discover_document detourDisk detourRoot "a.mbt.md" _ _
    plain_detourDisk lookup_detourRoot ⟨by decide, by decide, by decide⟩ rfl rfl
  refine ⟨plain_detourDisk, by decide, place_out ▸ noneSteers_detourDisk, tree, _, files, h, hfiles,
    hmem, discover_of_not_directory ?_⟩
  rw [← Bool.not_eq_true, hagrees.isDirectory_eq]
  intro hdirectory
  obtain ⟨l, hlookup⟩ := Disk.isDirectory_iff.1 hdirectory
  have hout : rewrittenDisk.Follows true maxLinks [] ["out"] (.entry ["out"] .directory) :=
    .into isName_output rfl .stop
  exact Disk.lookup_ne_ok_of_missing (by decide) hout
    (show detourRoot.steps = ["out"] ++ "sub" :: ["..", ".."] by decide) (by decide) rfl _ hlookup

end LiterateCheck
