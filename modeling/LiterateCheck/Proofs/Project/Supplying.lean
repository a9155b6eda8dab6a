import LiterateCheck.Proofs.Project.Copying
import LiterateCheck.Proofs.Text.RawNames

/-!
# Supplementary sources and their groups

The sources of a directory are listed first, and then copied group by group: the baseline's source
into every group, and the source of a key into the group of that key.

1. The copies of a group are the sources with one of its two names, in the order of the names
   (`mem_copies_iff`, `increasing_copies`), and each holds the bytes of its source
   (`bytesAt_of_copy`). A source goes by the name that is shown of it, so one that is not UTF-8
   can belong to a group, too.
2. The descriptions of packages and of the module hold their own texts (`Sets`,
   `holds_of_package`, `holds_of_module`), and so do the generated files that nothing is copied to.
3. So of all files of the directory just these copies are in the project
   (`supplements_reach_groups`).
-/

namespace LiterateCheck

open Run (Gives)

/-! ## The copies of a group -/

section Copies

variable {disk : Disk} {place : Location} {directory into : Path} {files : List Path}
  {key : String}

/-- The names of the sources that go to a group: those that are shown as the baseline's, and as that
of its own key. The suffix alone names no source. -/
def IsSourceOf (key name : String) : Prop :=
  Text.shown name = "_.mbt" ∨ key ≠ "" ∧ Text.shown name = key ++ ".mbt"

/-- The copies that a group gets in a directory. -/
def copies (into : Path) (key : String) (files : List Path) : List Path :=
  (supplements key files).map fun file => into.join ⟨file.fileName?.getD ""⟩

/-- The sources of a group, by what stands in the directory. -/
theorem mem_supplements_iff (hdisk : disk.WellNamed) (hfiles : Supplies disk place directory files)
    {file : Path} :
    file ∈ supplements key files ↔ ∃ name, IsSourceOf key name ∧
      disk.HasFile (place ++ [name]) ∧ file = directory.join ⟨name⟩ := by
  rw [mem_supplements, hfiles.mem_iff]
  constructor
  · rintro ⟨⟨own, hown, hentry, rfl⟩, name, hname, hshown⟩
    rw [Path.fileName?_join directory (isFileName_of_hasFile hdisk hentry)] at hname
    obtain rfl := Option.some.inj hname
    refine ⟨_, hshown.symm.imp id fun hkey => ⟨?_, hkey⟩, hentry, rfl⟩
    rintro rfl
    -- a name that is shown as the suffix alone is the suffix
    rw [isPlainEnd_sourceSuffix.shown_append, String.append_left_inj] at hkey
    exact hown (Text.shown_eq_empty_iff.1 hkey)
  · rintro ⟨name, hsource, hentry, rfl⟩
    have hname := Path.fileName?_join directory (isFileName_of_hasFile hdisk hentry)
    obtain ⟨own, hown, rfl⟩ : ∃ own, own ≠ "" ∧ name = own ++ ".mbt" := by
      obtain ⟨stem, hstem, hshown⟩ :
          ∃ stem, stem ≠ "" ∧ Text.shown name = stem ++ ".mbt" :=
        hsource.elim (fun h => ⟨"_", by decide, h⟩) fun h => ⟨key, h.1, h.2⟩
      obtain ⟨own, rfl, rfl⟩ := isPlainEnd_sourceSuffix.shown_eq_append_iff.1 hshown
      exact ⟨own, fun hnone => hstem (Text.shown_eq_empty_iff.2 hnone), rfl⟩
    exact ⟨⟨own, hown, hentry, rfl⟩, _, hname, hsource.symm.imp_left And.right⟩

theorem mem_copies_iff (hdisk : disk.WellNamed) (hfiles : Supplies disk place directory files)
    {path : Path} :
    path ∈ copies into key files ↔ ∃ name, IsSourceOf key name ∧
      disk.HasFile (place ++ [name]) ∧ path = into.join ⟨name⟩ := by
  unfold copies
  rw [List.mem_map]
  constructor
  · rintro ⟨file, hfile, rfl⟩
    obtain ⟨name, hsource, hentry, rfl⟩ := (mem_supplements_iff hdisk hfiles).1 hfile
    rw [Path.fileName?_join directory (isFileName_of_hasFile hdisk hentry), Option.getD_some]
    exact ⟨name, hsource, hentry, rfl⟩
  · rintro ⟨name, hsource, hentry, rfl⟩
    refine ⟨_, (mem_supplements_iff hdisk hfiles).2 ⟨name, hsource, hentry, rfl⟩, ?_⟩
    rw [Path.fileName?_join directory (isFileName_of_hasFile hdisk hentry), Option.getD_some]

/-- The copies come in the order in which the directory's files were listed. -/
theorem increasing_copies (hdisk : disk.WellNamed)
    (hfiles : Supplies disk place directory files) :
    (copies into key files).Pairwise fun a b => a.compare b = .lt := by
  unfold copies
  rw [List.pairwise_map]
  have hincreasing : (supplements key files).Pairwise fun a b => a.compare b = .lt :=
    hfiles.increasing.filter _
  refine hincreasing.imp_of_mem fun {a b} ha hb hlt => ?_
  obtain ⟨name, -, hname, rfl⟩ := (mem_supplements_iff hdisk hfiles).1 ha
  obtain ⟨other, -, hother, rfl⟩ := (mem_supplements_iff hdisk hfiles).1 hb
  have hname := isFileName_of_hasFile hdisk hname
  have hother := isFileName_of_hasFile hdisk hother
  rw [Path.fileName?_join directory hname, Path.fileName?_join directory hother,
    Option.getD_some, Option.getD_some, Path.compare_join_join into hname hother,
    ← Path.compare_join_join directory hname hother]
  exact hlt

end Copies

section Project

variable {cwd base place : Location} {root directory : Path} {table : GroupTable}
  {options : ProjectOptions} {key name : String} {before after : World} {tree : ProjectTree}

theorem copied_of_writeProject
    (h : Gives (writeProject cwd table root options) before tree after) :
    (tree.groups.map fun summary => (summary.key, summary.copied)) =
      table.keys.map fun key => (key, copies (root.join ⟨key⟩) key options.complementary) := by
  obtain ⟨groups, written, hgroups, -, rfl⟩ := gives_writeProject.1 h
  refine Run.map_eq_of_gives_mapM (fun key _ before after summary h => ?_) hgroups
  obtain ⟨into, _, _, _, copied, hinto, -, -, -, hcopied, rfl⟩ := gives_writeGroup.1 h
  obtain rfl := (groupDirectory_eq_ok hinto).1
  have hcopies : copied.map id = copies (root.join ⟨key⟩) key options.complementary :=
    Run.map_eq_of_gives_mapM (fun file _ before after copy h =>
      (gives_copySupplement.1 h).2.2.symm) hcopied
  rw [List.map_id] at hcopies
  rw [hcopies]

/-! ## What the copies hold -/

theorem lookup_of_copied (hdisk : before.disk.WellNamed)
    (hplace : before.disk.lookup cwd directory = .ok (place, .directory))
    (hfiles : Supplies before.disk place directory options.complementary)
    (h : Gives (writeProject cwd table root options) before tree after) (hkey : key ∈ table.keys)
    (hsource : IsSourceOf key name) {content : ByteArray} {executable : Bool}
    (hentry : before.disk.entryAt? (place ++ [name]) = some (.file content executable)) :
    before.disk.lookup cwd (directory.join ⟨name⟩) =
      .ok (place ++ [name], .file content executable) := by
  have hfile : directory.join ⟨name⟩ ∈ supplements key options.complementary :=
    (mem_supplements_iff hdisk hfiles).2 ⟨name, hsource, ⟨content, executable, hentry⟩, rfl⟩
  -- some step of the run copied it
  obtain ⟨groups, written, hgroups, -⟩ := gives_writeProject.1 h
  obtain ⟨summary, first, last, hgroup⟩ := Run.gives_of_mem hgroups hkey
  obtain ⟨into, _, _, _, copied, -, -, -, -, hcopied, -⟩ := gives_writeGroup.1 hgroup
  obtain ⟨copy, start, stop, hcopy⟩ := Run.gives_of_mem hcopied hfile
  obtain ⟨_, _, _, _, hlookup, -⟩ :=
    Disk.writesFile_of_copyFile_of_lookup (gives_copySupplement.1 hcopy).1
  exact Disk.lookup_join_of_entryAt? hplace
    (isFileName_of_hasFile hdisk ⟨content, executable, hentry⟩) hentry hlookup

theorem bytesAt_of_copy (hroot : before.disk.LeadsToEmpty cwd root)
    (hdisk : before.disk.WellNamed) (hkeys : table.KeysApart)
    (hlist : listSupplements before.disk cwd directory = .ok options.complementary)
    (hplace : before.disk.lookup cwd directory = .ok (place, .directory))
    (hfiles : Supplies before.disk place directory options.complementary)
    (h : Gives (writeProject cwd table root options) before tree after) (hkey : key ∈ table.keys)
    (hsource : IsSourceOf key name) {content : ByteArray} {executable : Bool}
    (hentry : before.disk.entryAt? (place ++ [name]) = some (.file content executable)) :
    after.disk.bytesAt cwd ((root.join ⟨key⟩).join ⟨name⟩) = .ok content := by
  have hname := isFileName_of_hasFile hdisk ⟨content, executable, hentry⟩
  have hlookup := lookup_of_copied hdisk hplace hfiles h hkey hsource hentry
  refine bytesAt_of_copied hroot
    (fun file hfile => eq_join_of_mem_listSupplements hdisk hlist hfile) hkeys hkey
    ⟨directory.join ⟨name⟩, ?_, Path.fileName?_join directory hname⟩ h
    (Disk.bytesAt_eq_ok_iff.2 ⟨_, _, hlookup⟩)
  exact (mem_supplements_iff hdisk hfiles).2 ⟨name, hsource, ⟨content, executable, hentry⟩, rfl⟩

/-! ## What the descriptions hold -/

/-- Some steps give a place its content, and the others leave what stands there. -/
structure Sets (place : Location) (content : ByteArray) (sets : Prop) (before after : Disk) :
    Prop where
  grows : before.Grows after
  gets : sets → after.holds place = content
  keeps : ¬ sets → after.holds place = before.holds place

namespace Sets

variable {content : ByteArray} {p q : Prop} {a b c : Disk}

theorem trans (hab : Sets place content p a b) (hbc : Sets place content q b c) :
    Sets place content (p ∨ q) a c where
  grows := hab.grows.trans hbc.grows
  gets hpq := by
    by_cases hq : q
    · exact hbc.gets hq
    · rw [hbc.keeps hq, hab.gets (hpq.resolve_right hq)]
  keeps hpq := by
    rw [hbc.keeps fun hq => hpq (.inr hq), hab.keeps fun hp => hpq (.inl hp)]

theorem congr (h : Sets place content p a b) (hpq : p ↔ q) : Sets place content q a b :=
  propext hpq ▸ h

theorem of_appends {files : List (Path × Location)} (h : Appends cwd place a b "" files) :
    Sets place content False a b where
  grows := h.grows
  gets := False.elim
  keeps _ := h.holds_of_empty

/-- Of steps one after the other, one that sets is enough, when each does what it does wherever the
root hosts. -/
theorem of_mapM {α β : Type} {step : α → Run β} {sets : α → Prop} {items : List α}
    (hstep : ∀ item ∈ items, ∀ (before after : World) (b : β), before.disk.Hosts cwd root base →
      Gives (step item) before b after →
        Sets place content (sets item) before.disk after.disk)
    {before after : World} {bs : List β} (hosts : before.disk.Hosts cwd root base)
    (h : Gives (items.mapM step) before bs after) :
    Sets place content (∃ item ∈ items, sets item) before.disk after.disk := by
  refine Run.gives_mapM_rel (fun items before after => before.disk.Hosts cwd root base →
    Sets place content (∃ item ∈ items, sets item) before.disk after.disk) ?_ ?_ h hosts
  · intro world _
    exact ⟨.refl world.disk, by simp, fun _ => rfl⟩
  · intro item hitem others before middle after b hfirst hothers hosts
    have hsets := hstep item hitem before middle b hosts hfirst
    exact (hsets.trans (hothers (hosts.of_grows hsets.grows))).congr (by simp)

end Sets

/-- The text of a package description. -/
def packageText (options : ProjectOptions) : String :=
  Text.jsonObject [("warn-list", options.warnList)]

/-- The text of the module description. -/
def moduleText (options : ProjectOptions) : String :=
  Text.jsonObject
    [("name", options.moduleConfig.name), ("version", options.moduleConfig.version)]

/-- A group writes its package description, and copies nothing over it. -/
theorem sets_of_writeGroup {blocks : List CodeBlock} {summary : GroupSummary}
    (hosts : before.disk.Hosts cwd root base)
    (h : Gives (writeGroup cwd root options key blocks) before summary after) :
    Sets (filePlace base key packageFile.text) (packageText options).toUTF8 True before.disk
      after.disk := by
  obtain ⟨into, made, written, described, copied, hinto, hmade, hwritten, hdescribed, hcopied,
    -⟩ := gives_writeGroup.1 h
  have hfirst : Appends cwd (filePlace base key packageFile.text) before.disk written.disk _ _ :=
    appends_of_written hosts hinto hmade hwritten
  have hosts := hosts.of_grows hfirst.grows
  have hsecond := writesFile_of_described hosts hinto hdescribed
  have hlast : Appends cwd (filePlace base key packageFile.text) described.disk after.disk "" [] :=
    appends_of_copied (fun file hfile name hname heq =>
      ne_of_mem_supplements hfile hname (by decide) (filePlace_inj.1 heq).2.symm)
      (hosts.of_grows hsecond.grows) hinto hcopied
  refine ⟨(hfirst.grows.trans hsecond.grows).trans hlast.grows, fun _ => ?_,
    fun hkept => absurd trivial hkept⟩
  rw [hlast.holds_of_empty, hsecond.holds_self]
  rfl

/-- After a whole project, the package description of each group holds its text. -/
theorem holds_of_package (hkeys : table.KeysApart) (hosts : before.disk.Hosts cwd root base)
    (h : Gives (writeProject cwd table root options) before tree after) (hkey : key ∈ table.keys) :
    after.disk.holds (filePlace base key packageFile.text) = (packageText options).toUTF8 := by
  obtain ⟨groups, written, hgroups, hmanifest, -⟩ := gives_writeProject.1 h
  have hfirst : Sets (filePlace base key packageFile.text) (packageText options).toUTF8
      (∃ other ∈ table.keys, other = key) before.disk written.disk := by
    refine .of_mapM (fun other hother _ _ _ hosts hgroup => ?_) hosts hgroups
    by_cases heq : other = key
    · subst heq
      exact (sets_of_writeGroup hosts hgroup).congr (iff_of_true trivial rfl)
    · have hdirectories := keyNames_ne hkeys h hkey hother heq
      have hne (own : String) : filePlace base other own ≠ filePlace base key packageFile.text :=
        fun hsame => hdirectories (filePlace_inj.1 hsame).1
      have happends := appends_of_writeGroup ⟨hne _, fun _ _ => hne _⟩ hosts hgroup
      rw [groupText_of_ne hdirectories] at happends
      exact (Sets.of_appends happends).congr (iff_of_false id heq)
  have hlast : Appends cwd (filePlace base key packageFile.text) written.disk after.disk "" [] :=
    appends_of_manifest (append_ne_filePlace (by decide)) (hosts.of_grows hfirst.grows) hmanifest
  rw [hlast.holds_of_empty, hfirst.gets ⟨key, hkey, rfl⟩]

theorem holds_of_module (hosts : before.disk.Hosts cwd root base)
    (h : Gives (writeProject cwd table root options) before tree after) :
    after.disk.holds (base ++ [moduleFile.text]) = (moduleText options).toUTF8 := by
  obtain ⟨groups, written, hgroups, hmanifest, -⟩ := gives_writeProject.1 h
  have hfirst := Fills.of_mapM (fun key _ _ _ _ hosts h => fills_of_writeGroup hosts h) hosts
    hgroups
  exact (writesFile_of_manifest (hosts.of_grows hfirst.grows) hmanifest).holds_self

/-! ## All files of a project -/

/-- A file below the root holds the text of its own, unless a source was copied there. -/
theorem contents_of_writeProject (hosts : before.disk.Hosts cwd root base)
    (hbelow : ∀ names, names ≠ [] → before.disk.entryAt? (base ++ names) = none)
    (hkeys : table.KeysApart) (h : Gives (writeProject cwd table root options) before tree after)
    {names : Location} {content : ByteArray} {executable : Bool} (hnames : names ≠ [])
    (hentry : after.disk.entryAt? (base ++ names) = some (.file content executable)) :
    names = [moduleFile.text] ∧ content = (moduleText options).toUTF8 ∨
      ∃ key ∈ table.keys, ∃ name, names = keyNames key ++ [name] ∧
        (name = packageFile.text ∧ content = (packageText options).toUTF8 ∨
          name ∈ generatedNames (table.effective key) ∧
            content = (generatedText (table.effective key) name).toUTF8 ∨
          ∃ file ∈ supplements key options.complementary, file.fileName? = some name) := by
  have hheld := Disk.holds_of_entryAt?_eq_file hentry
  rcases (hasFile_iff_of_writeProject hosts hbelow h hnames).1 ⟨content, executable, hentry⟩ with
    rfl | ⟨key, hkey, name, rfl, hname⟩
  · exact .inl ⟨rfl, hheld.symm.trans (holds_of_module hosts h)⟩
  refine .inr ⟨key, hkey, name, rfl, ?_⟩
  by_cases hcopied : ∃ file ∈ supplements key options.complementary, file.fileName? = some name
  · exact .inr (.inr hcopied)
  rw [← List.append_assoc] at hentry hheld
  rcases hname with rfl | ⟨block, hblock, hgenerated⟩ | ⟨file, hfile, hname, hsource⟩
  · exact .inl ⟨rfl, hheld.symm.trans (holds_of_package hkeys hosts h hkey)⟩
  · have hname : name ∈ generatedNames (table.effective key) :=
      mem_generatedNames.2 ⟨block, hblock, hgenerated⟩
    obtain ⟨executable', hlookup⟩ := lookup_of_keysApart_of_uncopied hosts hbelow hkeys h
      (fun file hfile hown => hcopied ⟨file, hfile, hown⟩) hkey hname
    have hown := Disk.holds_of_entryAt?_eq_file (Disk.entryAt?_of_lookup_file hlookup)
    exact .inr (.inl ⟨hname, hheld.symm.trans hown⟩)
  · exact absurd ⟨file, mem_supplements.2 ⟨hfile, name, hname, hsource⟩, hname⟩ hcopied

/-- **Supplementary sources reach their groups.** The sources of a directory are listed and a
project is written with them below an empty root, where the keys spell different directories. Then
the copies of each group are the baseline's source and the one named by its key, as far as these are
regular files directly in the directory, in the order of their names, and each holds the bytes of
its source. All other files below the root hold texts of their own. A name has the extension of
sources exactly when its stem is not empty, so every source that is listed has a stem. -/
theorem supplements_reach_groups (hroot : before.disk.LeadsToEmpty cwd root)
    (hdisk : before.disk.WellNamed) (hkeys : table.KeysApart)
    (hlist : listSupplements before.disk cwd directory = .ok options.complementary)
    (h : Gives (writeProject cwd table root options) before tree after) :
    ∃ place base, before.disk.lookup cwd directory = .ok (place, .directory) ∧
      before.disk.lookup cwd root = .ok (base, .directory) ∧
      (tree.groups.map fun summary => summary.key) = table.keys ∧
      (∀ summary ∈ tree.groups,
        (∀ path, path ∈ summary.copied ↔ ∃ name, IsSourceOf summary.key name ∧
          before.disk.HasFile (place ++ [name]) ∧ path = (root.join ⟨summary.key⟩).join ⟨name⟩) ∧
        summary.copied.Pairwise (fun a b => a.compare b = .lt) ∧
        ∀ name content executable, IsSourceOf summary.key name →
          before.disk.entryAt? (place ++ [name]) = some (.file content executable) →
            after.disk.bytesAt cwd ((root.join ⟨summary.key⟩).join ⟨name⟩) = .ok content) ∧
      (∀ names content executable, names ≠ [] →
        after.disk.entryAt? (base ++ names) = some (.file content executable) →
          names = [moduleFile.text] ∧ content = (moduleText options).toUTF8 ∨
          ∃ summary ∈ tree.groups, ∃ name, names = keyNames summary.key ++ [name] ∧
            (name = packageFile.text ∧ content = (packageText options).toUTF8 ∨
              name ∈ generatedNames (table.effective summary.key) ∧
                content = (generatedText (table.effective summary.key) name).toUTF8 ∨
              (root.join ⟨summary.key⟩).join ⟨name⟩ ∈ summary.copied)) ∧
      (∀ path : Path, path.extension? = some sourceExtension ↔
        ∃ stem, stem ≠ "" ∧ supplementaryStem? path = some stem) ∧
      ∀ file ∈ options.complementary, ∃ stem, supplementaryStem? file = some stem := by
  obtain ⟨base, hosts, hbelow⟩ := hroot.hosts
  obtain ⟨place, hplace, hfiles⟩ := supplies_of_listSupplements hdisk hlist
  have hcopied := copied_of_writeProject h
  have hgroups : (tree.groups.map fun summary => summary.key) = table.keys := by
    have hfirsts := congrArg (List.map Prod.fst) hcopied
    simpa [Function.comp_def] using hfirsts
  have hsummary {summary : GroupSummary} (hmem : summary ∈ tree.groups) :
      summary.key ∈ table.keys ∧ summary.copied =
        copies (root.join ⟨summary.key⟩) summary.key options.complementary := by
    obtain ⟨key, hkey, hsame⟩ := List.mem_map.1 (hcopied ▸ List.mem_map_of_mem hmem)
    obtain ⟨rfl, hcopies⟩ := Prod.mk.inj hsame
    exact ⟨hkey, hcopies.symm⟩
  refine ⟨place, base, hplace, hosts.leads, hgroups, fun summary hmem => ?_, ?_,
    fun _ => extension?_eq_some_iff, fun file hfile => ?_⟩
  · obtain ⟨hkey, hcopies⟩ := hsummary hmem
    rw [hcopies]
    exact ⟨fun _ => mem_copies_iff hdisk hfiles, increasing_copies hdisk hfiles,
      fun name content executable hsource hentry =>
        bytesAt_of_copy hroot hdisk hkeys hlist hplace hfiles h hkey hsource hentry⟩
  · intro names content executable hnames hentry
    rcases contents_of_writeProject hosts hbelow hkeys h hnames hentry with
      hmodule | ⟨key, hkey, name, rfl, hown⟩
    · exact .inl hmodule
    obtain ⟨summary, hmem, rfl⟩ := List.mem_map.1 (hgroups ▸ hkey)
    refine .inr ⟨summary, hmem, name, rfl, ?_⟩
    rcases hown with hpackage | hgenerated | ⟨file, hfile, hname⟩
    · exact .inl hpackage
    · exact .inr (.inl hgenerated)
    · rw [(hsummary hmem).2]
      exact .inr (.inr (List.mem_map.2 ⟨file, hfile, by rw [hname, Option.getD_some]⟩))
  · obtain ⟨stem, -, hentry, rfl⟩ := hfiles.mem_iff.1 hfile
    exact ⟨_, supplementaryStem?_eq_some_iff.2
      ⟨_, Path.fileName?_join directory (isFileName_of_hasFile hdisk hentry),
        isPlainEnd_sourceSuffix.shown_append stem⟩⟩

end Project

/-! ### A group with three sources -/

/-- A name with a byte that begins no character. It is shown as U+FFFD with the suffix. -/
def strayName : String := "\x00\u00FF.mbt"

/-- An empty directory, and one with the baseline's source, that of the key U+FFFD, a third that is
shown like it, and a file that has no stem. -/
def sharedDisk : Disk :=
  (((((Disk.empty.put ["out"] .directory).put ["sup"] .directory).put ["sup", "_.mbt"]
    (.file "shared".toUTF8 false)).put ["sup", "\uFFFD.mbt"] (.file "own".toUTF8 false)).put
    ["sup", strayName] (.file "stray".toUTF8 false)).put ["sup", ".mbt"]
    (.file "hidden".toUTF8 false)

def sharedOptions : ProjectOptions :=
  ⟨defaultWarnList, .default, [⟨"/sup/_.mbt"⟩, ⟨"/sup/\uFFFD.mbt"⟩, ⟨"/sup/" ++ strayName⟩]⟩

/-- One block, for the group U+FFFD. -/
def sharedTable : GroupTable := GroupTable.empty.push ["\uFFFD"] clashBlock

theorem listSupplements_shared :
    listSupplements sharedDisk [] ⟨"/sup"⟩ = .ok sharedOptions.complementary := by
  have hsorted : Path.sort sharedOptions.complementary = sharedOptions.complementary :=
    Path.sort_eq_of_increasing (by decide)
  unfold listSupplements
  rw [Disk.list_of_lookup (lookup_sup rfl)]
  exact congrArg Except.ok hsorted

/-- The disk with the group's directory and the file of its block. -/
def blockDisk : Disk :=
  (sharedDisk.put ["out", "\uFFFD"] .directory).put ["out", "\uFFFD", "x.md.mbt"]
    (.file clashBlock.text.toUTF8 false)

def packageDisk : Disk := blockDisk.put ["out", "\uFFFD", packageFile.text] defaultPackage

def firstCopyDisk : Disk :=
  packageDisk.put ["out", "\uFFFD", "_.mbt"] (.file "shared".toUTF8 false)

def secondCopyDisk : Disk :=
  firstCopyDisk.put ["out", "\uFFFD", "\uFFFD.mbt"] (.file "own".toUTF8 false)

/-- The disk when the group's sources are copied. -/
def sourceDisk : Disk :=
  secondCopyDisk.put ["out", "\uFFFD", strayName] (.file "stray".toUTF8 false)

/-- The copies of the group. -/
def sharedCopies : List Path :=
  [⟨"/out/\uFFFD/_.mbt"⟩, ⟨"/out/\uFFFD/\uFFFD.mbt"⟩, ⟨"/out/\uFFFD/" ++ strayName⟩]

def sharedSummary : GroupSummary :=
  ⟨"\uFFFD", ⟨"/out/\uFFFD"⟩, 1, [⟨"/out/\uFFFD/x.md.mbt"⟩], sharedCopies⟩

theorem isName_mark : IsName "\uFFFD" := by decide

theorem gives_copySupplement_shared {disk : Disk} {file copy : Path} {name : String}
    {content : ByteArray}
    (hfile : file.isAbsolute = true ∧ Text.holdsNul file.text = false ∧ file.size < maxPathSize)
    (hcopy : copy.isAbsolute = true ∧ Text.holdsNul copy.text = false ∧ copy.size < maxPathSize)
    (hsteps : file.steps = ["sup", name] ∧ copy.steps = ["out", "\uFFFD", name])
    (hjoin : (Path.mk "/out/\uFFFD").join ⟨file.fileName?.getD ""⟩ = copy) (hname : IsName name)
    (hsup : disk.entryAt? ["sup"] = some .directory)
    (hentry : disk.entryAt? ["sup", name] = some (.file content false))
    (hout : disk.entryAt? ["out"] = some .directory)
    (hgroup : disk.entryAt? ["out", "\uFFFD"] = some .directory)
    (hnone : disk.entryAt? ["out", "\uFFFD", name] = none) :
    Gives (copySupplement [] ⟨"/out/\uFFFD"⟩ file) ⟨disk, []⟩ copy
      ⟨disk.put ["out", "\uFFFD", name] (.file content false), []⟩ := by
  rw [gives_copySupplement, hjoin]
  exact ⟨Disk.copyFile_of_vacant (lookup_source hsup hfile hsteps.1 hname hentry)
    (locate_in_group hcopy hsteps.2 isName_mark hname hout hgroup hnone), rfl, rfl⟩

theorem gives_writeGroup_shared :
    Gives (writeGroup [] ⟨"/out"⟩ sharedOptions "\uFFFD" (sharedTable.effective "\uFFFD"))
      ⟨sharedDisk, []⟩ sharedSummary ⟨sourceDisk, []⟩ := by
  have hmade : sharedDisk.find [] false ⟨"/out/\uFFFD"⟩ (Path.mk "/out/\uFFFD").names =
      .ok (.vacant ["out"] "\uFFFD") :=
    Disk.find_of_follows (by decide) (.into isName_output rfl (.vacant isName_mark rfl))
  refine gives_writeGroup.2 ⟨⟨"/out/\uFFFD"⟩,
    ⟨sharedDisk.put ["out", "\uFFFD"] .directory, []⟩, ⟨blockDisk, []⟩, ⟨packageDisk, []⟩,
    sharedCopies, rfl, ?made, ?blocks, ?package, ?copies, rfl⟩
  case made =>
    exact Run.gives_onDisk.2 ⟨Disk.gives_makeAll rfl (Disk.makeDirectory_of_vacant hmade), rfl⟩
  case blocks =>
    exact Run.gives_forM_cons.2 ⟨⟨_, []⟩, gives_changeFile.2 ⟨Disk.writeBytes_of_vacant
      (locate_in_group (by decide) (by decide) isName_mark isName_file rfl rfl rfl), rfl⟩,
      Run.gives_forM_nil.2 rfl⟩
  case package =>
    exact gives_changeFile.2 ⟨Disk.writeBytes_of_vacant
      (locate_in_group (by decide) (by decide) isName_mark isName_packageFile rfl rfl rfl), rfl⟩
  case copies =>
    have hshared : Gives (copySupplement [] ⟨"/out/\uFFFD"⟩ ⟨"/sup/_.mbt"⟩) ⟨packageDisk, []⟩
        ⟨"/out/\uFFFD/_.mbt"⟩ ⟨firstCopyDisk, []⟩ :=
      gives_copySupplement_shared (by decide) (by decide) (by decide) (by decide) (by decide) rfl
        rfl rfl rfl rfl
    have hown : Gives (copySupplement [] ⟨"/out/\uFFFD"⟩ ⟨"/sup/\uFFFD.mbt"⟩)
        ⟨firstCopyDisk, []⟩ ⟨"/out/\uFFFD/\uFFFD.mbt"⟩ ⟨secondCopyDisk, []⟩ :=
      gives_copySupplement_shared (by decide) (by decide) (by decide) (by decide) (by decide) rfl
        rfl rfl rfl rfl
    have hstray : Gives (copySupplement [] ⟨"/out/\uFFFD"⟩ ⟨"/sup/" ++ strayName⟩)
        ⟨secondCopyDisk, []⟩ ⟨"/out/\uFFFD/" ++ strayName⟩ ⟨sourceDisk, []⟩ :=
      gives_copySupplement_shared (by decide) (by decide) (by decide) (by decide) (by decide) rfl
        rfl rfl rfl rfl
    exact Run.gives_mapM_cons.2 ⟨_, _, _, hshared, Run.gives_mapM_cons.2 ⟨_, _, _, hown,
      Run.gives_mapM_cons.2 ⟨_, _, [], hstray, Run.gives_mapM_nil.2 ⟨rfl, rfl⟩, rfl⟩, rfl⟩, rfl⟩

theorem gives_writeProject_shared : ∃ tree after,
    Gives (writeProject [] sharedTable ⟨"/out"⟩ sharedOptions) ⟨sharedDisk, []⟩ tree after ∧
      tree.groups = [sharedSummary] ∧
      after.disk.bytesAt [] ⟨"/out/\uFFFD/" ++ strayName⟩ = .ok "stray".toUTF8 := by
  have hmodule : sourceDisk.locate [] ((Path.mk "/out").join moduleFile) =
      .ok (.vacant ["out"] moduleFile.text) :=
    Disk.find_of_follows (by decide) (.into isName_output rfl (.vacant isName_moduleFile rfl))
  refine ⟨_, ⟨_, []⟩, gives_writeProject_alone (by decide) rfl gives_writeGroup_shared
    (gives_changeFile.2 ⟨Disk.writeBytes_of_vacant hmodule, rfl⟩), rfl, ?_⟩
  refine Disk.bytesAt_eq_ok_iff.2 ⟨["out", "\uFFFD", strayName], false, Disk.lookup_of_locate
    (Disk.find_of_follows (by decide) ?_)⟩
  exact .into isName_output rfl (.into isName_mark rfl (.file (by decide) rfl))

theorem leadsToEmpty_sharedDisk : sharedDisk.LeadsToEmpty [] ⟨"/out"⟩ := by
  refine ⟨["out"], lookup_output rfl, fun names hnames => ?_⟩
  unfold sharedDisk
  rw [Disk.entryAt?_put_of_ne _ _ (by simp), Disk.entryAt?_put_of_ne _ _ (by simp),
    Disk.entryAt?_put_of_ne _ _ (by simp), Disk.entryAt?_put_of_ne _ _ (by simp),
    Disk.entryAt?_put_of_ne _ _ (by simp), Disk.entryAt?_put_of_ne _ _ (by simpa using hnames)]
  rfl

theorem wellNamed_sharedDisk : sharedDisk.WellNamed :=
  (((((Disk.wellNamed_empty.put _ (by decide)).put _ (by decide)).put _ (by decide)).put _
    (by decide)).put _ (by decide)).put _ (by decide)

theorem keysApart_sharedTable : sharedTable.KeysApart := by
  unfold GroupTable.KeysApart
  decide

theorem hasFile_sup_iff {name : String} : sharedDisk.HasFile (["sup"] ++ [name]) ↔
    name ∈ ["_.mbt", "\uFFFD.mbt", strayName, ".mbt"] := by
  constructor
  · rintro ⟨content, executable, hentry⟩
    have hmem := (Disk.mem_entries_iff (by simp)).2 hentry
    have hfiles : ∀ item ∈ sharedDisk.entries, item.2.isFile = true → item.1 ∈
        ["_.mbt", "\uFFFD.mbt", strayName, ".mbt"].map fun own => ["sup"] ++ [own] := by
      decide
    obtain ⟨own, hown, heq⟩ := List.mem_map.1 (hfiles _ hmem rfl)
    obtain rfl := (List.cons.inj (List.append_cancel_left heq)).1
    exact hown
  · intro hname
    simp only [List.mem_cons, List.not_mem_nil, or_false] at hname
    rcases hname with rfl | rfl | rfl | rfl <;> exact ⟨_, _, rfl⟩

/-- The group gets the baseline's source, its own, and the one that is shown like its own. The file
that has no stem goes nowhere. -/
theorem supplements_reach_groups_shared : ∃ tree after,
    Gives (writeProject [] sharedTable ⟨"/out"⟩ sharedOptions) ⟨sharedDisk, []⟩ tree after ∧
    (∀ summary ∈ tree.groups, summary.key = "\uFFFD" ∧
      ∀ path, path ∈ summary.copied ↔ path ∈ sharedCopies) ∧
    after.disk.bytesAt [] ⟨"/out/\uFFFD/\uFFFD.mbt"⟩ = .ok "own".toUTF8 ∧
    ¬ after.disk.HasFile ["out", "\uFFFD", ".mbt"] := by
  obtain ⟨tree, after, h, -⟩ := gives_writeProject_shared
  obtain ⟨place, base, hplace, hbase, hkeys, hgroups, hfiles, -⟩ :=
    supplements_reach_groups leadsToEmpty_sharedDisk wellNamed_sharedDisk keysApart_sharedTable
      listSupplements_shared h
  obtain rfl : ["sup"] = place := Disk.place_eq_of_lookup (lookup_sup rfl) hplace
  obtain rfl : ["out"] = base := Disk.place_eq_of_lookup (lookup_output rfl) hbase
  have hkey {summary : GroupSummary} (hmem : summary ∈ tree.groups) : summary.key = "\uFFFD" := by
    have hmem : summary.key ∈ sharedTable.keys := hkeys ▸ List.mem_map_of_mem hmem
    simpa [show sharedTable.keys = ["\uFFFD"] by decide] using hmem
  have hcopied {summary : GroupSummary} (hmem : summary ∈ tree.groups) (path : Path) :
      path ∈ summary.copied ↔ path ∈ sharedCopies := by
    have hsources : sharedCopies = ["_.mbt", "\uFFFD.mbt", strayName].map fun name =>
        ((Path.mk "/out").join ⟨"\uFFFD"⟩).join ⟨name⟩ := by decide
    rw [(hgroups summary hmem).1 path, hkey hmem, hsources, List.mem_map]
    constructor
    · rintro ⟨name, hsource, hfile, rfl⟩
      refine ⟨name, ?_, rfl⟩
      have hname := hasFile_sup_iff.1 hfile
      rw [show ["_.mbt", "\uFFFD.mbt", strayName, ".mbt"] =
        ["_.mbt", "\uFFFD.mbt", strayName] ++ [".mbt"] from rfl, List.mem_append,
        List.mem_singleton] at hname
      refine hname.resolve_right ?_
      rintro rfl
      exact absurd hsource (by unfold IsSourceOf; decide)
    · rintro ⟨name, hname, rfl⟩
      refine ⟨name, ?_, hasFile_sup_iff.2 (List.mem_append_left [".mbt"] hname), rfl⟩
      have hsource : ∀ name ∈ ["_.mbt", "\uFFFD.mbt", strayName],
          Text.shown name = "_.mbt" ∨ "\uFFFD" ≠ "" ∧ Text.shown name = "\uFFFD" ++ ".mbt" := by
        decide
      exact hsource name hname
  obtain ⟨summary, hmem⟩ : ∃ summary, summary ∈ tree.groups := by
    have hmem : "\uFFFD" ∈ tree.groups.map fun summary => summary.key := hkeys ▸ by decide
    obtain ⟨summary, hmem, -⟩ := List.mem_map.1 hmem
    exact ⟨summary, hmem⟩
  refine ⟨tree, after, h, fun summary hmem => ⟨hkey hmem, hcopied hmem⟩, ?_, ?_⟩
  · have hbytes := (hgroups summary hmem).2.2 "\uFFFD.mbt" "own".toUTF8 false
      (.inr (by rw [hkey hmem]; decide)) rfl
    rw [hkey hmem] at hbytes
    exact hbytes
  · rintro ⟨content, executable, hentry⟩
    rcases hfiles ["\uFFFD", ".mbt"] content executable (by decide) hentry with
      ⟨hmodule, -⟩ | ⟨summary, hmem, name, hnames, hown⟩
    · exact absurd hmodule (by decide)
    rw [hkey hmem] at hnames hown
    obtain rfl : ".mbt" = name := (List.cons.inj (List.cons.inj hnames).2).1
    rcases hown with ⟨hpackage, -⟩ | ⟨hgenerated, -⟩ | hcopy
    · exact absurd hpackage (by decide)
    · exact absurd hgenerated (by decide)
    · exact absurd ((hcopied hmem _).1 hcopy) (by decide)

theorem strayName_eq : strayName = .ofList (Text.ofRaw (0xFF :: Text.bytes ".mbt")) := by
  rw [Text.ofRaw_cons_bytes rfl]
  rfl

/-- A source is copied into the group U+FFFD though the bytes of its name are neither those of the
baseline's nor those of the key's: they are only read so. -/
theorem stray_source_copied : ∃ tree after,
    Gives (writeProject [] sharedTable ⟨"/out"⟩ sharedOptions) ⟨sharedDisk, []⟩ tree after ∧
    sharedDisk.LeadsToEmpty [] ⟨"/out"⟩ ∧ sharedTable.KeysApart ∧
    listSupplements sharedDisk [] ⟨"/sup"⟩ = .ok sharedOptions.complementary ∧
    Text.rawBytes strayName = 0xFF :: Text.bytes ".mbt" ∧
    Text.shown strayName = .ofList (Text.decodeLossy (0xFF :: Text.bytes ".mbt")) ∧
    (∀ text, Text.bytes text ≠ 0xFF :: Text.bytes ".mbt") ∧
    strayName ≠ "_.mbt" ∧ strayName ≠ "\uFFFD" ++ ".mbt" ∧
    (∃ summary ∈ tree.groups, summary.key = "\uFFFD" ∧
      ⟨"/out/\uFFFD/" ++ strayName⟩ ∈ summary.copied) ∧
    after.disk.bytesAt [] ⟨"/out/\uFFFD/" ++ strayName⟩ = .ok "stray".toUTF8 := by
  obtain ⟨tree, after, h, hgroups, hstray⟩ := gives_writeProject_shared
  have hnul : 0 ∉ 0xFF :: Text.bytes ".mbt" := by decide
  refine ⟨tree, after, h, leadsToEmpty_sharedDisk, keysApart_sharedTable, listSupplements_shared,
    ?bytes, ?shown, Text.bytes_ne_of_utf8?_eq_none hnul (strayName_eq ▸ rfl), by decide, by decide,
    ⟨sharedSummary, hgroups ▸ List.mem_singleton_self _, rfl, by decide⟩, hstray⟩
  case bytes => rw [strayName_eq, Text.rawBytes_ofRaw hnul]
  case shown => rw [strayName_eq, Text.shown_ofRaw hnul]

end LiterateCheck
