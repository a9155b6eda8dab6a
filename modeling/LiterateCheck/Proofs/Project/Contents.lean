import LiterateCheck.Proofs.Project.Filling
import LiterateCheck.Proofs.Project.Resolving

/-!
# What stands below the root of a project

A project written below an empty root has its module description there and, in the directory of each
key, the files of the key's group (`files_below_root`). Keys are told apart by their components
only: two of them have one directory exactly when these agree, and then their blocks go to the same
files (`groups_share_directory_iff`).
-/

namespace LiterateCheck

open Run (Gives)

variable {cwd base : Location} {root : Path} {table : GroupTable} {options : ProjectOptions}
  {before after : World} {tree : ProjectTree}

/-! ## Directories -/

theorem lookup_groupDirectory (hosts : before.disk.Hosts cwd root base)
    (h : Gives (writeProject cwd table root options) before tree after) {key : String}
    (hkey : key ∈ table.keys) :
    after.disk.lookup cwd (root.join ⟨key⟩) = .ok (base ++ keyNames key, .directory) := by
  obtain ⟨-, habsolute, hup, -⟩ := groupDirectory_eq_ok (groupDirectory_of_writeProject h hkey)
  have hfills := fills_of_writeProject hosts h
  -- the package description stands in it
  obtain ⟨content, executable, hlookup⟩ :=
    leadsToFile_of_writeProject hosts h hkey (mem_writtenNames.2 (.inl rfl))
  have hroot : root.text ≠ "" :=
    (Disk.find_eq_ok_iff.1 (Disk.locate_of_lookup hosts.leads)).1.text_ne_empty
  have hgoes := (Path.GoesOn.refl root).join habsolute
  rw [List.nil_append] at hgoes
  exact (hosts.of_grows hfills.grows).lookup_directory hgoes hup
    (Path.text_join_ne_empty hroot habsolute) isFileName_packageFile
    (Disk.locate_of_lookup hlookup)

/-! ## Files -/

/-- The names of a group's files. A supplementary source is told by how its name is shown. -/
def IsGroupFile (table : GroupTable) (options : ProjectOptions) (key name : String) : Prop :=
  name = packageFile.text ∨
    (∃ block ∈ table.effective key, generatedFileName block.source = name) ∨
    ∃ file ∈ options.complementary, file.fileName? = some name ∧
      (Text.shown name = key ++ ".mbt" ∨ Text.shown name = baselineGroup ++ ".mbt")

/-- The files below the root are the module description and those of the groups. -/
theorem hasFile_iff_of_writeProject (hosts : before.disk.Hosts cwd root base)
    (hbelow : ∀ names, names ≠ [] → before.disk.entryAt? (base ++ names) = none)
    (h : Gives (writeProject cwd table root options) before tree after) {names : Location}
    (hnames : names ≠ []) :
    after.disk.HasFile (base ++ names) ↔ names = [moduleFile.text] ∨
      ∃ key ∈ table.keys, ∃ name, names = keyNames key ++ [name] ∧
        IsGroupFile table options key name := by
  have hnone : ¬ before.disk.HasFile (base ++ names) := by
    rintro ⟨content, executable, hentry⟩
    rw [hbelow names hnames] at hentry
    cases hentry
  rw [(fills_of_writeProject hosts h).hasFile_iff, or_iff_right hnone]
  constructor
  · rintro ⟨file, hfile, hplace⟩
    rcases List.mem_append.1 hfile with hfile | hfile
    · obtain ⟨key, hkey, hfile⟩ := List.mem_flatMap.1 hfile
      obtain ⟨name, hname, rfl⟩ := List.mem_map.1 hfile
      have hplace : filePlace base key name = base ++ names := hplace
      unfold filePlace at hplace
      rw [List.append_assoc] at hplace
      refine .inr ⟨key, hkey, name, (List.append_cancel_left hplace).symm, ?_⟩
      rwa [mem_writtenNames, mem_generatedNames] at hname
    · obtain rfl := List.mem_singleton.1 hfile
      exact .inl (List.append_cancel_left hplace).symm
  · rintro (rfl | ⟨key, hkey, name, rfl, hname⟩)
    · exact ⟨_, List.mem_append_right _ (List.mem_singleton_self _), rfl⟩
    · have hwritten : name ∈ writtenNames options key (table.effective key) := by
        rwa [mem_writtenNames, mem_generatedNames]
      refine ⟨groupFile base (root.join ⟨key⟩) key name, List.mem_append_left _
        (List.mem_flatMap.2 ⟨key, hkey, List.mem_map_of_mem hwritten⟩), ?_⟩
      exact List.append_assoc ..

theorem summaries_of_writeProject
    (h : Gives (writeProject cwd table root options) before tree after) :
    (tree.groups.map fun summary => (summary.key, summary.blockCount, summary.generated)) =
      table.keys.map fun key => (key, (table.effective key).length,
        (generatedNames (table.effective key)).map fun name => (root.join ⟨key⟩).join ⟨name⟩) := by
  obtain ⟨groups, written, hgroups, -, rfl⟩ := gives_writeProject.1 h
  refine Run.map_eq_of_gives_mapM (fun key _ before after summary h => ?_) hgroups
  obtain ⟨directory, -, -, -, copied, hdirectory, -, -, -, -, rfl⟩ := gives_writeGroup.1 h
  obtain rfl := (groupDirectory_eq_ok hdirectory).1
  rfl

theorem nodup_generated (directory : Path) (blocks : List CodeBlock) :
    (((generatedNames blocks).map fun name =>
      directory.join ⟨name⟩).map Path.components).Nodup := by
  have hnodup : (generatedNames blocks).Nodup := by
    unfold generatedNames
    rw [distinctNames_eq_eraseDups]
    exact nodup_eraseDups _
  have hname {name : String} (h : name ∈ generatedNames blocks) : Path.IsFileName name :=
    isFileName_of_mem_generatedNames h
  rw [List.map_map]
  refine List.pairwise_map.2 (hnodup.imp_of_mem fun ha hb hne heq => hne ?_)
  dsimp only [Function.comp_apply] at heq
  rw [Path.components_join _ (hname ha), Path.components_join _ (hname hb)] at heq
  simpa using List.append_cancel_left heq

/-- **A project has its files and no others.** Below the root stand the module description and, in
the directory of each key, the package description, a file for each generated name of the group's
blocks, and the supplementary sources named by the key or by the baseline; there are no links. A
generated file holds the texts of just the blocks that have its name, in order. The summaries come
in the order of the keys and count the blocks; each lists the generated files in the order in which
they are first written. -/
theorem files_below_root (hroot : before.disk.LeadsToEmpty cwd root) (hkeys : table.KeysApart)
    (hoptions : KeepsApart options)
    (h : Gives (writeProject cwd table root options) before tree after) :
    ∃ base, before.disk.lookup cwd root = .ok (base, .directory) ∧
      (∀ names, names ≠ [] → (after.disk.HasFile (base ++ names) ↔ names = [moduleFile.text] ∨
        ∃ key ∈ table.keys, ∃ name, names = keyNames key ++ [name] ∧
          IsGroupFile table options key name)) ∧
      after.disk.NoLinksBelow base ∧
      (∀ key ∈ table.keys,
        after.disk.lookup cwd (root.join ⟨key⟩) = .ok (base ++ keyNames key, .directory) ∧
        ∀ name ∈ generatedNames (table.effective key), ∃ executable,
          after.disk.lookup cwd ((root.join ⟨key⟩).join ⟨name⟩) =
            .ok (base ++ keyNames key ++ [name],
              .file (generatedText (table.effective key) name).toUTF8 executable)) ∧
      (tree.groups.map fun summary => (summary.key, summary.blockCount, summary.generated)) =
        (table.keys.map fun key => (key, (table.effective key).length,
          ((table.effective key).map fun block => generatedFileName block.source).eraseDups.map
            fun name => (root.join ⟨key⟩).join ⟨name⟩)) ∧
      table.keys.Pairwise (· < ·) ∧
      ∀ summary ∈ tree.groups, (summary.generated.map Path.components).Nodup := by
  obtain ⟨base, hosts, hbelow⟩ := hroot.hosts
  have hsummaries := summaries_of_writeProject h
  refine ⟨base, hosts.leads, fun names => hasFile_iff_of_writeProject hosts hbelow h,
    hosts.noLinks.of_grows (fills_of_writeProject hosts h).grows, fun key hkey => ?_, ?_, ?_,
    fun summary hsummary => ?_⟩
  · exact ⟨lookup_groupDirectory hosts h hkey, fun name hname =>
      lookup_of_keysApart hosts hbelow hkeys hoptions h hkey hname⟩
  · simp only [← distinctNames_eq_eraseDups]
    exact hsummaries
  · exact List.pairwise_map.2 table.sorted
  · obtain ⟨key, -, heq⟩ := List.mem_map.1 (hsummaries ▸ List.mem_map_of_mem hsummary)
    rw [← (Prod.mk.inj (Prod.mk.inj heq).2).2]
    exact nodup_generated _ _

/-- Of the nested groups the inner one has its own file, and no module description. -/
theorem files_below_root_nested : ∃ tree after,
    Gives (writeProject [] nestedTable ⟨"/"⟩ .default) ⟨.empty, []⟩ tree after ∧
      after.disk.HasFile ["a", "a", "x.md.mbt"] ∧
      ¬ after.disk.HasFile ["a", "a", "moon.mod.json"] ∧
      after.disk.textAt [] ⟨"/a/a/x.md.mbt"⟩ = .ok "// x.mbt.md:20:1\ntwo\n\n" := by
  obtain ⟨groups, after, h⟩ := gives_writeProject_nestedTable
  obtain ⟨base, hbase, hfiles, -, hgroups, -⟩ := files_below_root leadsToEmpty_empty
    keysApart_nestedTable (fun file hfile => absurd hfile List.not_mem_nil) h
  obtain rfl : [] = base :=
    (Prod.mk.inj (Except.ok.inj ((Disk.lookup_root .empty).symm.trans hbase))).1
  have hkeys : nestedTable.keys = ["a", "a/a"] := by decide
  refine ⟨_, after, h, (hfiles _ (by decide)).2 (.inr ⟨"a/a", ?_, "x.md.mbt", ?_, ?_⟩), ?_, ?_⟩
  · rw [hkeys]
    decide
  · decide
  · exact .inr (.inl ⟨innerBlock, by decide, by decide⟩)
  · intro hfile
    rcases (hfiles ["a", "a", "moon.mod.json"] (by decide)).1 hfile with
      hmodule | ⟨key, -, name, hnames, hname⟩
    · exact absurd hmodule (by decide)
    · obtain ⟨-, rfl⟩ : ["a", "a"] = keyNames key ∧ moduleFile.text = name := by
        simpa using List.append_inj' (show ["a", "a"] ++ [moduleFile.text] = _ from hnames) rfl
      rcases hname with hpackage | ⟨block, -, hgenerated⟩ | ⟨file, hfile, -⟩
      · exact absurd hpackage (by decide)
      · exact not_isGenerated_moduleFile
          (hgenerated ▸ isGenerated_generatedFileName block.source)
      · exact absurd hfile List.not_mem_nil
  · obtain ⟨executable, hlookup⟩ := (hgroups "a/a" (by decide)).2 "x.md.mbt" (by decide)
    exact Disk.textAt_of_lookup hlookup

/-! ## Keys with one directory -/

/-- Of the keys of a project that was written, those with the same components lead through the same
names. -/
theorem keyNames_eq_iff (h : Gives (writeProject cwd table root options) before tree after)
    {key other : String} (hkey : key ∈ table.keys) (hother : other ∈ table.keys) :
    keyNames other = keyNames key ↔ (Path.mk other).same ⟨key⟩ = true := by
  have hspelled : ∀ k ∈ table.keys, (Path.mk k).components = (keyNames k).map .name :=
    fun k hk => (groupDirectory_eq_ok (groupDirectory_of_writeProject h hk)).2.2.2
  unfold Path.same
  rw [beq_iff_eq, hspelled other hother, hspelled key hkey,
    List.map_inj_right fun a b heq => Component.name.inj heq]

/-- **When two groups share a directory.** A key is taken when it is relative, does not start with a
`.` and never goes up, so one directory has many spellings. Two keys of a project name the same
directory exactly when they have the same components, and a generated file holds the texts of all
groups whose keys have the components of its own, in the order of the keys. -/
theorem groups_share_directory_iff (hroot : before.disk.LeadsToEmpty cwd root)
    (h : Gives (writeProject cwd table root options) before tree after) :
    (∀ key, (∃ directory, groupDirectory root key = .ok directory) ↔
      (Path.mk key).isAbsolute = false ∧ (Path.mk key).parts.head? ≠ some "." ∧
        ".." ∉ (Path.mk key).parts) ∧
    (∀ key ∈ table.keys, ∀ other ∈ table.keys, ∃ place place',
      after.disk.lookup cwd (root.join ⟨key⟩) = .ok (place, .directory) ∧
      after.disk.lookup cwd (root.join ⟨other⟩) = .ok (place', .directory) ∧
      (place = place' ↔ (Path.mk key).same ⟨other⟩ = true)) ∧
    (KeepsApart options → ∀ key ∈ table.keys, ∀ name ∈ generatedNames (table.effective key),
      after.disk.textAt cwd ((root.join ⟨key⟩).join ⟨name⟩) =
        .ok (String.join ((table.keys.filter fun other => (Path.mk other).same ⟨key⟩).map
          fun other => generatedText (table.effective other) name))) := by
  obtain ⟨base, hosts, hbelow⟩ := hroot.hosts
  refine ⟨exists_groupDirectory_iff root, fun key hkey other hother => ?_,
    fun hoptions key hkey name hname => ?_⟩
  · refine ⟨_, _, lookup_groupDirectory hosts h hkey, lookup_groupDirectory hosts h hother, ?_⟩
    rw [List.append_right_inj, keyNames_eq_iff h hother hkey]
  · obtain ⟨executable, hlookup⟩ := lookup_of_writeProject hosts hbelow hoptions h hkey hname
    rw [Text.join_map_ite] at hlookup
    have hfilter : (table.keys.filter fun other => keyNames other = keyNames key) =
        table.keys.filter fun other => (Path.mk other).same ⟨key⟩ :=
      List.filter_congr fun other hother => by
        rw [decide_eq_decide.2 (keyNames_eq_iff h hkey hother), Bool.decide_coe]
    rw [← hfilter]
    exact Disk.textAt_of_lookup hlookup

/-- The nested groups have directories of their own. -/
theorem groups_share_directory_nested : ∃ tree after place place',
    Gives (writeProject [] nestedTable ⟨"/"⟩ .default) ⟨.empty, []⟩ tree after ∧
      after.disk.lookup [] ⟨"/a"⟩ = .ok (place, .directory) ∧
      after.disk.lookup [] ⟨"/a/a"⟩ = .ok (place', .directory) ∧ place ≠ place' := by
  obtain ⟨groups, after, h⟩ := gives_writeProject_nestedTable
  obtain ⟨-, hdirectories, -⟩ := groups_share_directory_iff leadsToEmpty_empty h
  obtain ⟨place, place', houter, hinner, hiff⟩ := hdirectories "a" (by decide) "a/a" (by decide)
  refine ⟨_, after, place, place', h, houter, hinner, fun heq => ?_⟩
  exact absurd (hiff.1 heq) (by decide)

/-- Two groups, whose keys spell one directory. -/
def dottedTable : GroupTable :=
  (GroupTable.empty.push ["a"] outerBlock).push ["a/."] innerBlock

/-- The package description of a group written with the default options. -/
def defaultPackage : Entry :=
  .file (Text.jsonObject [("warn-list", ProjectOptions.default.warnList)]).toUTF8 false

/-- The outer group's disk with the second block behind the first. -/
def appendedDisk : Disk :=
  outerDisk.put ["a", "x.md.mbt"]
    (.file (outerBlock.text.toUTF8 ++ innerBlock.text.toUTF8) false)

def dottedDisk : Disk :=
  appendedDisk.put ["a", packageFile.text] defaultPackage

theorem gives_writeGroup_dotted : ∃ summary,
    Gives (writeGroup [] ⟨"/"⟩ .default "a/." [innerBlock]) ⟨outerDisk, []⟩ summary
      ⟨dottedDisk, []⟩ := by
  have hdirectory (followLast : Bool) :
      outerDisk.Follows followLast maxLinks [] ["a", "."] (.entry ["a"] .directory) :=
    .into isName_key rfl (.stay .stop)
  have hfile : outerDisk.locate [] ⟨"/a/./x.md.mbt"⟩ =
      .ok (.entry ["a", "x.md.mbt"] (.file outerBlock.text.toUTF8 false)) :=
    Disk.find_of_follows (by decide) (.into isName_key rfl (.stay (.file isName_file rfl)))
  have hpackage : appendedDisk.locate [] ⟨"/a/./moon.pkg.json"⟩ =
      .ok (.entry ["a", packageFile.text] defaultPackage) :=
    Disk.find_of_follows (by decide) (.into isName_key rfl (.stay (.file isName_packageFile rfl)))
  exact gives_writeGroup_singleton rfl rfl rfl
    (Disk.gives_makeAll_of_exists (Disk.find_of_follows (by decide) (hdirectory false))
      (Disk.lookup_of_locate (Disk.find_of_follows (by decide) (hdirectory true))))
    (Disk.writeBytes_of_file hfile) (Disk.writeBytes_of_file hpackage)

theorem gives_writeProject_dottedTable : ∃ groups after,
    Gives (writeProject [] dottedTable ⟨"/"⟩ .default) ⟨.empty, []⟩
      ⟨⟨"/"⟩, groups, ⟨dottedTable.segments, none⟩⟩ after :=
  gives_writeProject_pair (by decide) gives_writeGroup_outer gives_writeGroup_dotted
    (Disk.find_of_follows (by decide) (.vacant isName_moduleFile rfl))

/-- A `.` inside a key makes another key of the same directory: both groups are written to one file,
the second behind the first, and the second group's first line is taken to stand where the first
group's does. -/
theorem groups_share_directory_dotted : ∃ tree after,
    Gives (writeProject [] dottedTable ⟨"/"⟩ .default) ⟨.empty, []⟩ tree after ∧
      Disk.empty.LeadsToEmpty [] ⟨"/"⟩ ∧ dottedTable.keys = ["a", "a/."] ∧
      "." ∈ (Path.mk "a/.").parts ∧
      after.disk.lookup [] ⟨"/a"⟩ = .ok (["a"], .directory) ∧
      after.disk.lookup [] ⟨"/a/."⟩ = .ok (["a"], .directory) ∧
      after.disk.textAt [] ⟨"/a/./x.md.mbt"⟩ =
        .ok "// x.mbt.md:10:1\none\n\n// x.mbt.md:20:1\ntwo\n\n" ∧
      tree.sourceMap.resolve "a/." "x.md.mbt" 2 1 = some ⟨⟨"x.mbt.md"⟩, 21, 1⟩ := by
  obtain ⟨groups, after, h⟩ := gives_writeProject_dottedTable
  obtain ⟨base, hosts, hbelow⟩ := leadsToEmpty_empty.hosts
  obtain rfl : [] = base :=
    (Prod.mk.inj (Except.ok.inj ((Disk.lookup_root .empty).symm.trans hosts.leads))).1
  have houter := lookup_groupDirectory hosts h (show "a" ∈ dottedTable.keys by decide)
  have hdotted := lookup_groupDirectory hosts h (show "a/." ∈ dottedTable.keys by decide)
  obtain ⟨executable, hlookup⟩ := lookup_of_writeProject hosts hbelow
    (fun file hfile => absurd hfile List.not_mem_nil) h (show "a/." ∈ dottedTable.keys by decide)
    (show "x.md.mbt" ∈ generatedNames (dottedTable.effective "a/.") by decide)
  have htext : String.join (dottedTable.keys.map fun other =>
      if keyNames other = keyNames "a/." then
        generatedText (dottedTable.effective other) "x.md.mbt" else "") =
      "// x.mbt.md:10:1\none\n\n// x.mbt.md:20:1\ntwo\n\n" := by decide
  rw [htext] at hlookup
  have hresolve : SourceMap.resolve ⟨dottedTable.segments, none⟩ "a/." "x.md.mbt" 2 1 =
      some ⟨⟨"x.mbt.md"⟩, 21, 1⟩ := by decide
  exact ⟨_, after, h, leadsToEmpty_empty, by decide, by decide, houter, hdotted,
    Disk.textAt_of_lookup hlookup, hresolve⟩

end LiterateCheck
