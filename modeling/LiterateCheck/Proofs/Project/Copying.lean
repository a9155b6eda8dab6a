import LiterateCheck.Proofs.Disk.Plain
import LiterateCheck.Proofs.Markup.Sections
import LiterateCheck.Proofs.Project.Contents
import LiterateCheck.Proofs.Project.Listing

/-!
# Copies over generated files

The supplementary sources of a group are copied after its blocks are written, so a source with the
name of a generated file takes its place. The suffix of generated files keeps the two apart except
in a group whose key ends in `.md`: there the source named by the key has such a name
(`isGenerated_key_iff`).

1. What one step does to the place of a generated file is to leave it as it is, or to put there what
   the source holds (`Takes`), and the source stays.
2. So a group puts it there when it copies the source (`takes_of_writeGroup_self`), the other groups
   keep it (`takes_of_writeGroup_other`), and so it is in the whole project (`bytesAt_of_copied`).
3. For all generated files of a project, `generated_files_kept` tells which of the two they hold.
-/

namespace LiterateCheck

open Run (Gives)

/-! ## Names -/

/-- The suffix does not keep apart the source that is named by a key in `.md`, and only that. -/
theorem isGenerated_key_iff (key : String) :
    IsGenerated (key ++ ".mbt") ↔ ".md".toList <:+ key.toList := by
  have hsuffix : generatedSuffix.toList = ".md".toList ++ ".mbt".toList := by decide
  unfold IsGenerated
  rw [hsuffix, String.toList_append]
  constructor
  · rintro ⟨front, h⟩
    rw [← List.append_assoc] at h
    exact ⟨front, List.append_cancel_right h⟩
  · rintro ⟨front, h⟩
    exact ⟨front, by rw [← List.append_assoc, h]⟩

/-- A source that is copied to a generated file is named by the key of the group. -/
theorem eq_key_of_mem_supplements {key name : String} {files : List Path} {file : Path}
    (h : file ∈ supplements key files) (hfile : file.fileName? = some name)
    (hutf8 : Text.isUtf8 name = true) (hname : IsGenerated name) : name = key ++ ".mbt" := by
  obtain ⟨-, own, hown, hshown⟩ := mem_supplements.1 h
  obtain rfl := Option.some.inj (hown.symm.trans hfile)
  rw [Text.shown_eq_of_isUtf8 hutf8] at hshown
  refine hshown.resolve_right fun hbaseline => ?_
  exact absurd ((isGenerated_key_iff baselineGroup).1 (hbaseline ▸ hname)) (by decide)

/-- A supplementary source of a directory is the file that its name makes there, where files are
named as on every file system. -/
theorem eq_join_of_mem_listSupplements {disk : Disk} {cwd : Location} {directory file : Path}
    {files : List Path} {name : String} (hdisk : disk.WellNamed)
    (h : listSupplements disk cwd directory = .ok files) (hfile : file ∈ files)
    (hname : file.fileName? = some name) : file = directory.join ⟨name⟩ := by
  obtain ⟨place, -, hfiles⟩ := supplies_of_listSupplements hdisk h
  obtain ⟨stem, -, hentry, rfl⟩ := hfiles.mem_iff.1 hfile
  rw [Path.fileName?_join directory (isFileName_of_hasFile hdisk hentry),
    Option.some.injEq] at hname
  rw [hname]

/-! ## Copying over a place -/

/-- What one place holds stays, and another place gets it or stays as it is. -/
structure Takes (source target : Location) (taken : Prop) (before after : Disk) : Prop where
  grows : before.Grows after
  stays : after.holds source = before.holds source
  gets : taken → after.holds target = before.holds source
  keeps : ¬ taken → after.holds target = before.holds target

namespace Takes

variable {source target : Location} {p q : Prop} {a b c : Disk}

theorem refl (source target : Location) (disk : Disk) : Takes source target False disk disk where
  grows := .refl disk
  stays := rfl
  gets := False.elim
  keeps _ := rfl

theorem trans (hab : Takes source target p a b) (hbc : Takes source target q b c) :
    Takes source target (p ∨ q) a c where
  grows := hab.grows.trans hbc.grows
  stays := hbc.stays.trans hab.stays
  gets hpq := by
    by_cases hq : q
    · rw [hbc.gets hq, hab.stays]
    · rw [hbc.keeps hq, hab.gets (hpq.resolve_right hq)]
  keeps hpq := by
    rw [hbc.keeps fun hq => hpq (.inr hq), hab.keeps fun hp => hpq (.inl hp)]

theorem congr (h : Takes source target p a b) (hpq : p ↔ q) : Takes source target q a b :=
  propext hpq ▸ h

theorem of_appends {cwd : Location} {files files' : List (Path × Location)}
    (hsource : Appends cwd source a b "" files) (htarget : Appends cwd target a b "" files') :
    Takes source target False a b where
  grows := hsource.grows
  stays := hsource.holds_of_empty
  gets := False.elim
  keeps _ := htarget.holds_of_empty

/-- Of steps one after the other, one that takes is enough, when each does what it does wherever the
root hosts and the path of the source leads to it. -/
theorem of_mapM {α β : Type} {cwd base : Location} {root file : Path} {step : α → Run β}
    {taken : α → Prop} {items : List α}
    (hstep : ∀ item ∈ items, ∀ (before after : World) (b : β), before.disk.Hosts cwd root base →
      LeadsToFile before.disk cwd file source → Gives (step item) before b after →
        Takes source target (taken item) before.disk after.disk)
    {before after : World} {bs : List β} (hosts : before.disk.Hosts cwd root base)
    (hsource : LeadsToFile before.disk cwd file source)
    (h : Gives (items.mapM step) before bs after) :
    Takes source target (∃ item ∈ items, taken item) before.disk after.disk := by
  refine Run.gives_mapM_rel (fun items before after => before.disk.Hosts cwd root base →
    LeadsToFile before.disk cwd file source →
      Takes source target (∃ item ∈ items, taken item) before.disk after.disk) ?_ ?_ h hosts
    hsource
  · intro world _ _
    exact (refl source target world.disk).congr (by simp)
  · intro item hitem others before middle after b hfirst hothers hosts hsource
    have htakes := hstep item hitem before middle b hosts hsource hfirst
    have hrest := hothers (hosts.of_grows htakes.grows) (hsource.of_grows htakes.grows)
    exact (htakes.trans hrest).congr (by simp)

end Takes

section Project

variable {cwd base source : Location} {root directory file : Path} {table : GroupTable}
  {options : ProjectOptions} {key name : String} {before after : World} {tree : ProjectTree}

/-- A place that does not lie below the directory of the root. -/
def Outside (base source : Location) : Prop :=
  ∀ names, names ≠ [] → source ≠ base ++ names

theorem Outside.filePlace_ne (h : Outside base source) (key name : String) :
    filePlace base key name ≠ source := by
  intro heq
  unfold filePlace at heq
  rw [List.append_assoc] at heq
  exact h (keyNames key ++ [name]) (by simp) heq.symm

theorem Outside.spares (h : Outside base source) (options : ProjectOptions) (key : String) :
    Spares options base key source where
  package := h.filePlace_ne key _
  supplement _ _ := h.filePlace_ne key _

theorem Outside.groupText_eq (h : Outside base source) (key : String) (blocks : List CodeBlock) :
    groupText base key blocks source = "" :=
  Text.join_map_eq_empty fun _ _ => if_neg (h.filePlace_ne key _)

/-- Of the supplementary sources only one file has a name. -/
def OnlyNamed (options : ProjectOptions) (file : Path) (name : String) : Prop :=
  ∀ other ∈ options.complementary, other.fileName? = some name → other = file

theorem takes_of_copySupplement {into other copied : Path} (hout : Outside base source)
    (honly : OnlyNamed options file name) (hinto : groupDirectory root key = .ok into)
    (hother : other ∈ supplements key options.complementary)
    (hosts : before.disk.Hosts cwd root base) (hsource : LeadsToFile before.disk cwd file source)
    (h : Gives (copySupplement cwd into other) before copied after) :
    Takes source (filePlace base key name) (other.fileName? = some name) before.disk
      after.disk := by
  obtain ⟨own, hown⟩ := exists_fileName?_of_mem_supplements hother
  obtain ⟨origin, content, executable, hlookup, hwrites⟩ :=
    writesFile_of_copySupplement hinto hown hosts h
  refine ⟨hwrites.grows, hwrites.holds_of_ne (hout.filePlace_ne key own).symm, fun htaken => ?_,
    fun hkept => hwrites.holds_of_ne fun heq => hkept ?_⟩
  · obtain rfl : own = name := Option.some.inj (hown.symm.trans htaken)
    obtain rfl : other = file := honly other (mem_supplements.1 hother).1 htaken
    obtain ⟨held, executable', hfile⟩ := hsource
    obtain rfl : origin = source := Disk.place_eq_of_lookup hlookup hfile
    have hentry := Disk.entryAt?_of_lookup_file hlookup
    rw [hwrites.holds_self, if_neg (hout.filePlace_ne key own),
      Disk.holds_of_entryAt?_eq_file hentry]
  · rw [hown, (filePlace_inj.1 heq).2]

/-- The copies of a group put what the source holds in the place of the generated file. -/
theorem takes_of_writeGroup_self {blocks : List CodeBlock} {summary : GroupSummary}
    (hout : Outside base source) (honly : OnlyNamed options file name)
    (hcopied : ∃ other ∈ supplements key options.complementary, other.fileName? = some name)
    (hosts : before.disk.Hosts cwd root base) (hsource : LeadsToFile before.disk cwd file source)
    (h : Gives (writeGroup cwd root options key blocks) before summary after) :
    Takes source (filePlace base key name) True before.disk after.disk := by
  obtain ⟨into, made, written, described, copies, hinto, hmade, hwritten, hdescribed,
    hcopies, -⟩ := gives_writeGroup.1 h
  have hfirst := appends_of_described (hout.spares options key).package hosts hinto hmade hwritten
    hdescribed
  rw [hout.groupText_eq] at hfirst
  have hlast : Takes source (filePlace base key name)
      (∃ other ∈ supplements key options.complementary, other.fileName? = some name)
      described.disk after.disk :=
    .of_mapM (fun other hother _ _ _ hosts hsource h =>
      takes_of_copySupplement hout honly hinto hother hosts hsource h)
      (hosts.of_grows hfirst.grows) (hsource.of_grows hfirst.grows) hcopies
  refine ⟨hfirst.grows.trans hlast.grows, hlast.stays.trans hfirst.holds_of_empty,
    fun _ => ?_, fun hkept => absurd trivial hkept⟩
  rw [hlast.gets hcopied, hfirst.holds_of_empty]

theorem takes_of_writeGroup_other {other : String} {blocks : List CodeBlock}
    {summary : GroupSummary} (hout : Outside base source)
    (hkeys : keyNames other ≠ keyNames key) (hosts : before.disk.Hosts cwd root base)
    (h : Gives (writeGroup cwd root options other blocks) before summary after) :
    Takes source (filePlace base key name) False before.disk after.disk := by
  have hne (own : String) : filePlace base other own ≠ filePlace base key name :=
    fun heq => hkeys (filePlace_inj.1 heq).1
  have hspares : Spares options base other (filePlace base key name) :=
    ⟨hne _, fun _ _ => hne _⟩
  have hsource := appends_of_writeGroup (hout.spares options other) hosts h
  have htarget := appends_of_writeGroup hspares hosts h
  rw [hout.groupText_eq] at hsource
  rw [groupText_of_ne hkeys] at htarget
  exact .of_appends hsource htarget

/-- After a whole project, the place of the copy holds what the source held before. -/
theorem holds_of_copied (hout : Outside base source)
    (honly : OnlyNamed options file name) (hkeys : table.KeysApart) (hkey : key ∈ table.keys)
    (hcopied : ∃ other ∈ supplements key options.complementary, other.fileName? = some name)
    (hosts : before.disk.Hosts cwd root base) (hsource : LeadsToFile before.disk cwd file source)
    (h : Gives (writeProject cwd table root options) before tree after) :
    after.disk.holds (filePlace base key name) = before.disk.holds source := by
  obtain ⟨groups, written, hgroups, hmanifest, -⟩ := gives_writeProject.1 h
  have hfirst : Takes source (filePlace base key name) (∃ other ∈ table.keys, other = key)
      before.disk written.disk := by
    refine .of_mapM (fun other hother _ _ _ hosts hsource hgroup => ?_) hosts hsource hgroups
    by_cases heq : other = key
    · subst heq
      exact (takes_of_writeGroup_self hout honly hcopied hosts hsource hgroup).congr
        (iff_of_true trivial rfl)
    · exact (takes_of_writeGroup_other hout (keyNames_ne hkeys h hkey hother heq) hosts
        hgroup).congr (iff_of_false id heq)
  have hosts := hosts.of_grows hfirst.grows
  obtain ⟨other, hother, hname⟩ := hcopied
  have hmodule : moduleFile.text ≠ name := ne_of_mem_supplements hother hname (by decide)
  have hlast : Takes source (filePlace base key name) False written.disk after.disk :=
    .of_appends
      (appends_of_manifest (hout [moduleFile.text] (by simp)).symm hosts hmanifest)
      (appends_of_manifest (append_ne_filePlace hmodule) hosts hmanifest)
  exact (hfirst.trans hlast).gets (.inl ⟨key, hkey, rfl⟩)

theorem bytesAt_of_copied (hroot : before.disk.LeadsToEmpty cwd root)
    (honly : OnlyNamed options file name) (hkeys : table.KeysApart) (hkey : key ∈ table.keys)
    (hcopied : ∃ other ∈ supplements key options.complementary, other.fileName? = some name)
    (h : Gives (writeProject cwd table root options) before tree after) {content : ByteArray}
    (hcontent : before.disk.bytesAt cwd file = .ok content) :
    after.disk.bytesAt cwd ((root.join ⟨key⟩).join ⟨name⟩) = .ok content := by
  obtain ⟨base, hosts, hbelow⟩ := hroot.hosts
  obtain ⟨source, executable, hsource⟩ := Disk.bytesAt_eq_ok_iff.1 hcontent
  have hentry := Disk.entryAt?_of_lookup_file hsource
  have hout : Outside base source := by
    intro names hnames hplace
    rw [hplace, hbelow names hnames] at hentry
    cases hentry
  have hholds :=
    holds_of_copied hout honly hkeys hkey hcopied hosts ⟨content, executable, hsource⟩ h
  obtain ⟨other, hother, hname⟩ := hcopied
  obtain ⟨held, executable', hlookup⟩ := leadsToFile_of_writeProject hosts h hkey
    (mem_writtenNames_of_mem_supplements hother hname)
  have hafter := Disk.entryAt?_of_lookup_file hlookup
  rw [Disk.holds_of_entryAt?_eq_file hafter, Disk.holds_of_entryAt?_eq_file hentry] at hholds
  exact Disk.bytesAt_eq_ok_iff.2 ⟨_, executable', hholds ▸ hlookup⟩

/-- **Copies and generated files.** A project is written below an empty root, its keys spell
different directories, and its supplementary sources are those that a directory had when it was
listed. Then a generated file holds the texts of the blocks that go to it, unless its name is that
of the source that belongs to the group by its key. Such a key ends in `.md`, and then the file
holds the bytes of that source. -/
theorem generated_files_kept {listed : Disk} (hroot : before.disk.LeadsToEmpty cwd root)
    (hlisted : listed.WellNamed) (hkeys : table.KeysApart)
    (hlist : listSupplements listed cwd directory = .ok options.complementary)
    (h : Gives (writeProject cwd table root options) before tree after) :
    ∀ summary ∈ tree.groups, ∀ path ∈ summary.generated,
      ∃ name ∈ generatedNames (table.effective summary.key),
        path = (root.join ⟨summary.key⟩).join ⟨name⟩ ∧
        ((name = summary.key ++ ".mbt" → directory.join ⟨name⟩ ∉ options.complementary) →
          after.disk.textAt cwd path = .ok (generatedText (table.effective summary.key) name)) ∧
        (name = summary.key ++ ".mbt" → directory.join ⟨name⟩ ∈ options.complementary →
          ".md".toList <:+ summary.key.toList ∧
          ∀ content, before.disk.bytesAt cwd (directory.join ⟨name⟩) = .ok content →
            after.disk.bytesAt cwd path = .ok content) := by
  intro summary hsummary path hpath
  obtain ⟨key, hkey, hsame⟩ :=
    List.mem_map.1 (summaries_of_writeProject h ▸ List.mem_map_of_mem hsummary)
  obtain ⟨rfl, hrest⟩ := Prod.mk.inj hsame
  rw [← (Prod.mk.inj hrest).2] at hpath
  obtain ⟨name, hname, rfl⟩ := List.mem_map.1 hpath
  have hgenerated := isGenerated_of_mem_generatedNames hname
  have hutf8 := isUtf8_of_mem_generatedNames hname
  have honly : OnlyNamed options (directory.join ⟨name⟩) name :=
    fun file hfile => eq_join_of_mem_listSupplements hlisted hlist hfile
  refine ⟨name, hname, rfl, fun hfree => ?_, fun hown hmem => ⟨?_, fun content hcontent => ?_⟩⟩
  · have huncopied : ∀ file ∈ supplements summary.key options.complementary,
        file.fileName? ≠ some name := by
      intro file hfile heq
      have hmem := (mem_supplements.1 hfile).1
      apply hfree (eq_key_of_mem_supplements hfile heq hutf8 hgenerated)
      rwa [← honly file hmem heq]
    obtain ⟨base, hosts, hbelow⟩ := hroot.hosts
    obtain ⟨executable, hlookup⟩ :=
      lookup_of_keysApart_of_uncopied hosts hbelow hkeys h huncopied hkey hname
    exact Disk.textAt_of_lookup hlookup
  · exact (isGenerated_key_iff _).1 (hown ▸ hgenerated)
  · have heq := Path.fileName?_join directory (isFileName_of_mem_generatedNames hname)
    exact bytesAt_of_copied hroot honly hkeys hkey
      ⟨_, mem_supplements.2 ⟨hmem, name, heq, .inl ((Text.shown_eq_of_isUtf8 hutf8).trans hown)⟩,
        heq⟩ h hcontent

end Project

/-! ## A group named like its documents -/

/-- Two documents, each with a block for the group `x.md`. -/
def clashSources : List (Path × String) :=
  [(⟨"x.mbt.md"⟩, Section.write [⟨"mbt unless=x.md", "one"⟩]),
    (⟨"y.mbt.md"⟩, Section.write [⟨"mbt unless=x.md", "two"⟩])]

def clashBlock : CodeBlock := ⟨⟨"x.mbt.md"⟩, "one", some ⟨1, 3⟩, false⟩

def besideBlock : CodeBlock := ⟨⟨"y.mbt.md"⟩, "two", some ⟨1, 3⟩, false⟩

def clashTable : GroupTable :=
  (GroupTable.empty.push ["x.md"] clashBlock).push ["x.md"] besideBlock

theorem wellFormed_clash {body : String} (hfeeds : '\r' ∉ body.toList)
    (hstays : ∀ line ∈ Text.lines body.toList, ¬ Markup.ClosesFence line) :
    ∀ part ∈ [Section.mk "mbt unless=x.md" body], part.WellFormed := by
  have hplain := @Section.isPlain_of_all "mbt unless=x.md".toList (by decide)
  refine List.forall_mem_singleton.2 ⟨?_, fun c hc => (hplain c hc).1, fun c hc => (hplain c hc).2,
    ?_, hfeeds, hstays⟩
  · show "mbt unless=x.md" ≠ ""
    decide
  · show "mbt unless=x.md".toList.head? ≠ some ' '
    decide

theorem ofSources_clash : GroupTable.ofSources clashSources = clashTable := by
  have hclash : Placement.ofDocument ⟨"x.mbt.md"⟩
      (Section.write [⟨"mbt unless=x.md", "one"⟩]) = [⟨["x.md"], clashBlock⟩] := by
    rw [Section.ofDocument_write _ (wellFormed_clash (by decide) (by decide))]
    decide
  have hbeside : Placement.ofDocument ⟨"y.mbt.md"⟩
      (Section.write [⟨"mbt unless=x.md", "two"⟩]) = [⟨["x.md"], besideBlock⟩] := by
    rw [Section.ofDocument_write _ (wellFormed_clash (by decide) (by decide))]
    decide
  unfold GroupTable.ofSources clashSources
  simp only [List.flatMap_cons, List.flatMap_nil, List.append_nil, hclash, hbeside]
  rfl

/-- The documents on a disk, and a directory with a supplementary source. -/
def sourcesDisk : Disk :=
  (((Disk.empty.put ["x.mbt.md"]
    (.file (Section.write [⟨"mbt unless=x.md", "one"⟩]).toUTF8 false)).put ["y.mbt.md"]
    (.file (Section.write [⟨"mbt unless=x.md", "two"⟩]).toUTF8 false)).put ["sup"] .directory).put
    ["sup", "x.md.mbt"] (.file "copied".toUTF8 false)

/-- An empty directory beside them. -/
def supplyDisk : Disk := sourcesDisk.put ["out"] .directory

def supplyOptions : ProjectOptions := ⟨defaultWarnList, .default, [⟨"/sup/x.md.mbt"⟩]⟩

theorem isName_sup : IsName "sup" := by decide

section Leads

variable {disk : Disk} (hsup : disk.entryAt? ["sup"] = some .directory)

include hsup

theorem lookup_sup : disk.lookup [] ⟨"/sup"⟩ = .ok (["sup"], .directory) :=
  Disk.lookup_of_locate (Disk.find_of_follows (by decide) (.into isName_sup hsup .stop))

theorem lookup_source {path : Path} {name : String} {content : ByteArray}
    (hpath : path.isAbsolute = true ∧ Text.holdsNul path.text = false ∧ path.size < maxPathSize)
    (hsteps : path.steps = ["sup", name]) (hname : IsName name)
    (hfile : disk.entryAt? ["sup", name] = some (.file content false)) :
    disk.lookup [] path = .ok (["sup", name], .file content false) := by
  refine Disk.lookup_of_locate (Disk.find_of_follows hpath ?_)
  rw [hsteps]
  exact .into isName_sup hsup (.file hname hfile)

end Leads

theorem lookup_output {disk : Disk} (hout : disk.entryAt? ["out"] = some .directory) :
    disk.lookup [] ⟨"/out"⟩ = .ok (["out"], .directory) :=
  Disk.lookup_of_locate (Disk.find_of_follows (by decide) (.into isName_output hout .stop))

theorem lookup_copiedSource {disk : Disk} (hsup : disk.entryAt? ["sup"] = some .directory)
    (hfile : disk.entryAt? ["sup", "x.md.mbt"] = some (.file "copied".toUTF8 false)) :
    disk.lookup [] ⟨"/sup/x.md.mbt"⟩ =
      .ok (["sup", "x.md.mbt"], .file "copied".toUTF8 false) :=
  lookup_source hsup (by decide) (by decide) isName_file hfile

theorem listSupplements_sup :
    listSupplements supplyDisk [] ⟨"/sup"⟩ = .ok supplyOptions.complementary := by
  unfold listSupplements
  rw [Disk.list_of_lookup (lookup_sup rfl)]
  show Except.ok (Path.sort [⟨"/sup/x.md.mbt"⟩]) = _
  unfold Path.sort
  rw [List.mergeSort_singleton]
  rfl

theorem plain_sourcesDisk : sourcesDisk.Plain := by
  have hfirst := @Disk.Plain.put .empty Disk.plain_empty [] "x.mbt.md" rfl (by decide) rfl
    (.file (Section.write [⟨"mbt unless=x.md", "one"⟩]).toUTF8 false) (by simp)
  have hsecond := @Disk.Plain.put _ hfirst [] "y.mbt.md" rfl (by decide) rfl
    (.file (Section.write [⟨"mbt unless=x.md", "two"⟩]).toUTF8 false) (by simp)
  have hdirectory := @Disk.Plain.put _ hsecond [] "sup" rfl (by decide) rfl .directory (by simp)
  exact @Disk.Plain.put _ hdirectory ["sup"] "x.md.mbt" rfl (by decide) rfl
    (.file "copied".toUTF8 false) (by simp)

theorem plain_supplyDisk : supplyDisk.Plain :=
  @Disk.Plain.put sourcesDisk plain_sourcesDisk [] "out" rfl (by decide) rfl _ (by simp)

theorem leadsToEmpty_supplyDisk : supplyDisk.LeadsToEmpty [] ⟨"/out"⟩ := by
  refine ⟨["out"], lookup_output rfl, fun names hnames => ?_⟩
  unfold supplyDisk
  rw [Disk.entryAt?_put_of_ne _ _ (by simpa using hnames)]
  exact plain_sourcesDisk.closed.eq_none_inside rfl (List.prefix_append ["out"] names)

/-- The disk with the group's directory. -/
def madeDisk : Disk := supplyDisk.put ["out", "x.md"] .directory

/-- The disk when the group's blocks are written. -/
def writtenDisk : Disk :=
  (madeDisk.put ["out", "x.md", "x.md.mbt"] (.file clashBlock.text.toUTF8 false)).put
    ["out", "x.md", "y.md.mbt"] (.file besideBlock.text.toUTF8 false)

def describedDisk : Disk := writtenDisk.put ["out", "x.md", packageFile.text] defaultPackage

/-- The disk when the group's supplementary source is copied. -/
def copiedDisk : Disk :=
  describedDisk.put ["out", "x.md", "x.md.mbt"] (.file "copied".toUTF8 false)

theorem isName_clash : IsName "x.md" := by decide

theorem isName_beside : IsName "y.md.mbt" := by decide

theorem locate_in_group {disk : Disk} {group name : String} {path : Path}
    (hpath : path.isAbsolute = true ∧ Text.holdsNul path.text = false ∧
      path.size < maxPathSize) (hsteps : path.steps = ["out", group, name])
    (hgroup : IsName group) (hname : IsName name) (hout : disk.entryAt? ["out"] = some .directory)
    (hdirectory : disk.entryAt? ["out", group] = some .directory)
    (hnone : disk.entryAt? ["out", group, name] = none) :
    disk.locate [] path = .ok (.vacant ["out", group] name) :=
  Disk.find_of_follows hpath
    (hsteps ▸ .into isName_output hout (.into hgroup hdirectory (.vacant hname hnone)))

def clashSummary : GroupSummary :=
  ⟨"x.md", ⟨"/out/x.md"⟩, 2, [⟨"/out/x.md/x.md.mbt"⟩, ⟨"/out/x.md/y.md.mbt"⟩],
    [⟨"/out/x.md/x.md.mbt"⟩]⟩

theorem gives_writeGroup_clash :
    Gives (writeGroup [] ⟨"/out"⟩ supplyOptions "x.md" (clashTable.effective "x.md"))
      ⟨supplyDisk, []⟩ clashSummary ⟨copiedDisk, []⟩ := by
  have hmade : supplyDisk.find [] false ⟨"/out/x.md"⟩ (Path.mk "/out/x.md").names =
      .ok (.vacant ["out"] "x.md") :=
    Disk.find_of_follows (by decide) (.into isName_output rfl (.vacant isName_clash rfl))
  have hsource : describedDisk.lookup [] ⟨"/sup/x.md.mbt"⟩ =
      .ok (["sup", "x.md.mbt"], .file "copied".toUTF8 false) := lookup_copiedSource rfl rfl
  have htarget : describedDisk.locate [] ⟨"/out/x.md/x.md.mbt"⟩ =
      .ok (.entry ["out", "x.md", "x.md.mbt"] (.file clashBlock.text.toUTF8 false)) :=
    Disk.find_of_follows (by decide)
      (.into isName_output rfl (.into isName_clash rfl (.file isName_file rfl)))
  have hpath : (Path.mk "/out/x.md").join ⟨(Path.mk "/sup/x.md.mbt").fileName?.getD ""⟩ =
      ⟨"/out/x.md/x.md.mbt"⟩ := by decide
  have hcopy : Gives (copySupplement [] ⟨"/out/x.md"⟩ ⟨"/sup/x.md.mbt"⟩) ⟨describedDisk, []⟩
      ⟨"/out/x.md/x.md.mbt"⟩ ⟨copiedDisk, []⟩ := by
    rw [gives_copySupplement, hpath]
    exact ⟨Disk.copyFile_of_file hsource htarget (by decide), rfl, rfl⟩
  refine gives_writeGroup.2 ⟨⟨"/out/x.md"⟩, ⟨madeDisk, []⟩, ⟨writtenDisk, []⟩,
    ⟨describedDisk, []⟩, [⟨"/out/x.md/x.md.mbt"⟩], rfl, ?_, ?_, ?_, ?_, rfl⟩
  · exact Run.gives_onDisk.2 ⟨Disk.gives_makeAll rfl (Disk.makeDirectory_of_vacant hmade), rfl⟩
  · exact Run.gives_forM_cons.2 ⟨⟨_, []⟩, gives_changeFile.2 ⟨Disk.writeBytes_of_vacant
      (locate_in_group (by decide) (by decide) isName_clash isName_file rfl rfl rfl), rfl⟩,
      Run.gives_forM_cons.2 ⟨⟨_, []⟩, gives_changeFile.2 ⟨Disk.writeBytes_of_vacant
        (locate_in_group (by decide) (by decide) isName_clash isName_beside rfl rfl rfl), rfl⟩,
        Run.gives_forM_nil.2 rfl⟩⟩
  · exact gives_changeFile.2 ⟨Disk.writeBytes_of_vacant
      (locate_in_group (by decide) (by decide) isName_clash isName_packageFile rfl rfl rfl), rfl⟩
  · exact Run.gives_mapM_cons.2 ⟨_, _, [], hcopy, Run.gives_mapM_nil.2 ⟨rfl, rfl⟩, rfl⟩

/-- The disk when the module is described, too. -/
def projectDisk : Disk :=
  copiedDisk.put ["out", moduleFile.text] (.file (Text.jsonObject
    [("name", supplyOptions.moduleConfig.name),
      ("version", supplyOptions.moduleConfig.version)]).toUTF8 false)

theorem gives_writeProject_clash : ∃ tree,
    Gives (writeProject [] clashTable ⟨"/out"⟩ supplyOptions) ⟨supplyDisk, []⟩ tree
      ⟨projectDisk, []⟩ ∧ tree.groups = [clashSummary] := by
  have hmodule : copiedDisk.locate [] ((Path.mk "/out").join moduleFile) =
      .ok (.vacant ["out"] moduleFile.text) :=
    Disk.find_of_follows (by decide) (.into isName_output rfl (.vacant isName_moduleFile rfl))
  exact ⟨_, gives_writeProject_alone (by decide) rfl gives_writeGroup_clash
    (gives_changeFile.2 ⟨Disk.writeBytes_of_vacant hmodule, rfl⟩), rfl⟩

theorem lookup_projectDisk_copy : projectDisk.lookup [] ⟨"/out/x.md/x.md.mbt"⟩ =
    .ok (["out", "x.md", "x.md.mbt"], .file "copied".toUTF8 false) :=
  Disk.lookup_of_locate (Disk.find_of_follows (by decide)
    (.into isName_output rfl (.into isName_clash rfl (.file isName_file rfl))))

theorem lookup_projectDisk_block : projectDisk.lookup [] ⟨"/out/x.md/y.md.mbt"⟩ =
    .ok (["out", "x.md", "y.md.mbt"], .file besideBlock.text.toUTF8 false) :=
  Disk.lookup_of_locate (Disk.find_of_follows (by decide)
    (.into isName_output rfl (.into isName_clash rfl (.file isName_beside rfl))))

theorem keysApart_clashTable : clashTable.KeysApart := by
  unfold GroupTable.KeysApart
  decide

/-- Of the two generated files one is copied over, the other one holds its block. -/
theorem generated_files_kept_clash : ∃ tree after,
    Gives (writeProject [] clashTable ⟨"/out"⟩ supplyOptions) ⟨supplyDisk, []⟩ tree after ∧
      after.disk.bytesAt [] ⟨"/out/x.md/x.md.mbt"⟩ = .ok "copied".toUTF8 ∧
      after.disk.textAt [] ⟨"/out/x.md/y.md.mbt"⟩ = .ok "// y.mbt.md:1:1\ntwo\n\n" := by
  obtain ⟨tree, h, hgroups⟩ := gives_writeProject_clash
  have hsummary : clashSummary ∈ tree.groups := hgroups ▸ List.mem_singleton_self _
  have hnames {name : String} (hname : name ∈ generatedNames (clashTable.effective "x.md")) :
      name = "x.md.mbt" ∨ name = "y.md.mbt" := by
    rw [show generatedNames (clashTable.effective "x.md") = ["x.md.mbt", "y.md.mbt"] by decide]
      at hname
    simpa using hname
  have hfiles := generated_files_kept leadsToEmpty_supplyDisk plain_supplyDisk.wellNamed
    keysApart_clashTable listSupplements_sup h clashSummary hsummary
  refine ⟨tree, _, h, ?_, ?_⟩
  · obtain ⟨name, hname, hpath, -, hcopied⟩ := hfiles ⟨"/out/x.md/x.md.mbt"⟩ (by decide)
    obtain rfl : name = "x.md.mbt" :=
      (hnames hname).resolve_right fun hother => absurd (hother ▸ hpath) (by decide)
    have hsource : supplyDisk.lookup [] ⟨"/sup/x.md.mbt"⟩ =
        .ok (["sup", "x.md.mbt"], .file "copied".toUTF8 false) := lookup_copiedSource rfl rfl
    exact (hcopied rfl (by decide)).2 _ (Disk.bytesAt_eq_ok_iff.2 ⟨_, _, hsource⟩)
  · obtain ⟨name, hname, hpath, hkept, -⟩ := hfiles ⟨"/out/x.md/y.md.mbt"⟩ (by decide)
    obtain rfl : name = "y.md.mbt" :=
      (hnames hname).resolve_left fun hother => absurd (hother ▸ hpath) (by decide)
    exact hkept fun hown => absurd hown (by decide)

/-- The documents' block for `x.md.mbt` is gone, and the group has what was copied instead. -/
theorem generated_file_copied_over : ∃ tree after,
    Gives (writeProject [] (GroupTable.ofSources clashSources) ⟨"/out"⟩ supplyOptions)
      ⟨supplyDisk, []⟩ tree after ∧
    supplyDisk.LeadsToEmpty [] ⟨"/out"⟩ ∧ (GroupTable.ofSources clashSources).keys = ["x.md"] ∧
    listSupplements supplyDisk [] ⟨"/sup"⟩ = .ok supplyOptions.complementary ∧
    (∃ summary ∈ tree.groups, ⟨"/out/x.md/x.md.mbt"⟩ ∈ summary.generated) ∧
    generatedText ((GroupTable.ofSources clashSources).effective "x.md") "x.md.mbt" =
      "// x.mbt.md:1:1\none\n\n" ∧
    after.disk.textAt [] ⟨"/out/x.md/x.md.mbt"⟩ = .ok "copied" := by
  obtain ⟨tree, h, hgroups⟩ := gives_writeProject_clash
  have hsummary : clashSummary ∈ tree.groups := hgroups ▸ List.mem_singleton_self _
  rw [ofSources_clash]
  exact ⟨tree, _, h, leadsToEmpty_supplyDisk, by decide, listSupplements_sup,
    ⟨clashSummary, hsummary, by decide⟩, by decide, Disk.textAt_of_lookup lookup_projectDisk_copy⟩

end LiterateCheck
