import LiterateCheck.Proofs.Disk.Writing
import LiterateCheck.Proofs.Project.Places
import LiterateCheck.Proofs.Project.Rows
import LiterateCheck.Proofs.Text.Joining

/-!
# What writing a project leaves on the disk

For a root that leads to a directory without links below.

1. Each step of writing a group grows the disk, and to what a place holds it adds some text
   (`Appends`): a block adds its text to its file, all else adds nothing. The places of descriptions
   and supplementary sources are written anew and left out of this (`Spares`).
2. So a group adds the text of its blocks that go to the place (`appends_of_writeGroup`).
3. A project adds this for each of its groups (`appends_of_writeProject`). When the keys spell
   different directories below an empty root, each generated file of a group to which no
   supplementary source is copied holds the text of the group's own blocks
   (`lookup_of_keysApart_of_uncopied`).
-/

namespace LiterateCheck

open Run (Gives)

/-! ## Adding text -/

/-- A path leads to a file. -/
def LeadsToFile (disk : Disk) (cwd : Location) (path : Path) (l : Location) : Prop :=
  ∃ content executable, disk.lookup cwd path = .ok (l, .file content executable)

theorem LeadsToFile.of_grows {before after : Disk} {cwd l : Location} {path : Path}
    (h : LeadsToFile before cwd path l) (hgrows : before.Grows after) :
    LeadsToFile after cwd path l := by
  obtain ⟨content, executable, hlookup⟩ := h
  obtain ⟨content', executable', hafter⟩ := hgrows.file (Disk.entryAt?_of_lookup_file hlookup)
  exact ⟨content', executable',
    Disk.lookup_file_of_grows (Disk.locate_of_lookup hlookup) rfl hgrows hafter⟩

/-- Nothing goes, to what a place holds some text is added, and the paths of some files lead to
where they should. -/
structure Appends (cwd place : Location) (before after : Disk) (text : String)
    (files : List (Path × Location)) : Prop where
  grows : before.Grows after
  holds : after.holds place = before.holds place ++ text.toUTF8
  leads : ∀ file ∈ files, LeadsToFile after cwd file.1 file.2

namespace Appends

variable {cwd place : Location}

theorem refl (cwd place : Location) (disk : Disk) : Appends cwd place disk disk "" [] where
  grows := .refl disk
  holds := by simp
  leads := by simp

theorem trans {a b c : Disk} {text text' : String} {files files' : List (Path × Location)}
    (hab : Appends cwd place a b text files) (hbc : Appends cwd place b c text' files') :
    Appends cwd place a c (text ++ text') (files ++ files') where
  grows := hab.grows.trans hbc.grows
  holds := by
    rw [hbc.holds, hab.holds, ByteArray.append_assoc]
    simp
  leads file hfile := by
    rcases List.mem_append.1 hfile with hfile | hfile
    · exact (hab.leads file hfile).of_grows hbc.grows
    · exact hbc.leads file hfile

theorem holds_of_empty {before after : Disk} {files : List (Path × Location)}
    (h : Appends cwd place before after "" files) : after.holds place = before.holds place := by
  rw [h.holds]
  simp

theorem of_addsDirectories {before after : Disk} (h : before.AddsDirectories after) :
    Appends cwd place before after "" [] where
  grows := h.grows
  holds := by
    rw [h.holds]
    simp
  leads := by simp

theorem of_writesFile {before after : Disk} {written : Location} {content : ByteArray}
    (h : before.WritesFile after written content) (hplace : written ≠ place) :
    Appends cwd place before after "" [] where
  grows := h.grows
  holds := by
    rw [h.holds_of_ne hplace.symm]
    simp
  leads := by simp

/-- Steps one after the other add their texts in order, when each does that from wherever the root
still leads to its directory. -/
theorem of_mapM {α β : Type} {root : Path} {base : Location} {step : α → Run β}
    {text : α → String} {files : α → List (Path × Location)} {items : List α}
    (hstep : ∀ item ∈ items, ∀ (before after : World) (b : β),
      before.disk.Hosts cwd root base → Gives (step item) before b after →
        Appends cwd place before.disk after.disk (text item) (files item))
    {before after : World} {bs : List β} (hosts : before.disk.Hosts cwd root base)
    (h : Gives (items.mapM step) before bs after) :
    Appends cwd place before.disk after.disk (String.join (items.map text))
      (items.flatMap files) := by
  refine Run.gives_mapM_rel (fun items before after => before.disk.Hosts cwd root base →
    Appends cwd place before.disk after.disk (String.join (items.map text))
      (items.flatMap files)) ?_ ?_ h hosts
  · intro world _
    exact refl cwd place world.disk
  · intro item hitem others before middle after b hfirst hothers hosts
    have hadd := hstep item hitem before middle b hosts hfirst
    have hadds := hothers (hosts.of_grows hadd.grows)
    rw [List.map_cons, String.join_cons, List.flatMap_cons]
    exact hadd.trans hadds

end Appends

theorem gives_changeFile {path : Path} {step : Disk → Except SystemError Disk}
    {before after : World} :
    Gives (changeFile path step) before () after ↔
      step before.disk = .ok after.disk ∧ after.notices = before.notices := by
  unfold changeFile
  rw [Run.gives_onDisk, OnDisk.gives_change]

/-! ## Writing a group -/

section Group

variable {cwd base place : Location} {root directory : Path} {key : String} {before after : World}

/-- The text that a block, on its way to a file, adds to what a place holds. -/
def chunkText (base : Location) (key fileName : String) (block : CodeBlock) (place : Location) :
    String :=
  if filePlace base key fileName = place then block.text else ""

/-- A file of a group: its path and its location. -/
def groupFile (base : Location) (directory : Path) (key name : String) : Path × Location :=
  (directory.join ⟨name⟩, filePlace base key name)

theorem appends_of_writeChunk (hdirectory : groupDirectory root key = .ok directory)
    {chunk : Chunk} (hname : Path.IsFileName chunk.fileName)
    (hosts : before.disk.Hosts cwd root base)
    (h : Gives (writeChunk cwd directory chunk) before () after) :
    Appends cwd place before.disk after.disk (chunkText base key chunk.fileName chunk.block place)
      [groupFile base directory key chunk.fileName] := by
  obtain ⟨found, hlocate, hfound, hwrites⟩ := Disk.writesFile_of_writeBytes (gives_changeFile.1 h).1
  have hplace := location_of_file hosts hdirectory hname hlocate
  rw [hplace] at hwrites
  refine ⟨hwrites.grows, ?_, ?_⟩
  · unfold chunkText
    by_cases heq : filePlace base key chunk.fileName = place
    · rw [if_pos heq, ← heq, hwrites.holds_self, if_pos rfl]
      rfl
    · rw [if_neg heq, hwrites.holds_of_ne (Ne.symm heq)]
      simp
  · obtain ⟨executable, hentry⟩ := hwrites.written
    rw [← hplace] at hentry
    rw [List.forall_mem_singleton]
    unfold groupFile
    rw [← hplace]
    exact ⟨_, executable, Disk.lookup_file_of_grows hlocate hfound hwrites.grows hentry⟩

theorem not_isGenerated_packageFile : ¬ IsGenerated packageFile.text := by
  unfold IsGenerated
  decide

theorem not_isGenerated_moduleFile : ¬ IsGenerated moduleFile.text := by
  unfold IsGenerated
  decide

theorem isFileName_packageFile : Path.IsFileName packageFile.text := by decide

theorem isFileName_moduleFile : Path.IsFileName moduleFile.text := by decide

theorem gives_copySupplement {file copied : Path} :
    Gives (copySupplement cwd directory file) before copied after ↔
      Disk.copyFile cwd file (directory.join ⟨file.fileName?.getD ""⟩) before.disk =
          .ok after.disk ∧
        after.notices = before.notices ∧ directory.join ⟨file.fileName?.getD ""⟩ = copied := by
  unfold copySupplement
  rw [Run.gives_bind]
  constructor
  · rintro ⟨⟨⟩, middle, hcopy, hpure⟩
    obtain ⟨hcopied, rfl⟩ := Run.gives_pure.1 hpure
    obtain ⟨hdisk, hnotices⟩ := gives_changeFile.1 hcopy
    exact ⟨hdisk, hnotices, hcopied⟩
  · rintro ⟨hdisk, hnotices, hcopied⟩
    exact ⟨⟨⟩, after, gives_changeFile.2 ⟨hdisk, hnotices⟩, Run.gives_pure.2 ⟨hcopied, rfl⟩⟩

theorem writesFile_of_copySupplement (hdirectory : groupDirectory root key = .ok directory)
    {file copied : Path} {name : String} (hname : file.fileName? = some name)
    (hosts : before.disk.Hosts cwd root base)
    (h : Gives (copySupplement cwd directory file) before copied after) :
    ∃ origin content executable,
      before.disk.lookup cwd file = .ok (origin, .file content executable) ∧
      before.disk.WritesFile after.disk (filePlace base key name)
        (if filePlace base key name = origin then ByteArray.empty else content) := by
  obtain ⟨origin, content, executable, found, hlookup, hlocate, -, hwrites⟩ :=
    Disk.writesFile_of_copyFile_of_lookup (gives_copySupplement.1 h).1
  rw [hname, Option.getD_some] at hlocate
  rw [location_of_file hosts hdirectory (Path.isFileName_of_fileName? hname) hlocate] at hwrites
  exact ⟨origin, content, executable, hlookup, hwrites⟩

/-- What is read off the chunks of a group can be read off its blocks. -/
theorem map_layOut {α : Type} (f : String → CodeBlock → α) (lines : String → Nat)
    (blocks : List CodeBlock) :
    (layOut lines blocks).map (fun chunk => f chunk.fileName chunk.block) =
      blocks.map fun block => f (generatedFileName block.source) block := by
  induction blocks generalizing lines with
  | nil => rfl
  | cons block others ih =>
    unfold layOut
    rw [List.map_cons, List.map_cons, ih]

theorem exists_of_mem_chunks {blocks : List CodeBlock} {chunk : Chunk}
    (h : chunk ∈ chunks blocks) : ∃ document, chunk.fileName = generatedFileName document := by
  have hmem : chunk.fileName ∈ blocks.map fun block => generatedFileName block.source := by
    rw [← map_layOut (fun fileName _ => fileName) (fun _ => 0)]
    exact List.mem_map_of_mem h
  obtain ⟨block, -, heq⟩ := List.mem_map.1 hmem
  exact ⟨block.source, heq.symm⟩

theorem isFileName_of_mem_chunks {blocks : List CodeBlock} {chunk : Chunk}
    (h : chunk ∈ chunks blocks) : Path.IsFileName chunk.fileName := by
  obtain ⟨document, heq⟩ := exists_of_mem_chunks h
  rw [heq]
  exact isFileName_generatedFileName document

theorem mem_supplements {files : List Path} {file : Path} :
    file ∈ supplements key files ↔ file ∈ files ∧ ∃ name, file.fileName? = some name ∧
      (Text.shown name = key ++ ".mbt" ∨ Text.shown name = baselineGroup ++ ".mbt") := by
  unfold supplements
  rw [List.mem_filter]
  refine and_congr_right fun _ => ?_
  simp only [and_or_left, exists_or, ← supplementaryStem?_eq_some_iff]
  cases supplementaryStem? file with
  | none => simp
  | some stem => simp

theorem exists_fileName?_of_mem_supplements {files : List Path} {file : Path}
    (h : file ∈ supplements key files) : ∃ name, file.fileName? = some name :=
  (mem_supplements.1 h).2.imp fun _ hname => hname.1

theorem suffix_of_mem_supplements {files : List Path} {file : Path} {name : String}
    (h : file ∈ supplements key files) (hname : file.fileName? = some name) :
    ".mbt".toList <:+ name.toList := by
  obtain ⟨-, own, hown, hshown⟩ := mem_supplements.1 h
  obtain rfl := Option.some.inj (hown.symm.trans hname)
  exact hshown.elim suffix_of_shown_eq suffix_of_shown_eq

/-- The supplementary sources of a group have the suffix of sources, which the descriptions have
not. -/
theorem ne_of_mem_supplements {files : List Path} {file : Path} {name other : String}
    (h : file ∈ supplements key files) (hname : file.fileName? = some name)
    (hother : ¬ ".mbt".toList <:+ other.toList) : other ≠ name := by
  rintro rfl
  exact hother (suffix_of_mem_supplements h hname)

/-- In a group nothing but blocks is written to a place. -/
structure Spares (options : ProjectOptions) (base : Location) (key : String) (place : Location) :
    Prop where
  package : filePlace base key packageFile.text ≠ place
  supplement {file : Path} {name : String} : file ∈ supplements key options.complementary →
    file.fileName? = some name → filePlace base key name ≠ place

/-- No supplementary source has the name of a generated file. -/
def KeepsApart (options : ProjectOptions) : Prop :=
  ∀ file ∈ options.complementary, ∀ name, file.fileName? = some name → ¬ IsGenerated name

/-- The world after the notice that an empty key gets. -/
def noted (key : String) (world : World) : World :=
  if key.isEmpty then { world with notices := world.notices ++ [.emptyKeyInRoot] } else world

theorem disk_noted (key : String) (world : World) : (noted key world).disk = world.disk := by
  unfold noted
  split <;> rfl

/-- What writing a group goes through. -/
theorem gives_writeGroup {options : ProjectOptions} {blocks : List CodeBlock}
    {summary : GroupSummary} :
    Gives (writeGroup cwd root options key blocks) before summary after ↔
      ∃ (directory : Path) (made written described : World) (copied : List Path),
        groupDirectory root key = .ok directory ∧
        Gives (Run.onDisk (.materialize directory ∘ .system) (Disk.makeAll cwd directory))
          (noted key before) () made ∧
        Gives ((chunks blocks).forM (writeChunk cwd directory)) made ⟨⟩ written ∧
        Gives (changeFile (directory.join packageFile) (Disk.writeText cwd
          (directory.join packageFile) (Text.jsonObject [("warn-list", options.warnList)])))
          written () described ∧
        Gives ((supplements key options.complementary).mapM (copySupplement cwd directory))
          described copied after ∧
        summary = ⟨key, directory, blocks.length,
          (generatedNames blocks).map fun name => directory.join ⟨name⟩, copied⟩ := by
  unfold writeGroup
  extract_lets rest
  have hnoted : ∀ result,
      Gives (if key.isEmpty then Run.notify [.emptyKeyInRoot] >>= rest else rest ()) before result
        after ↔ Gives (rest ()) (noted key before) result after := by
    intro result
    unfold noted
    split
    · rw [Run.gives_bind]
      constructor
      · rintro ⟨⟨⟩, middle, hnotify, hrest⟩
        rwa [Run.gives_notify.1 hnotify] at hrest
      · intro hrest
        exact ⟨⟨⟩, _, Run.gives_notify.2 rfl, hrest⟩
    · exact Iff.rfl
  refine (hnoted summary).trans ?_
  dsimp only [rest]
  constructor
  · intro h
    obtain ⟨directory, middle, hkey, hgo⟩ := Run.gives_bind.1 h
    obtain ⟨hdirectory, rfl⟩ := Run.gives_ofExcept.1 hkey
    obtain ⟨⟨⟩, made, hmade, hgo⟩ := Run.gives_bind.1 hgo
    obtain ⟨⟨⟩, written, hwritten, hgo⟩ := Run.gives_bind.1 hgo
    obtain ⟨⟨⟩, described, hdescribed, hgo⟩ := Run.gives_bind.1 hgo
    obtain ⟨copied, last, hcopied, hpure⟩ := Run.gives_bind.1 hgo
    obtain ⟨rfl, rfl⟩ := Run.gives_pure.1 hpure
    exact ⟨directory, made, written, described, copied, hdirectory, hmade, hwritten, hdescribed,
      hcopied, rfl⟩
  · rintro ⟨directory, made, written, described, copied, hdirectory, hmade, hwritten, hdescribed,
      hcopied, rfl⟩
    refine Run.gives_bind.2 ⟨directory, _, Run.gives_ofExcept.2 ⟨hdirectory, rfl⟩, ?_⟩
    refine Run.gives_bind.2 ⟨(), made, hmade, ?_⟩
    refine Run.gives_bind.2 ⟨⟨⟩, written, hwritten, ?_⟩
    refine Run.gives_bind.2 ⟨(), described, hdescribed, ?_⟩
    exact Run.gives_bind.2 ⟨copied, after, hcopied, Run.gives_pure.2 ⟨rfl, rfl⟩⟩

/-- The text that a group adds to what a place holds. -/
def groupText (base : Location) (key : String) (blocks : List CodeBlock) (place : Location) :
    String :=
  String.join <| blocks.map fun block =>
    chunkText base key (generatedFileName block.source) block place

/-- The generated files of a group. -/
def groupFiles (base : Location) (root : Path) (key : String) (blocks : List CodeBlock) :
    List (Path × Location) :=
  blocks.map fun block => groupFile base (root.join ⟨key⟩) key (generatedFileName block.source)

theorem appends_of_written {blocks : List CodeBlock} {made written : World}
    (hosts : before.disk.Hosts cwd root base)
    (hdirectory : groupDirectory root key = .ok directory)
    (hmade : Gives (Run.onDisk (.materialize directory ∘ .system) (Disk.makeAll cwd directory))
      (noted key before) () made)
    (hwritten : Gives ((chunks blocks).forM (writeChunk cwd directory)) made ⟨⟩ written) :
    Appends cwd place before.disk written.disk (groupText base key blocks place)
      (groupFiles base root key blocks) := by
  obtain rfl := (groupDirectory_eq_ok hdirectory).1
  have hmade := (Run.gives_onDisk.1 hmade).1
  rw [disk_noted] at hmade
  -- the directory
  have hfirst : Appends cwd place before.disk made.disk "" [] :=
    .of_addsDirectories (Disk.addsDirectories_of_makeAll hmade)
  have hosts := hosts.of_grows hfirst.grows
  -- the blocks
  obtain ⟨units, hwritten⟩ := Run.gives_forM.1 hwritten
  have hsecond : Appends cwd place made.disk written.disk (groupText base key blocks place)
      (groupFiles base root key blocks) := by
    unfold groupText groupFiles
    rw [← map_layOut (fun name block => chunkText base key name block place) (fun _ => 0),
      ← map_layOut (fun name _ => groupFile base (root.join ⟨key⟩) key name) (fun _ => 0),
      List.map_eq_flatMap
        (f := fun chunk : Chunk => groupFile base (root.join ⟨key⟩) key chunk.fileName)]
    exact Appends.of_mapM (fun chunk hchunk _ _ _ hosts h =>
      appends_of_writeChunk hdirectory (isFileName_of_mem_chunks hchunk) hosts h) hosts hwritten
  have hall := hfirst.trans hsecond
  rwa [List.nil_append, String.empty_append] at hall

theorem writesFile_of_described {package : String} {described : World}
    (hosts : before.disk.Hosts cwd root base)
    (hdirectory : groupDirectory root key = .ok directory)
    (hdescribed : Gives (changeFile (directory.join packageFile) (Disk.writeText cwd
      (directory.join packageFile) package)) before () described) :
    before.disk.WritesFile described.disk (filePlace base key packageFile.text)
      package.toUTF8 := by
  obtain ⟨found, hlocate, -, hwrites⟩ :=
    Disk.writesFile_of_writeBytes (gives_changeFile.1 hdescribed).1
  rwa [location_of_file hosts hdirectory isFileName_packageFile hlocate] at hwrites

/-- What a group adds before its supplementary sources are copied. -/
theorem appends_of_described (hpackage : filePlace base key packageFile.text ≠ place)
    {blocks : List CodeBlock} {package : String} {made written described : World}
    (hosts : before.disk.Hosts cwd root base)
    (hdirectory : groupDirectory root key = .ok directory)
    (hmade : Gives (Run.onDisk (.materialize directory ∘ .system) (Disk.makeAll cwd directory))
      (noted key before) () made)
    (hwritten : Gives ((chunks blocks).forM (writeChunk cwd directory)) made ⟨⟩ written)
    (hdescribed : Gives (changeFile (directory.join packageFile) (Disk.writeText cwd
      (directory.join packageFile) package)) written () described) :
    Appends cwd place before.disk described.disk (groupText base key blocks place)
      (groupFiles base root key blocks) := by
  have hfirst : Appends cwd place before.disk written.disk (groupText base key blocks place)
      (groupFiles base root key blocks) := appends_of_written hosts hdirectory hmade hwritten
  have hlast : Appends cwd place written.disk described.disk "" [] :=
    .of_writesFile (writesFile_of_described (hosts.of_grows hfirst.grows) hdirectory hdescribed)
      hpackage
  have hall := hfirst.trans hlast
  rwa [List.append_nil, String.append_empty] at hall

/-- Copying the supplementary sources adds nothing to a place that none of them is copied to. -/
theorem appends_of_copied {options : ProjectOptions}
    (hplace : ∀ file ∈ supplements key options.complementary, ∀ name, file.fileName? = some name →
      filePlace base key name ≠ place) {copied : List Path} (hosts : before.disk.Hosts cwd root base)
    (hdirectory : groupDirectory root key = .ok directory)
    (h : Gives ((supplements key options.complementary).mapM (copySupplement cwd directory))
      before copied after) : Appends cwd place before.disk after.disk "" [] := by
  have hall : Appends cwd place before.disk after.disk
      (String.join ((supplements key options.complementary).map fun _ => ""))
      ((supplements key options.complementary).flatMap fun _ => []) := by
    refine Appends.of_mapM (fun file hfile _ _ _ hosts h => ?_) hosts h
    obtain ⟨name, hname⟩ := exists_fileName?_of_mem_supplements hfile
    obtain ⟨_, _, _, -, hwrites⟩ := writesFile_of_copySupplement hdirectory hname hosts h
    exact .of_writesFile hwrites (hplace file hfile name hname)
  rwa [Text.join_map_eq_empty fun _ _ => rfl, List.flatMap_eq_nil_iff.2 fun _ _ => rfl] at hall

theorem appends_of_writeGroup {options : ProjectOptions} (hspares : Spares options base key place)
    {blocks : List CodeBlock} {summary : GroupSummary} (hosts : before.disk.Hosts cwd root base)
    (h : Gives (writeGroup cwd root options key blocks) before summary after) :
    Appends cwd place before.disk after.disk (groupText base key blocks place)
      (groupFiles base root key blocks) := by
  obtain ⟨directory, made, written, described, copied, hdirectory, hmade, hwritten, hdescribed,
    hcopied, -⟩ := gives_writeGroup.1 h
  have hfirst := appends_of_described hspares.package hosts hdirectory hmade hwritten hdescribed
  have hsecond := appends_of_copied (fun _ hfile _ hname => hspares.supplement hfile hname)
    (hosts.of_grows hfirst.grows) hdirectory hcopied
  have hall := hfirst.trans hsecond
  rwa [String.append_empty, List.append_nil] at hall

/-- The files of a group of one block, put in a directory. -/
def putGroup (disk : Disk) (place : Location) (options : ProjectOptions) (block : CodeBlock) :
    Disk :=
  (disk.put (place ++ [generatedFileName block.source]) (.file block.text.toUTF8 false)).put
    (place ++ [packageFile.text])
    (.file (Text.jsonObject [("warn-list", options.warnList)]).toUTF8 false)

theorem gives_writeGroup_singleton {options : ProjectOptions} {block : CodeBlock}
    {made written described : Disk} (hkey : key.isEmpty = false)
    (hsupplements : supplements key options.complementary = [])
    (hdirectory : groupDirectory root key = .ok directory)
    (hmade : (Disk.makeAll cwd directory).Gives before.disk () made)
    (hwritten : Disk.appendText cwd (directory.join ⟨generatedFileName block.source⟩) block.text
      made = .ok written)
    (hdescribed : Disk.writeText cwd (directory.join packageFile)
      (Text.jsonObject [("warn-list", options.warnList)]) written = .ok described) :
    ∃ summary, Gives (writeGroup cwd root options key [block]) before summary
      ⟨described, before.notices⟩ := by
  have hnoted : noted key before = before := by
    unfold noted
    rw [hkey, if_neg Bool.false_ne_true]
  have hchunk : Gives (writeChunk cwd directory ⟨generatedFileName block.source, 0, block⟩)
      ⟨made, before.notices⟩ () ⟨written, before.notices⟩ := gives_changeFile.2 ⟨hwritten, rfl⟩
  refine ⟨_, gives_writeGroup.2 ⟨directory, ⟨made, before.notices⟩, ⟨written, before.notices⟩,
    ⟨described, before.notices⟩, [], hdirectory, ?_,
    Run.gives_forM_cons.2 ⟨_, hchunk, Run.gives_forM_nil.2 rfl⟩,
    gives_changeFile.2 ⟨hdescribed, rfl⟩, ?_, rfl⟩⟩
  · rw [hnoted]
    exact Run.gives_onDisk.2 ⟨hmade, rfl⟩
  · rw [hsupplements]
    exact Run.gives_mapM_nil.2 ⟨rfl, rfl⟩

end Group

/-! ## The whole project -/

section Project

variable {cwd base : Location} {root : Path} {table : GroupTable} {options : ProjectOptions}
  {before after : World} {tree : ProjectTree}

/-- What writing a project goes through. -/
theorem gives_writeProject :
    Gives (writeProject cwd table root options) before tree after ↔
      ∃ (groups : List GroupSummary) (written : World),
        Gives (table.keys.mapM fun key => writeGroup cwd root options key (table.effective key))
          before groups written ∧
        Gives (changeFile (root.join moduleFile) (Disk.writeText cwd (root.join moduleFile)
          (Text.jsonObject
            [("name", options.moduleConfig.name), ("version", options.moduleConfig.version)])))
          written () after ∧
        tree = ⟨root, groups, ⟨table.segments, outputName? before.disk cwd root⟩⟩ := by
  unfold writeProject
  constructor
  · intro h
    obtain ⟨disk, middle, hdisk, hgo⟩ := Run.gives_bind.1 h
    obtain ⟨rfl, rfl⟩ := Run.gives_disk.1 hdisk
    obtain ⟨groups, written, hwritten, hgo⟩ := Run.gives_bind.1 hgo
    obtain ⟨⟨⟩, last, hlast, hpure⟩ := Run.gives_bind.1 hgo
    obtain ⟨rfl, rfl⟩ := Run.gives_pure.1 hpure
    exact ⟨groups, written, hwritten, hlast, rfl⟩
  · rintro ⟨groups, written, hwritten, hlast, rfl⟩
    refine Run.gives_bind.2 ⟨before.disk, before, Run.gives_disk.2 ⟨rfl, rfl⟩, ?_⟩
    refine Run.gives_bind.2 ⟨groups, written, hwritten, ?_⟩
    exact Run.gives_bind.2 ⟨(), after, hlast, Run.gives_pure.2 ⟨rfl, rfl⟩⟩

theorem gives_writeProject_alone {key : String} {summary : GroupSummary} {written : World}
    {rootName? : Option String} (hkeys : table.keys = [key])
    (hname : outputName? before.disk cwd root = rootName?)
    (hgroup : Gives (writeGroup cwd root options key (table.effective key)) before summary written)
    (hmanifest : Gives (changeFile (root.join moduleFile) (Disk.writeText cwd (root.join moduleFile)
      (Text.jsonObject
        [("name", options.moduleConfig.name), ("version", options.moduleConfig.version)])))
      written () after) :
    Gives (writeProject cwd table root options) before
      ⟨root, [summary], ⟨table.segments, rootName?⟩⟩ after := by
  refine gives_writeProject.2 ⟨[summary], written, ?_, hmanifest, by rw [hname]⟩
  rw [hkeys]
  exact Run.gives_mapM_cons.2 ⟨_, _, _, hgroup, Run.gives_mapM_nil.2 ⟨rfl, rfl⟩, rfl⟩

theorem groupDirectory_of_writeProject
    (h : Gives (writeProject cwd table root options) before tree after) {key : String}
    (hkey : key ∈ table.keys) : groupDirectory root key = .ok (root.join ⟨key⟩) := by
  obtain ⟨groups, written, hgroups, -⟩ := gives_writeProject.1 h
  obtain ⟨summary, first, last, hgroup⟩ := Run.gives_of_mem hgroups hkey
  obtain ⟨directory, -, -, -, -, hdirectory, -⟩ := gives_writeGroup.1 hgroup
  obtain rfl := (groupDirectory_eq_ok hdirectory).1
  exact hdirectory

theorem writesFile_of_manifest {text : String} (hosts : before.disk.Hosts cwd root base)
    (h : Gives (changeFile (root.join moduleFile) (Disk.writeText cwd (root.join moduleFile) text))
      before () after) :
    before.disk.WritesFile after.disk (base ++ [moduleFile.text]) text.toUTF8 := by
  obtain ⟨found, hlocate, -, hwrites⟩ := Disk.writesFile_of_writeBytes (gives_changeFile.1 h).1
  have hfound : found.location = base ++ [moduleFile.text] :=
    hosts.location_eq ((Path.GoesOn.refl root).join rfl) (by decide) hlocate
  rwa [hfound] at hwrites

theorem appends_of_manifest {place : Location} {text : String}
    (hplace : base ++ [moduleFile.text] ≠ place) (hosts : before.disk.Hosts cwd root base)
    (h : Gives (changeFile (root.join moduleFile) (Disk.writeText cwd (root.join moduleFile) text))
      before () after) : Appends cwd place before.disk after.disk "" [] :=
  .of_writesFile (writesFile_of_manifest hosts h) hplace

theorem appends_of_writeProject {place : Location}
    (hspares : ∀ key ∈ table.keys, Spares options base key place)
    (hmodule : base ++ [moduleFile.text] ≠ place) (hosts : before.disk.Hosts cwd root base)
    (h : Gives (writeProject cwd table root options) before tree after) :
    Appends cwd place before.disk after.disk
      (String.join (table.keys.map fun key => groupText base key (table.effective key) place))
      (table.keys.flatMap fun key => groupFiles base root key (table.effective key)) := by
  obtain ⟨groups, written, hgroups, hmanifest, -⟩ := gives_writeProject.1 h
  have hfirst := Appends.of_mapM (fun key hkey _ _ _ hosts h =>
    appends_of_writeGroup (hspares key hkey) hosts h) hosts hgroups
  have hlast := appends_of_manifest hmodule (hosts.of_grows hfirst.grows) hmanifest
  have hall := hfirst.trans hlast
  rwa [String.append_empty, List.append_nil] at hall

theorem filePlace_inj {key key' name name' : String} :
    filePlace base key name = filePlace base key' name' ↔
      keyNames key = keyNames key' ∧ name = name' := by
  unfold filePlace
  constructor
  · intro h
    obtain ⟨hfront, hlast⟩ := List.append_inj' h rfl
    exact ⟨List.append_cancel_left hfront, by simpa using hlast⟩
  · rintro ⟨hkey, rfl⟩
    rw [hkey]

theorem groupText_self (key : String) (blocks : List CodeBlock) (name : String) :
    groupText base key blocks (filePlace base key name) = generatedText blocks name := by
  unfold groupText generatedText
  induction blocks with
  | nil => rfl
  | cons block others ih =>
    rw [List.map_cons, String.join_cons, ih]
    unfold chunkText
    by_cases hname : generatedFileName block.source = name
    · rw [if_pos (filePlace_inj.2 ⟨rfl, hname⟩), blocksOf_cons_of_eq hname, List.map_cons,
        String.join_cons]
    · rw [if_neg fun h => hname (filePlace_inj.1 h).2, blocksOf_cons_of_ne hname,
        String.empty_append]

/-- To the files of another directory a group adds nothing. -/
theorem groupText_of_ne {key key' : String} (hkeys : keyNames key ≠ keyNames key')
    (blocks : List CodeBlock) (name : String) :
    groupText base key blocks (filePlace base key' name) = "" := by
  unfold groupText
  refine Text.join_map_eq_empty fun block _ => ?_
  unfold chunkText
  exact if_neg fun h => hkeys (filePlace_inj.1 h).1

/-- The keys of a table spell different directories. -/
def GroupTable.KeysApart (table : GroupTable) : Prop :=
  ∀ a ∈ table.keys, ∀ b ∈ table.keys, (Path.mk a).components = (Path.mk b).components → a = b

theorem nodup_keys (table : GroupTable) : table.keys.Nodup := by
  unfold GroupTable.keys
  refine List.Pairwise.map _ (fun a b hlt heq => ?_) table.sorted
  rw [heq] at hlt
  exact String.lt_irrefl _ hlt

theorem keyNames_ne (hkeys : table.KeysApart)
    (h : Gives (writeProject cwd table root options) before tree after) {key other : String}
    (hkey : key ∈ table.keys) (hother : other ∈ table.keys) (hne : other ≠ key) :
    keyNames other ≠ keyNames key := by
  have hspelled : ∀ k ∈ table.keys, (Path.mk k).components = (keyNames k).map .name :=
    fun k hk => (groupDirectory_eq_ok (groupDirectory_of_writeProject h hk)).2.2.2
  intro hsame
  apply hne
  apply hkeys other hother key hkey
  rw [hspelled other hother, hspelled key hkey, hsame]

theorem append_ne_filePlace {directory : Location} {other key name : String} (h : other ≠ name) :
    directory ++ [other] ≠ filePlace base key name := by
  intro heq
  unfold filePlace at heq
  exact h (by simpa using (List.append_inj' heq rfl).2)

theorem filePlace_ne_of_isGenerated {directory : Location} {other key name : String}
    (hname : IsGenerated name) (hother : ¬ IsGenerated other) :
    directory ++ [other] ≠ filePlace base key name := by
  refine append_ne_filePlace ?_
  rintro rfl
  exact hother hname

/-- No supplementary source is copied to a file of a key's directory, by the group of the key or by
another with its directory. -/
def GroupTable.Uncopied (table : GroupTable) (options : ProjectOptions) (key name : String) :
    Prop :=
  ∀ other ∈ table.keys, keyNames other = keyNames key →
    ∀ file ∈ supplements other options.complementary, file.fileName? ≠ some name

theorem uncopied_of_keepsApart (hoptions : KeepsApart options) (key : String) {name : String}
    (hname : IsGenerated name) : table.Uncopied options key name :=
  fun _ _ _ file hfile hfileName =>
    hoptions file (mem_supplements.1 hfile).1 name hfileName hname

theorem GroupTable.Uncopied.spares {key name : String} (h : table.Uncopied options key name)
    (hname : IsGenerated name) {other : String} (hother : other ∈ table.keys) :
    Spares options base other (filePlace base key name) where
  package := filePlace_ne_of_isGenerated hname not_isGenerated_packageFile
  supplement hfile hfileName heq := by
    obtain ⟨hkeys, rfl⟩ := filePlace_inj.1 heq
    exact h other hother hkeys _ hfile hfileName

theorem isGenerated_of_mem_generatedNames {blocks : List CodeBlock} {name : String}
    (h : name ∈ generatedNames blocks) : IsGenerated name := by
  obtain ⟨block, -, rfl⟩ := mem_generatedNames.1 h
  exact isGenerated_generatedFileName block.source

theorem isUtf8_of_mem_generatedNames {blocks : List CodeBlock} {name : String}
    (h : name ∈ generatedNames blocks) : Text.isUtf8 name = true := by
  obtain ⟨block, -, rfl⟩ := mem_generatedNames.1 h
  exact isUtf8_generatedFileName block.source

theorem isFileName_of_mem_generatedNames {blocks : List CodeBlock} {name : String}
    (h : name ∈ generatedNames blocks) : Path.IsFileName name := by
  obtain ⟨block, -, rfl⟩ := mem_generatedNames.1 h
  exact isFileName_generatedFileName block.source

/-- In a project written below an empty root, a generated file to which nothing is copied holds the
texts that the groups of its directory have for it, in the order of their keys. -/
theorem lookup_of_uncopied (hosts : before.disk.Hosts cwd root base)
    (hbelow : ∀ names, names ≠ [] → before.disk.entryAt? (base ++ names) = none)
    (h : Gives (writeProject cwd table root options) before tree after) {key name : String}
    (huncopied : table.Uncopied options key name)
    (hkey : key ∈ table.keys) (hname : name ∈ generatedNames (table.effective key)) :
    ∃ executable, after.disk.lookup cwd ((root.join ⟨key⟩).join ⟨name⟩) =
      .ok (filePlace base key name, .file (String.join (table.keys.map fun other =>
        if keyNames other = keyNames key then generatedText (table.effective other) name
        else "")).toUTF8 executable) := by
  have hgenerated := isGenerated_of_mem_generatedNames hname
  have happends := appends_of_writeProject (fun other => huncopied.spares hgenerated)
    (filePlace_ne_of_isGenerated hgenerated not_isGenerated_moduleFile) hosts h
  -- the path leads to the file's place
  obtain ⟨content, executable, hlookup⟩ :
      LeadsToFile after.disk cwd ((root.join ⟨key⟩).join ⟨name⟩) (filePlace base key name) := by
    obtain ⟨block, hblock, rfl⟩ := mem_generatedNames.1 hname
    have hfile : ((root.join ⟨key⟩).join ⟨generatedFileName block.source⟩,
        filePlace base key (generatedFileName block.source)) ∈
          groupFiles base root key (table.effective key) := List.mem_map.2 ⟨block, hblock, rfl⟩
    have hleads := happends.leads _ (List.mem_flatMap.2 ⟨key, hkey, hfile⟩)
    dsimp only at hleads
    exact hleads
  have hentry := Disk.entryAt?_of_lookup_file hlookup
  -- where nothing stood before, and each group of the directory adds its text
  have hbefore : before.disk.entryAt? (filePlace base key name) = none := by
    unfold filePlace
    rw [List.append_assoc]
    exact hbelow _ (by simp)
  have hadds : ∀ other, groupText base other (table.effective other) (filePlace base key name) =
      if keyNames other = keyNames key then generatedText (table.effective other) name else "" := by
    intro other
    by_cases hother : keyNames other = keyNames key
    · have hplace : filePlace base key name = filePlace base other name :=
        filePlace_inj.2 ⟨hother.symm, rfl⟩
      rw [if_pos hother, hplace, groupText_self]
    · rw [if_neg hother, groupText_of_ne hother]
  have hheld := happends.holds
  rw [Disk.holds_of_entryAt?_eq_none hbefore, ByteArray.empty_append,
    Disk.holds_of_entryAt?_eq_file hentry] at hheld
  simp only [hadds] at hheld
  exact ⟨executable, by rw [hlookup, hheld]⟩

/-- So it is for all generated files when no supplementary source has the name of one. -/
theorem lookup_of_writeProject (hosts : before.disk.Hosts cwd root base)
    (hbelow : ∀ names, names ≠ [] → before.disk.entryAt? (base ++ names) = none)
    (hoptions : KeepsApart options)
    (h : Gives (writeProject cwd table root options) before tree after) {key name : String}
    (hkey : key ∈ table.keys) (hname : name ∈ generatedNames (table.effective key)) :
    ∃ executable, after.disk.lookup cwd ((root.join ⟨key⟩).join ⟨name⟩) =
      .ok (filePlace base key name, .file (String.join (table.keys.map fun other =>
        if keyNames other = keyNames key then generatedText (table.effective other) name
        else "")).toUTF8 executable) :=
  lookup_of_uncopied hosts hbelow h
    (uncopied_of_keepsApart hoptions key (isGenerated_of_mem_generatedNames hname)) hkey hname

/-- When the keys spell different directories, the file holds the text of its group's blocks, and
nothing else. -/
theorem lookup_of_keysApart_of_uncopied (hosts : before.disk.Hosts cwd root base)
    (hbelow : ∀ names, names ≠ [] → before.disk.entryAt? (base ++ names) = none)
    (hkeys : table.KeysApart)
    (h : Gives (writeProject cwd table root options) before tree after) {key name : String}
    (huncopied : ∀ file ∈ supplements key options.complementary, file.fileName? ≠ some name)
    (hkey : key ∈ table.keys) (hname : name ∈ generatedNames (table.effective key)) :
    ∃ executable, after.disk.lookup cwd ((root.join ⟨key⟩).join ⟨name⟩) =
      .ok (filePlace base key name,
        .file (generatedText (table.effective key) name).toUTF8 executable) := by
  have hdirectories : table.Uncopied options key name := by
    intro other hother hnames
    obtain rfl : other = key :=
      Decidable.byContradiction fun hne => keyNames_ne hkeys h hkey hother hne hnames
    exact huncopied
  obtain ⟨executable, hlookup⟩ := lookup_of_uncopied hosts hbelow h hdirectories hkey hname
  refine ⟨executable, ?_⟩
  rw [hlookup, Text.join_map_eq_of_forall_ne (nodup_keys table) hkey fun other hother hne =>
    if_neg (keyNames_ne hkeys h hkey hother hne), if_pos rfl]

theorem lookup_of_keysApart (hosts : before.disk.Hosts cwd root base)
    (hbelow : ∀ names, names ≠ [] → before.disk.entryAt? (base ++ names) = none)
    (hkeys : table.KeysApart) (hoptions : KeepsApart options)
    (h : Gives (writeProject cwd table root options) before tree after) {key name : String}
    (hkey : key ∈ table.keys) (hname : name ∈ generatedNames (table.effective key)) :
    ∃ executable, after.disk.lookup cwd ((root.join ⟨key⟩).join ⟨name⟩) =
      .ok (filePlace base key name,
        .file (generatedText (table.effective key) name).toUTF8 executable) :=
  lookup_of_keysApart_of_uncopied hosts hbelow hkeys h
    (uncopied_of_keepsApart hoptions key (isGenerated_of_mem_generatedNames hname) key hkey rfl)
    hkey hname

theorem textAt_of_writeProject (hroot : before.disk.LeadsToEmpty cwd root)
    (hkeys : table.KeysApart) (hoptions : KeepsApart options)
    (h : Gives (writeProject cwd table root options) before tree after) {key name : String}
    (hkey : key ∈ table.keys) (hname : name ∈ generatedNames (table.effective key)) :
    after.disk.textAt cwd ((root.join ⟨key⟩).join ⟨name⟩) =
      .ok (generatedText (table.effective key) name) := by
  obtain ⟨base, hosts, hbelow⟩ := hroot.hosts
  obtain ⟨executable, hlookup⟩ := lookup_of_keysApart hosts hbelow hkeys hoptions h hkey hname
  exact Disk.textAt_of_lookup hlookup

end Project

end LiterateCheck
