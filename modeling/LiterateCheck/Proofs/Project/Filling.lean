import LiterateCheck.Proofs.Project.Writing

/-!
# Which files a project has

For a root that leads to a directory without links below.

1. Each step of writing a group puts a file at one place at most, and apart from that makes
   directories only (`Fills`).
2. So a group fills the places of its own files (`fills_of_writeGroup`): its blocks' files, its
   package description and its supplementary sources.
3. A project fills those of its groups and the place of its module description
   (`fills_of_writeProject`).
-/

namespace LiterateCheck

open Run (Gives)

/-- A file stands at a location. -/
def Disk.HasFile (disk : Disk) (l : Location) : Prop :=
  ∃ content executable, disk.entryAt? l = some (.file content executable)

/-- Nothing goes, the new files are those at some places, and their paths lead there. -/
structure Fills (cwd : Location) (before after : Disk) (files : List (Path × Location)) :
    Prop where
  grows : before.Grows after
  hasFile_iff {l : Location} : after.HasFile l ↔ before.HasFile l ∨ ∃ file ∈ files, file.2 = l
  leads : ∀ file ∈ files, LeadsToFile after cwd file.1 file.2

namespace Fills

variable {cwd : Location}

theorem refl (cwd : Location) (disk : Disk) : Fills cwd disk disk [] where
  grows := .refl disk
  hasFile_iff := by simp
  leads := by simp

theorem trans {a b c : Disk} {files files' : List (Path × Location)}
    (hab : Fills cwd a b files) (hbc : Fills cwd b c files') : Fills cwd a c (files ++ files') where
  grows := hab.grows.trans hbc.grows
  hasFile_iff := by
    intro l
    rw [hbc.hasFile_iff, hab.hasFile_iff, or_assoc]
    simp only [List.mem_append, or_and_right, exists_or]
  leads file hfile := by
    rcases List.mem_append.1 hfile with hfile | hfile
    · exact (hab.leads file hfile).of_grows hbc.grows
    · exact hbc.leads file hfile

theorem of_makeDirectory {path : Path} {before after : Disk}
    (h : Disk.makeDirectory cwd path before = .ok after) : Fills cwd before after [] where
  grows := (Disk.addsDirectories_of_makeDirectory h).grows
  hasFile_iff := by
    intro l
    obtain ⟨place, hplace, rfl⟩ := Disk.makeDirectory_eq_ok h
    unfold Disk.HasFile
    by_cases hl : l = place
    · subst hl
      rw [hplace, Disk.entryAt?_put_self before _ (Disk.ne_nil_of_entryAt?_eq_none hplace)]
      simp
    · rw [Disk.entryAt?_put_of_ne before _ hl]
      simp
  leads := by simp

theorem of_makeAll {path : Path} {before after : Disk}
    (h : (Disk.makeAll cwd path).Gives before () after) : Fills cwd before after [] :=
  Disk.makeAll_rel (refl cwd) trans of_makeDirectory h

theorem of_writesFile {path : Path} {found : Found} {content : ByteArray} {before after : Disk}
    (hlocate : before.locate cwd path = .ok found) (hfound : found.takesFile = true)
    (h : before.WritesFile after found.location content) :
    Fills cwd before after [(path, found.location)] where
  grows := h.grows
  hasFile_iff := by
    intro l
    obtain ⟨executable, hentry⟩ := h.written
    unfold Disk.HasFile
    by_cases hl : l = found.location
    · subst hl
      simp [hentry]
    · rw [h.elsewhere hl]
      simp [Ne.symm hl]
  leads := by
    obtain ⟨executable, hentry⟩ := h.written
    rw [List.forall_mem_singleton]
    exact ⟨_, executable, Disk.lookup_file_of_grows hlocate hfound h.grows hentry⟩

/-- Steps one after the other fill their places, when each does that from wherever the root still
leads to its directory. -/
theorem of_mapM {α β : Type} {root : Path} {base : Location} {step : α → Run β}
    {files : α → List (Path × Location)} {items : List α}
    (hstep : ∀ item ∈ items, ∀ (before after : World) (b : β),
      before.disk.Hosts cwd root base → Gives (step item) before b after →
        Fills cwd before.disk after.disk (files item))
    {before after : World} {bs : List β} (hosts : before.disk.Hosts cwd root base)
    (h : Gives (items.mapM step) before bs after) :
    Fills cwd before.disk after.disk (items.flatMap files) := by
  refine Run.gives_mapM_rel (fun items before after => before.disk.Hosts cwd root base →
    Fills cwd before.disk after.disk (items.flatMap files)) ?_ ?_ h hosts
  · intro world _
    exact refl cwd world.disk
  · intro item hitem others before middle after b hfirst hothers hosts
    have hfill := hstep item hitem before middle b hosts hfirst
    rw [List.flatMap_cons]
    exact hfill.trans (hothers (hosts.of_grows hfill.grows))

end Fills

/-! ## A group -/

section Group

variable {cwd base : Location} {root directory : Path} {key : String} {before after : World}

theorem fills_of_writesFile (hosts : before.disk.Hosts cwd root base)
    (hdirectory : groupDirectory root key = .ok directory) {name : String}
    (hname : Path.IsFileName name) {found : Found} {content : ByteArray}
    (hlocate : before.disk.locate cwd (directory.join ⟨name⟩) = .ok found)
    (hfound : found.takesFile = true)
    (h : before.disk.WritesFile after.disk found.location content) :
    Fills cwd before.disk after.disk [groupFile base directory key name] := by
  have hfills := Fills.of_writesFile hlocate hfound h
  rwa [location_of_file hosts hdirectory hname hlocate] at hfills

theorem fills_of_writeChunk (hdirectory : groupDirectory root key = .ok directory) {chunk : Chunk}
    (hname : Path.IsFileName chunk.fileName) (hosts : before.disk.Hosts cwd root base)
    (h : Gives (writeChunk cwd directory chunk) before () after) :
    Fills cwd before.disk after.disk [groupFile base directory key chunk.fileName] := by
  obtain ⟨found, hlocate, hfound, hwrites⟩ := Disk.writesFile_of_writeBytes (gives_changeFile.1 h).1
  exact fills_of_writesFile hosts hdirectory hname hlocate hfound hwrites

theorem fills_of_copySupplement (hdirectory : groupDirectory root key = .ok directory)
    {files : List Path} {file copied : Path} (hfile : file ∈ supplements key files)
    (hosts : before.disk.Hosts cwd root base)
    (h : Gives (copySupplement cwd directory file) before copied after) :
    Fills cwd before.disk after.disk
      [groupFile base directory key (file.fileName?.getD "")] := by
  obtain ⟨name, hname⟩ := exists_fileName?_of_mem_supplements hfile
  obtain ⟨found, content, hlocate, hfound, hwrites⟩ :=
    Disk.writesFile_of_copyFile (gives_copySupplement.1 h).1
  rw [hname, Option.getD_some] at hlocate ⊢
  exact fills_of_writesFile hosts hdirectory (Path.isFileName_of_fileName? hname) hlocate hfound
    hwrites

/-- The names under which a group's files are written, in order. -/
def writtenNames (options : ProjectOptions) (key : String) (blocks : List CodeBlock) :
    List String :=
  blocks.map (fun block => generatedFileName block.source) ++ packageFile.text ::
    (supplements key options.complementary).map fun file => file.fileName?.getD ""

/-- The files of a group: those of its blocks, its package description and its supplementary
sources. -/
theorem mem_writtenNames {options : ProjectOptions} {blocks : List CodeBlock} {name : String} :
    name ∈ writtenNames options key blocks ↔
      name = packageFile.text ∨ name ∈ generatedNames blocks ∨
        ∃ file ∈ options.complementary, file.fileName? = some name ∧
          (Text.shown name = key ++ ".mbt" ∨ Text.shown name = baselineGroup ++ ".mbt") := by
  have hsupplements : (∃ file ∈ supplements key options.complementary,
      file.fileName?.getD "" = name) ↔
        ∃ file ∈ options.complementary, file.fileName? = some name ∧
          (Text.shown name = key ++ ".mbt" ∨ Text.shown name = baselineGroup ++ ".mbt") := by
    constructor
    · rintro ⟨file, hfile, rfl⟩
      obtain ⟨hmem, own, hown, hshown⟩ := mem_supplements.1 hfile
      rw [hown, Option.getD_some]
      exact ⟨file, hmem, hown, hshown⟩
    · rintro ⟨file, hmem, hname, hshown⟩
      exact ⟨file, mem_supplements.2 ⟨hmem, name, hname, hshown⟩, by rw [hname, Option.getD_some]⟩
  unfold writtenNames
  rw [List.mem_append, List.mem_cons, List.mem_map, List.mem_map, hsupplements,
    mem_generatedNames, or_left_comm]

theorem mem_writtenNames_of_mem_supplements {options : ProjectOptions} {blocks : List CodeBlock}
    {file : Path} {name : String} (h : file ∈ supplements key options.complementary)
    (hname : file.fileName? = some name) : name ∈ writtenNames options key blocks := by
  have hgetD : file.fileName?.getD "" = name := by rw [hname, Option.getD_some]
  exact List.mem_append_right _ (List.mem_cons_of_mem _ (List.mem_map.2 ⟨file, h, hgetD⟩))

theorem fills_of_writeGroup {options : ProjectOptions} {blocks : List CodeBlock}
    {summary : GroupSummary} (hosts : before.disk.Hosts cwd root base)
    (h : Gives (writeGroup cwd root options key blocks) before summary after) :
    Fills cwd before.disk after.disk
      ((writtenNames options key blocks).map (groupFile base (root.join ⟨key⟩) key)) := by
  obtain ⟨directory, made, written, described, copied, hdirectory, hmade, hwritten, hdescribed,
    hcopied, -⟩ := gives_writeGroup.1 h
  obtain rfl := (groupDirectory_eq_ok hdirectory).1
  have hmade := (Run.gives_onDisk.1 hmade).1
  rw [disk_noted] at hmade
  -- the directory
  have hfirst := Fills.of_makeAll hmade
  have hosts := hosts.of_grows hfirst.grows
  -- the blocks
  obtain ⟨units, hwritten⟩ := Run.gives_forM.1 hwritten
  have hsecond := Fills.of_mapM (fun chunk hchunk _ _ _ hosts h =>
    fills_of_writeChunk hdirectory (isFileName_of_mem_chunks hchunk) hosts h) hosts hwritten
  have hosts := hosts.of_grows hsecond.grows
  -- the package description
  obtain ⟨found, hlocate, hfound, hwrites⟩ :=
    Disk.writesFile_of_writeBytes (gives_changeFile.1 hdescribed).1
  have hthird := fills_of_writesFile hosts hdirectory isFileName_packageFile hlocate hfound hwrites
  have hosts := hosts.of_grows hthird.grows
  -- the supplementary sources
  have hfourth := Fills.of_mapM (fun file hfile _ _ _ hosts h =>
    fills_of_copySupplement hdirectory hfile hosts h) hosts hcopied
  have hblocks : (chunks blocks).flatMap (fun chunk =>
      [groupFile base (root.join ⟨key⟩) key chunk.fileName]) =
        blocks.map fun block =>
          groupFile base (root.join ⟨key⟩) key (generatedFileName block.source) := by
    rw [← map_layOut (fun name _ => groupFile base (root.join ⟨key⟩) key name) (fun _ => 0),
      List.map_eq_flatMap]
    rfl
  have hfills := ((hfirst.trans hsecond).trans hthird).trans hfourth
  rw [hblocks, ← List.map_eq_flatMap] at hfills
  simpa [writtenNames, Function.comp_def] using hfills

end Group

/-! ## The whole project -/

section Project

variable {cwd base : Location} {root : Path} {table : GroupTable} {options : ProjectOptions}
  {before after : World} {tree : ProjectTree}

theorem fills_of_writeProject (hosts : before.disk.Hosts cwd root base)
    (h : Gives (writeProject cwd table root options) before tree after) :
    Fills cwd before.disk after.disk
      ((table.keys.flatMap fun key => (writtenNames options key (table.effective key)).map
        (groupFile base (root.join ⟨key⟩) key)) ++
          [(root.join moduleFile, base ++ [moduleFile.text])]) := by
  obtain ⟨groups, written, hgroups, hmanifest, -⟩ := gives_writeProject.1 h
  have hfirst := Fills.of_mapM (fun key _ _ _ _ hosts h => fills_of_writeGroup hosts h) hosts
    hgroups
  have hosts := hosts.of_grows hfirst.grows
  obtain ⟨found, hlocate, hfound, hwrites⟩ :=
    Disk.writesFile_of_writeBytes (gives_changeFile.1 hmanifest).1
  have hplace : found.location = base ++ [moduleFile.text] :=
    hosts.location_eq ((Path.GoesOn.refl root).join rfl) (by decide) hlocate
  have hlast := Fills.of_writesFile hlocate hfound hwrites
  rw [hplace] at hlast
  exact hfirst.trans hlast

theorem leadsToFile_of_writeProject (hosts : before.disk.Hosts cwd root base)
    (h : Gives (writeProject cwd table root options) before tree after) {key name : String}
    (hkey : key ∈ table.keys) (hname : name ∈ writtenNames options key (table.effective key)) :
    LeadsToFile after.disk cwd ((root.join ⟨key⟩).join ⟨name⟩) (filePlace base key name) := by
  have hmem : groupFile base (root.join ⟨key⟩) key name ∈
      table.keys.flatMap fun key => (writtenNames options key (table.effective key)).map
        (groupFile base (root.join ⟨key⟩) key) :=
    List.mem_flatMap.2 ⟨key, hkey, List.mem_map_of_mem hname⟩
  have hleads := (fills_of_writeProject hosts h).leads _ (List.mem_append_left _ hmem)
  exact hleads

end Project

end LiterateCheck
