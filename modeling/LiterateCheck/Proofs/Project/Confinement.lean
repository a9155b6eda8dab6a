import LiterateCheck.Proofs.Disk.Confining
import LiterateCheck.Proofs.Project.Filling
import LiterateCheck.Proofs.Project.Resolving
import LiterateCheck.Proofs.Run.Ending

/-!
# A project is written below its root only

However the writing of a project ends, what does not lie below the directory of its root is as it
was, and an error can only be one of writing (`ends_writeProject`).

1. What is kept by every directory that is made and every file that is written on behalf of a
   project (`KeptBelow`) is kept by the writing of the whole.
2. Each of these steps is looked at from a disk on which the root hosts the project: no link stands
   below its directory, so a key, a file name or the name of a supplementary source can lead nowhere
   else (`keptBelow_staysBelow`).
-/

namespace LiterateCheck

open Run (Ends Gives)

/-- The error of a project that could not be written. -/
def IsMaterialize (error : CheckError) : Prop :=
  ∃ path reason, error = .materialize path reason

/-! ## The steps of a project -/

/-- A relation between disks that is kept by all that the writing of a project to a root does: by
making a directory that the root's path goes on to without going up, and by writing a file there,
under a name that the files of a project have. -/
structure KeptBelow (cwd : Location) (root : Path) (R : Disk → Disk → Prop) : Prop where
  refl (disk : Disk) : R disk disk
  trans (a b c : Disk) : R a b → R b c → R a c
  directory {more : List String} {directory : Path} : root.GoesOn more directory → ".." ∉ more →
    ∀ disk, R disk ((Disk.makeAll cwd directory).run.run disk).2
  file {more : List String} {directory : Path} {name : String} {found : Found}
    {content : ByteArray} {before after : Disk} : root.GoesOn more directory → ".." ∉ more →
    Path.IsFileName name → IsWritten name →
    before.locate cwd (directory.join ⟨name⟩) = .ok found → found.takesFile = true →
    before.WritesFile after found.location content → R before after

theorem ends_changeFile {R : Disk → Disk → Prop} (refl : ∀ disk, R disk disk) {path : Path}
    {step : Disk → Except SystemError Disk}
    (hstep : ∀ before after, step before = .ok after → R before after) :
    Ends R IsMaterialize (changeFile path step) := by
  refine Run.ends_onDisk (fun disk => ?_) fun reason => ⟨path, .system reason, rfl⟩
  rw [OnDisk.run_change]
  cases hresult : step disk with
  | ok after => exact hstep disk after hresult
  | error reason => exact refl disk

theorem isMaterialize_of_groupDirectory {root : Path} {key : String} {error : CheckError}
    (h : groupDirectory root key = .error error) : IsMaterialize error := by
  unfold groupDirectory at h
  dsimp only at h
  split at h
  · cases h
  · obtain rfl := Except.error.inj h
    exact ⟨_, _, rfl⟩

namespace KeptBelow

variable {cwd : Location} {root directory : Path} {R : Disk → Disk → Prop}
  (h : KeptBelow cwd root R)

include h

theorem ends_writeBytes {more : List String} (hgoes : root.GoesOn more directory)
    (hup : ".." ∉ more) {name : String} (hname : Path.IsFileName name) (hwritten : IsWritten name)
    (keep : Bool) (bytes : ByteArray) :
    Ends R IsMaterialize (changeFile (directory.join ⟨name⟩)
      (Disk.writeBytes cwd (directory.join ⟨name⟩) keep bytes)) := by
  refine ends_changeFile h.refl fun before after hwrite => ?_
  obtain ⟨found, hlocate, hfound, hwrites⟩ := Disk.writesFile_of_writeBytes hwrite
  exact h.file hgoes hup hname hwritten hlocate hfound hwrites

theorem ends_copySupplement {more : List String} (hgoes : root.GoesOn more directory)
    (hup : ".." ∉ more) {key : String} {files : List Path} {file : Path}
    (hfile : file ∈ supplements key files) :
    Ends R IsMaterialize (copySupplement cwd directory file) := by
  obtain ⟨name, hname⟩ := exists_fileName?_of_mem_supplements hfile
  have hwritten : IsWritten name := .inl (suffix_of_mem_supplements hfile hname)
  unfold copySupplement
  rw [hname, Option.getD_some]
  refine Ends.bind h.trans ?_ fun _ _ _ _ => Run.ends_pure h.refl _
  refine ends_changeFile h.refl fun before after hcopy => ?_
  obtain ⟨found, content, hlocate, hfound, hwrites⟩ := Disk.writesFile_of_copyFile hcopy
  exact h.file hgoes hup (Path.isFileName_of_fileName? hname) hwritten hlocate hfound hwrites

theorem ends_writeGroup (options : ProjectOptions) (key : String) (blocks : List CodeBlock) :
    Ends R IsMaterialize (writeGroup cwd root options key blocks) := by
  unfold writeGroup
  extract_lets rest
  have hrest (start : PUnit) : Ends R IsMaterialize (rest start) := by
    refine (Run.ends_ofExcept h.refl fun error => isMaterialize_of_groupDirectory).bind h.trans
      fun directory _ _ hgives => ?_
    obtain ⟨rfl, habsolute, hup, -⟩ := groupDirectory_eq_ok (Run.gives_ofExcept.1 hgives).1
    have hgoes := (Path.GoesOn.refl root).join habsolute
    refine (Run.ends_onDisk (h.directory hgoes hup) fun reason => ⟨_, .system reason, rfl⟩).bind
      h.trans fun _ _ _ _ => ?_
    refine (Run.ends_forM h.trans h.refl fun chunk hchunk => ?_).bind h.trans fun _ _ _ _ => ?_
    · obtain ⟨document, heq⟩ := exists_of_mem_chunks hchunk
      exact h.ends_writeBytes hgoes hup (isFileName_of_mem_chunks hchunk)
        (heq ▸ isWritten_generatedFileName document) true _
    refine (h.ends_writeBytes hgoes hup isFileName_packageFile (.inr (by decide)) false _).bind
      h.trans fun _ _ _ _ => ?_
    exact (Run.ends_mapM h.trans h.refl fun file hfile =>
      h.ends_copySupplement hgoes hup hfile).bind h.trans fun _ _ _ _ => Run.ends_pure h.refl _
  split
  · exact (Run.ends_notify h.refl _).bind h.trans fun _ _ _ _ => hrest ⟨⟩
  · exact hrest ⟨⟩

/-- What each step keeps, the writing of a project keeps, however it ends. -/
theorem ends_writeProject (table : GroupTable) (options : ProjectOptions) :
    Ends R IsMaterialize (writeProject cwd table root options) := by
  unfold writeProject
  refine (Run.ends_disk h.refl).bind h.trans fun disk _ _ _ => ?_
  refine (Run.ends_mapM h.trans h.refl fun key _ =>
    h.ends_writeGroup options key (table.effective key)).bind h.trans fun groups _ _ _ => ?_
  exact (h.ends_writeBytes (.refl root) List.not_mem_nil isFileName_moduleFile (.inr (by decide))
    false _).bind h.trans fun _ _ _ _ => Run.ends_pure h.refl _

end KeptBelow

/-! ## Changes below the root -/

/-- Nothing goes, and where the root leads to a directory without links below, the change is
confined to what lies below. -/
structure StaysBelow (cwd : Location) (root : Path) (base : Location) (before after : Disk) :
    Prop where
  grows : before.Grows after
  below : before.Hosts cwd root base → before.ChangesBelow base after

/-- A file that is written in a directory to which the root goes on lies below the root's. -/
theorem keptBelow_staysBelow (cwd : Location) (root : Path) (base : Location) :
    KeptBelow cwd root (StaysBelow cwd root base) where
  refl disk := ⟨.refl disk, fun _ => .refl base disk⟩
  trans a b c hab hbc := ⟨hab.grows.trans hbc.grows,
    fun hosts => (hab.below hosts).trans (hbc.below (hosts.of_grows hab.grows))⟩
  directory hgoes hup disk := ⟨Disk.grows_makeDirectories cwd _ _ disk, fun hosts =>
    Disk.changesBelow_of_makeDirectories hosts hgoes hup _⟩
  file {more directory name found content before after} hgoes hup hname _ hlocate _ hwrites := by
    refine ⟨hwrites.grows, fun hosts => ?_⟩
    have hgoes' := hgoes.join hname.isAbsolute
    rw [hname.names] at hgoes'
    have hup' : ".." ∉ more ++ [name] := by
      rw [List.mem_append, List.mem_singleton, not_or]
      exact ⟨hup, hname.ne_up.symm⟩
    rw [hosts.location_eq hgoes' hup' hlocate] at hwrites
    refine .of_writesFile ?_ hwrites
    rw [List.filter_append, List.filter_cons_of_pos (by simpa using hname.ne_here)]
    simp

theorem ends_writeProject {cwd base : Location} {root : Path} (table : GroupTable)
    (options : ProjectOptions) :
    Ends (StaysBelow cwd root base) IsMaterialize (writeProject cwd table root options) :=
  (keptBelow_staysBelow cwd root base).ends_writeProject table options

/-! ## The whole project -/

/-- **Writing is confined to the root.** Below an empty root, however the writing of a project ends,
no location but those below the root has changed. A key that is absolute, starts with a `.` or goes
up anywhere is among the reasons to fail, and the error says that the project could not be
written. -/
theorem writes_confined {cwd base : Location} {root : Path} {before : World}
    (hroot : before.disk.lookup cwd root = .ok (base, .directory))
    (hempty : ∀ names, names ≠ [] → before.disk.entryAt? (base ++ names) = none)
    (table : GroupTable) (options : ProjectOptions) :
    (∀ l, Disk.isBelow base l = false →
      ((writeProject cwd table root options).run.run before).2.disk.entryAt? l =
        before.disk.entryAt? l) ∧
    ((∃ key ∈ table.keys, (Path.mk key).isAbsolute = true ∨
        (Path.mk key).parts.head? = some "." ∨ ".." ∈ (Path.mk key).parts) →
      ∃ path reason, ((writeProject cwd table root options).run.run before).1 =
        .error (.materialize path reason)) := by
  have hosts : before.disk.Hosts cwd root base := Disk.hosts_of_empty hroot hempty
  have hends : Ends (StaysBelow cwd root base) IsMaterialize
      (writeProject cwd table root options) := ends_writeProject table options
  refine ⟨fun l => ((hends.related before).below hosts).elsewhere, ?_⟩
  rintro ⟨key, hkey, houtside⟩
  rcases hgives : (writeProject cwd table root options).run.run before with ⟨error | tree, after⟩
  · obtain ⟨path, reason, rfl⟩ := hends.fault (congrArg Prod.fst hgives)
    exact ⟨path, reason, rfl⟩
  · -- a project that was written names a directory inside for each of its keys
    have hinside := groupDirectory_of_writeProject hgives hkey
    obtain ⟨habsolute, hhere, hup⟩ := (exists_groupDirectory_iff root key).1 ⟨_, hinside⟩
    rcases houtside with houtside | houtside | houtside
    · rw [habsolute] at houtside
      cases houtside
    · exact absurd houtside hhere
    · exact absurd houtside hup

/-- A file beside an empty directory. -/
def neighbourDisk : Disk :=
  (Disk.empty.put ["out"] .directory).put ["kept"] (.file "kept".toUTF8 false)

/-- The second key of the table leaves the root. -/
def leavingTable : GroupTable :=
  (GroupTable.empty.push ["a"] outerBlock).push ["a/../b"] innerBlock

/-- The group before it is written, the table fails, and the neighbour is still there. -/
theorem writes_confined_leavingTable :
    ((writeProject [] leavingTable ⟨"/out"⟩ .default).run.run ⟨neighbourDisk, []⟩).2.disk.entryAt?
        ["kept"] = some (.file "kept".toUTF8 false) ∧
      ∃ path reason, ((writeProject [] leavingTable ⟨"/out"⟩ .default).run.run
        ⟨neighbourDisk, []⟩).1 = .error (.materialize path reason) := by
  have hname : IsName "out" := by decide
  have hroot : neighbourDisk.lookup [] ⟨"/out"⟩ = .ok (["out"], .directory) :=
    Disk.lookup_of_locate (Disk.find_of_follows (by decide) (.into hname rfl .stop))
  have hempty : ∀ names, names ≠ [] → neighbourDisk.entryAt? (["out"] ++ names) = none := by
    intro names hnames
    unfold neighbourDisk
    rw [Disk.entryAt?_put_of_ne _ _ (by simp), Disk.entryAt?_put_of_ne _ _ (by simpa using hnames)]
    rfl
  obtain ⟨hkept, hfails⟩ :=
    @writes_confined [] ["out"] ⟨"/out"⟩ ⟨neighbourDisk, []⟩ hroot hempty leavingTable .default
  exact ⟨(hkept ["kept"] (by decide)).trans rfl,
    hfails ⟨"a/../b", by decide, .inr (.inr (by decide))⟩⟩

end LiterateCheck
