import LiterateCheck.Project.Generate
import LiterateCheck.Proofs.Disk.Clearing
import LiterateCheck.Proofs.Project.Writing
import LiterateCheck.Proofs.Run.Ending

/-!
# What generating a project goes through

Reading leaves the disk as it is (`reads_extract`) and goes by the texts of the documents, the rest
of a run by what stands at each location: with the same texts, and on disks that agree, all goes
alike (`alike_extract`, `alike_writeProject`). A run that succeeds is a reading, a clearing and a
writing (`gives_generateProject`).
-/

namespace LiterateCheck

open Run (Alike Gives Reads)

/-! ## Steps on disks that agree -/

section Alike

variable {cwd : Location} {documents : List Path} {root : Path} {options : ProjectOptions}
  {R : Disk → Disk → Prop}

theorem alike_readDocuments (htexts : ∀ disk disk', R disk disk' → ∀ document ∈ documents,
    disk.textAt cwd document = disk'.textAt cwd document) :
    Alike R (readDocuments cwd documents) (readDocuments cwd documents) := by
  unfold readDocuments
  refine (Run.alike_mapM fun document hdocument => ?_).bind fun placed => Run.alike_pure _
  refine Run.alike_disk_bind fun disk disk' hdisks => ?_
  rw [htexts disk disk' hdisks document hdocument]
  cases disk'.textAt cwd document with
  | error reason => exact Run.alike_throw _
  | ok content => exact (Run.alike_notify _).bind fun _ => Run.alike_pure _

theorem alike_extract (htexts : ∀ disk disk', R disk disk' → ∀ document ∈ documents,
    disk.textAt cwd document = disk'.textAt cwd document) :
    Alike R (extract cwd documents) (extract cwd documents) :=
  (alike_readDocuments htexts).bind fun _ => Run.alike_pure _

theorem alike_changeFile {path : Path} {step : Disk → Except SystemError Disk}
    (hstep : ∀ disk disk', disk.Agrees disk' → Disk.AgreesResult (step disk) (step disk')) :
    Alike Disk.Agrees (changeFile path step) (changeFile path step) :=
  Run.alike_onDisk (OnDisk.uniform_change hstep)

theorem alike_writeChunk (directory : Path) (chunk : Chunk) :
    Alike Disk.Agrees (writeChunk cwd directory chunk) (writeChunk cwd directory chunk) := by
  unfold writeChunk Disk.appendText
  exact alike_changeFile fun disk disk' h => Disk.agreesResult_writeBytes h ..

theorem alike_writeText (path : Path) (text : String) :
    Alike Disk.Agrees (changeFile path (Disk.writeText cwd path text))
      (changeFile path (Disk.writeText cwd path text)) := by
  unfold Disk.writeText
  exact alike_changeFile fun disk disk' h => Disk.agreesResult_writeBytes h ..

theorem alike_copySupplement (directory file : Path) :
    Alike Disk.Agrees (copySupplement cwd directory file)
      (copySupplement cwd directory file) := by
  unfold copySupplement
  exact (alike_changeFile fun disk disk' h => Disk.agreesResult_copyFile h ..).bind
    fun _ => Run.alike_pure _

theorem alike_writeGroup (key : String) (blocks : List CodeBlock) :
    Alike Disk.Agrees (writeGroup cwd root options key blocks)
      (writeGroup cwd root options key blocks) := by
  unfold writeGroup
  extract_lets rest
  have hrest (start : PUnit) : Alike Disk.Agrees (rest start) (rest start) := by
    refine (Run.alike_ofExcept _).bind fun directory => ?_
    refine (Run.alike_onDisk (Disk.uniform_makeAll cwd directory)).bind fun _ => ?_
    refine (Run.alike_forM fun chunk _ => alike_writeChunk directory chunk).bind fun _ => ?_
    refine (alike_writeText _ _).bind fun _ => ?_
    exact (Run.alike_mapM fun file _ => alike_copySupplement directory file).bind
      fun _ => Run.alike_pure _
  split
  · exact (Run.alike_notify _).bind fun _ => hrest ⟨⟩
  · exact hrest ⟨⟩

theorem alike_writeProject (table : GroupTable) :
    Alike Disk.Agrees (writeProject cwd table root options)
      (writeProject cwd table root options) := by
  unfold writeProject
  refine Run.alike_disk_bind fun disk disk' hdisks => ?_
  have hname : outputName? disk cwd root = outputName? disk' cwd root := by
    unfold outputName?
    rw [hdisks.canonical?_eq]
  rw [hname]
  refine (Run.alike_mapM fun key _ => alike_writeGroup key _).bind fun groups => ?_
  exact (alike_writeText _ _).bind fun _ => Run.alike_pure _

end Alike

/-! ## Reading -/

section Reading

variable {cwd : Location}

theorem reads_readDocuments (documents : List Path) : Reads (readDocuments cwd documents) := by
  unfold readDocuments
  refine (Run.reads_mapM fun document => ?_).bind fun placed => Run.reads_pure _
  refine Run.reads_disk.bind fun disk => ?_
  cases disk.textAt cwd document with
  | error reason => exact Run.reads_ofExcept (.error (.readDocument document reason))
  | ok content => exact (Run.reads_notify _).bind fun _ => Run.reads_pure _

theorem reads_extract (documents : List Path) : Reads (extract cwd documents) := by
  unfold extract
  exact (reads_readDocuments documents).bind fun _ => Run.reads_pure _

end Reading

/-! ## The steps of a run -/

section Steps

variable {cwd : Location} {documents : List Path} {root : Path} {options : ProjectOptions}

theorem gives_prepareRoot {before after : World} :
    Gives (prepareRoot cwd root) before () after ↔
      ∃ cleared, (Disk.clear cwd root).Gives before.disk () cleared ∧
        (Disk.makeAll cwd root).Gives cleared () after.disk ∧ after.notices = before.notices := by
  unfold prepareRoot
  rw [Run.gives_bind]
  constructor
  · rintro ⟨⟨⟩, middle, hclear, hmake⟩
    obtain ⟨hclear, hnotices⟩ := Run.gives_onDisk.1 hclear
    obtain ⟨hmake, hnotices'⟩ := Run.gives_onDisk.1 hmake
    exact ⟨middle.disk, hclear, hmake, hnotices'.trans hnotices⟩
  · rintro ⟨cleared, hclear, hmake, hnotices⟩
    exact ⟨(), ⟨cleared, before.notices⟩, Run.gives_onDisk.2 ⟨hclear, rfl⟩,
      Run.gives_onDisk.2 ⟨hmake, hnotices⟩⟩

/-- What generating a project goes through. -/
theorem gives_generateProject {before after : World} {table : GroupTable} {tree : ProjectTree} :
    Gives (generateProject cwd documents root options) before (table, tree) after ↔
      ∃ read prepared written, Gives (extract cwd documents) before table read ∧
        Gives (prepareRoot cwd root) { read with notices := read.notices ++
          [.extracted documents.length table.size table.blockCount] } () prepared ∧
        Gives (writeProject cwd table root options) prepared tree written ∧
        after = { written with notices := written.notices ++ [.materialized root] } := by
  unfold generateProject
  constructor
  · intro h
    obtain ⟨table, read, hread, hgo⟩ := Run.gives_bind.1 h
    obtain ⟨⟨⟩, noted, hnoted, hgo⟩ := Run.gives_bind.1 hgo
    obtain rfl := Run.gives_notify.1 hnoted
    obtain ⟨⟨⟩, prepared, hprepared, hgo⟩ := Run.gives_bind.1 hgo
    obtain ⟨tree, written, hwritten, hgo⟩ := Run.gives_bind.1 hgo
    obtain ⟨⟨⟩, last, hlast, hpure⟩ := Run.gives_bind.1 hgo
    obtain ⟨heq, rfl⟩ := Run.gives_pure.1 hpure
    obtain ⟨rfl, rfl⟩ := Prod.mk.inj heq
    exact ⟨read, prepared, written, hread, hprepared, hwritten, Run.gives_notify.1 hlast⟩
  · rintro ⟨read, prepared, written, hread, hprepared, hwritten, rfl⟩
    refine Run.gives_bind.2 ⟨table, read, hread, ?_⟩
    refine Run.gives_bind.2 ⟨(), _, Run.gives_notify.2 rfl, ?_⟩
    refine Run.gives_bind.2 ⟨(), prepared, hprepared, ?_⟩
    refine Run.gives_bind.2 ⟨tree, written, hwritten, ?_⟩
    exact Run.gives_bind.2 ⟨(), _, Run.gives_notify.2 rfl, Run.gives_pure.2 ⟨rfl, rfl⟩⟩

end Steps

end LiterateCheck
