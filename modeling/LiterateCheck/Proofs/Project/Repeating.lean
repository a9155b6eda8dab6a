import LiterateCheck.Proofs.Project.Confinement
import LiterateCheck.Proofs.Project.Copying
import LiterateCheck.Proofs.Project.Generating
import LiterateCheck.Proofs.Project.Reading

/-!
# Generating a project again

A project depends on its documents and on what stands outside its root, not on what stood in the
root before (`generate_repeats`).

1. A run goes as another did once the documents read the same and the cleared disks agree
   (`gives_generateProject_again`).
2. Clearing the root leaves the same disk whatever stood there, and leaves it again after the
   project was written (`clearsTo_of_writeProject`).
3. This needs a root that designates a place. Where the way of the root is not there yet, clearing
   finds nothing, and what the root leads to later is kept (`generate_leaves_stale`).
-/

namespace LiterateCheck

open Run (Alike Gives)

/-! ## Runs that go alike -/

section Steps

variable {cwd : Location} {documents : List Path} {root : Path} {options : ProjectOptions}

/-- A run goes as another did, once the documents read the same and the cleared disks agree. -/
theorem gives_generateProject_again {before before' read prepared written : World}
    {table : GroupTable} {tree : ProjectTree}
    (hread : Gives (extract cwd documents) before table read)
    (hwritten : Gives (writeProject cwd table root options) prepared tree written)
    (htexts : ∀ document ∈ documents,
      before.disk.textAt cwd document = before'.disk.textAt cwd document)
    {cleared made : Disk} (hclear : (Disk.clear cwd root).Gives before'.disk () cleared)
    (hmake : (Disk.makeAll cwd root).Gives cleared () made) (hmade : prepared.disk.Agrees made) :
    ∃ after', Gives (generateProject cwd documents root options) before' (table, tree) after' ∧
      written.disk.Agrees after'.disk := by
  have halike : Alike (fun disk disk' => disk = before.disk ∧ disk' = before'.disk)
      (extract cwd documents) (extract cwd documents) := by
    refine alike_extract fun disk disk' hdisks document hdocument => ?_
    rw [hdisks.1, hdisks.2, htexts document hdocument]
  obtain ⟨read', hread', -, hdisk⟩ := halike.gives ⟨rfl, rfl⟩ hread
  rw [← hdisk] at hclear
  obtain ⟨prepared', hprepared', rfl⟩ : ∃ prepared', Gives (prepareRoot cwd root)
      { read' with notices := read'.notices ++
        [.extracted documents.length table.size table.blockCount] } () prepared' ∧
      prepared'.disk = made :=
    ⟨⟨made, _⟩, gives_prepareRoot.2 ⟨cleared, hclear, hmake, rfl⟩, rfl⟩
  obtain ⟨written', hwritten', hagrees⟩ := (alike_writeProject table).gives hmade hwritten
  exact ⟨_, gives_generateProject.2 ⟨read', prepared', written', hread', hprepared', hwritten',
    rfl⟩, hagrees⟩

/-- After a project was written, clearing its root leaves what clearing left before. -/
theorem clearsTo_of_writeProject {place : Location} {before cleared : Disk}
    {prepared written : World} {table : GroupTable} {tree : ProjectTree} (hclosed : before.Closed)
    (hroot : before.Designates cwd root place ∨
      written.disk.Designates cwd root place ∧ before.entryAt? place = none)
    (hclear : (Disk.clear cwd root).Gives before () cleared)
    (hmake : (Disk.makeAll cwd root).Gives cleared () prepared.disk)
    (hwritten : Gives (writeProject cwd table root options) prepared tree written) :
    written.disk.ClearsTo prepared.disk cwd root place := by
  have hstays (base : Location) : StaysBelow cwd root base prepared.disk written.disk :=
    (ends_writeProject table options).gives hwritten
  have hbelow (base : Location) (hosts : prepared.disk.Hosts cwd root base) :
      Disk.ChangesBelow base prepared.disk written.disk := (hstays base).below hosts
  rcases hroot with hplace | ⟨hplace, hnone⟩
  · exact hplace.clearsTo (hplace.agrees_of_clear_makeAll hclosed hclear hmake) hbelow
  · have hpath : root.isEmpty = false := by
      obtain ⟨directory, name, -, hfree⟩ := hplace.free
      exact (Disk.find_eq_ok_iff.1 hfree).1.nonempty
    have hfree (l : Location) (hl : place <+: l) : cleared.entryAt? l = none := by
      rcases hentry : cleared.entryAt? l with _ | held
      · rfl
      · have hbefore := (Disk.extends_of_clear hclear).entryAt? hentry
        rw [hclosed.eq_none_inside hnone hl] at hbefore
        cases hbefore
    exact hplace.clearsTo_of_free hfree (Disk.makesWay_of_makeAll hmake)
      (Disk.isDirectory_of_makeAll hpath hmake) (hstays place).grows hbelow

theorem file_before_of_clearsTo {place l : Location} {before cleared prepared after : Disk}
    (hclear : (Disk.clear cwd root).Gives before () cleared)
    (hmake : (Disk.makeAll cwd root).Gives cleared () prepared)
    (hclears : after.ClearsTo prepared cwd root place) (hl : ¬ place <+: l) {content : ByteArray}
    {executable : Bool} (h : after.entryAt? l = some (.file content executable)) :
    before.entryAt? l = some (.file content executable) := by
  have hne : l ≠ place := by
    rintro rfl
    exact hl List.prefix_rfl
  have hprepared : prepared.entryAt? l = some (.file content executable) := by
    rw [hclears.agrees, Disk.entryAt?_put_of_ne _ _ hne, Disk.entryAt?_remove_outside _ hl, h]
  exact (Disk.extends_of_clear hclear).entryAt?
    ((Disk.makesWay_of_makeAll hmake).of_entry hprepared (by simp))

end Steps

/-! ## Documents outside the root -/

/-- On both disks a path leads to the same file, and this file lies outside a place. -/
def LeadsOutside (cwd place : Location) (path : Path) (disk disk' : Disk) : Prop :=
  ∃ l, ¬ place <+: l ∧ LeadsToFile disk cwd path l ∧ LeadsToFile disk' cwd path l

theorem LeadsOutside.textAt_eq {cwd place : Location} {path : Path} {disk disk' : Disk}
    (h : LeadsOutside cwd place path disk disk')
    (hfiles : ∀ {l : Location} {content : ByteArray} {executable : Bool}, ¬ place <+: l →
      disk'.entryAt? l = some (.file content executable) →
        disk.entryAt? l = some (.file content executable)) :
    disk.textAt cwd path = disk'.textAt cwd path := by
  obtain ⟨l, hl, ⟨content, executable, hlookup⟩, content', executable', hlookup'⟩ := h
  have hentry := Disk.entryAt?_of_lookup_file hlookup
  have hentry' := Disk.entryAt?_of_lookup_file hlookup'
  cases hentry.symm.trans (hfiles hl hentry')
  unfold Disk.textAt Disk.bytesAt
  rw [hlookup, hlookup']

/-! ## The whole run -/

/-- **Generating again.** On two disks that agree outside `place`, and on which each document is the
same file outside `place`, a project comes out the same, and so do the disks, whatever stood at
`place`. Afterwards it can be generated once more, with the same outcome, as long as its documents
are still found.

The root's path designates `place` in both runs; or it does so only afterwards, and nothing stood
there before. A path that cannot be followed before the run, but leads to something once missing
directories are made, is not among these: what it then leads to has not been cleared. -/
theorem generate_repeats {cwd place : Location} {documents : List Path} {root : Path}
    {options : ProjectOptions} {before before' after after' : World} {table table' : GroupTable}
    {tree tree' : ProjectTree} (hclosed : before.disk.Closed) (hclosed' : before'.disk.Closed)
    (helsewhere : ∀ l, ¬ place <+: l → before'.disk.entryAt? l = before.disk.entryAt? l)
    (hdocuments : ∀ document ∈ documents,
      LeadsOutside cwd place document before.disk before'.disk)
    (hroot : (before.disk.Designates cwd root place ∧ before'.disk.Designates cwd root place) ∨
      after.disk.Designates cwd root place ∧
        before.disk.entryAt? place = none ∧ before'.disk.entryAt? place = none)
    (h : Gives (generateProject cwd documents root options) before (table, tree) after)
    (h' : Gives (generateProject cwd documents root options) before' (table', tree') after') :
    table' = table ∧ tree' = tree ∧ after.disk.Agrees after'.disk ∧
      ((∀ document ∈ documents, LeadsOutside cwd place document before.disk after.disk) →
        ∃ again, Gives (generateProject cwd documents root options) after (table, tree) again ∧
          after.disk.Agrees again.disk) := by
  obtain ⟨read, prepared, written, hread, hprepare, hwrite, rfl⟩ := gives_generateProject.1 h
  obtain ⟨read', prepared', written', hread', hprepare', hwrite', rfl⟩ :=
    gives_generateProject.1 h'
  obtain ⟨cleared, hclear, hmake, -⟩ := gives_prepareRoot.1 hprepare
  obtain ⟨cleared', hclear', hmake', -⟩ := gives_prepareRoot.1 hprepare'
  dsimp only at hclear hclear' hroot ⊢
  rw [← (reads_extract documents).gives hread] at hclear
  rw [← (reads_extract documents).gives hread'] at hclear'
  -- the other run goes as this one did
  have htexts (document : Path) (hdocument : document ∈ documents) :
      before.disk.textAt cwd document = before'.disk.textAt cwd document :=
    (hdocuments document hdocument).textAt_eq fun hl hentry => helsewhere _ hl ▸ hentry
  have hprepared : prepared.disk.Agrees prepared'.disk :=
    Disk.agrees_of_clear_makeAll hclosed hclosed' helsewhere (hroot.imp_right And.right) hclear
      hmake hclear' hmake'
  obtain ⟨last, hlast, hagrees⟩ :=
    gives_generateProject_again hread hwrite htexts hclear' hmake' hprepared
  obtain ⟨heq, rfl⟩ := hlast.unique h'
  obtain ⟨rfl, rfl⟩ := Prod.mk.inj heq
  refine ⟨rfl, rfl, hagrees, fun hremain => ?_⟩
  -- and so does the next run, from the disk that this one leaves
  have hclears : written.disk.ClearsTo prepared.disk cwd root place :=
    clearsTo_of_writeProject hclosed
      (hroot.imp And.left fun ⟨hplace, hnone, _⟩ => ⟨hplace, hnone⟩) hclear hmake hwrite
  have htexts' (document : Path) (hdocument : document ∈ documents) :
      before.disk.textAt cwd document = written.disk.textAt cwd document :=
    (hremain document hdocument).textAt_eq fun hl hentry =>
      file_before_of_clearsTo hclear hmake hclears hl hentry
  obtain ⟨cleared'', made, hclear'', hmake'', hmade⟩ :=
    hclears.designates.clear_makeAll_of_directory hclears.directory
  exact gives_generateProject_again hread hwrite htexts' hclear'' hmake''
    (hclears.agrees.trans hmade.symm)

/-! ### A project over a stale file -/

def clashDocuments : List Path := [⟨"x.mbt.md"⟩, ⟨"y.mbt.md"⟩]

/-- The documents stand on a disk. -/
def HasClashDocuments (disk : Disk) : Prop :=
  disk.entryAt? ["x.mbt.md"] =
    some (.file (Section.write [⟨"mbt unless=x.md", "one"⟩]).toUTF8 false) ∧
  disk.entryAt? ["y.mbt.md"] =
    some (.file (Section.write [⟨"mbt unless=x.md", "two"⟩]).toUTF8 false)

/-- The output root with a file that no project writes. -/
def litteredDisk : Disk := supplyDisk.put ["out", "stale"] (.file "old".toUTF8 false)

theorem plain_litteredDisk : litteredDisk.Plain :=
  @Disk.Plain.put supplyDisk plain_supplyDisk ["out"] "stale" rfl (by decide) rfl _ (by simp)

theorem designates_vacant {disk : Disk} (hout : disk.entryAt? ["out"] = none) :
    disk.Designates [] ⟨"/out"⟩ ["out"] where
  free := ⟨[], "out", rfl, Disk.find_of_follows (by decide)
    (.vacant isName_output (disk.entryAt?_remove_inside (by decide) List.prefix_rfl))⟩
  taken {l held} hfind := by
    have hvacant : disk.find [] false ⟨"/out"⟩ (Path.mk "/out").steps =
        .ok (.vacant [] "out") := Disk.find_of_follows (by decide) (.vacant isName_output hout)
    rw [hvacant] at hfind
    cases hfind

theorem designates_out {disk : Disk} (hout : disk.entryAt? ["out"] = some .directory) :
    disk.Designates [] ⟨"/out"⟩ ["out"] where
  free := ⟨[], "out", rfl, Disk.find_of_follows (by decide)
    (.vacant isName_output (disk.entryAt?_remove_inside (by decide) List.prefix_rfl))⟩
  taken {l held} hfind := by
    have hentry : disk.find [] false ⟨"/out"⟩ (Path.mk "/out").steps =
        .ok (.entry ["out"] .directory) :=
      Disk.find_of_follows (by decide) (.into isName_output hout .stop)
    rw [hentry] at hfind
    cases hfind
    rfl

section Clash

variable {disk : Disk} (hdocuments : HasClashDocuments disk)

include hdocuments

theorem lookup_clashDocument {document : Path} (h : document ∈ clashDocuments) :
    LeadsToFile disk [] document [document.text] := by
  obtain ⟨hfirst, hsecond⟩ := hdocuments
  simp only [clashDocuments, List.mem_cons, List.not_mem_nil, or_false] at h
  rcases h with rfl | rfl
  · exact ⟨_, _, Disk.lookup_of_names (by decide) rfl (.file (by decide) hfirst)⟩
  · exact ⟨_, _, Disk.lookup_of_names (by decide) rfl (.file (by decide) hsecond)⟩

theorem gives_extract_clash (notices : List Notice) :
    ∃ read, Gives (extract [] clashDocuments) ⟨disk, notices⟩ clashTable read := by
  obtain ⟨hfirst, hsecond⟩ := hdocuments
  have hread : ReadAs disk [] clashDocuments clashSources :=
    .cons ⟨rfl, readsAs_iff.2 (Disk.textAt_of_lookup
      (Disk.lookup_of_names (by decide) rfl (.file (by decide) hfirst)))⟩ (.cons ⟨rfl, readsAs_iff.2
      (Disk.textAt_of_lookup (Disk.lookup_of_names (by decide) rfl (.file (by decide) hsecond)))⟩
      .nil)
  exact ⟨_, ofSources_clash ▸ @run_extract_of_readAs ⟨disk, notices⟩ _ _ _ hread⟩

/-- Once the output root is cleared and made, the project is written as to an empty one. -/
theorem gives_generateProject_clash {notices : List Notice} {cleared made : Disk}
    (hclear : (Disk.clear [] ⟨"/out"⟩).Gives disk () cleared)
    (hmake : (Disk.makeAll [] ⟨"/out"⟩).Gives cleared () made) (hmade : supplyDisk.Agrees made) :
    ∃ tree after, Gives (generateProject [] clashDocuments ⟨"/out"⟩ supplyOptions) ⟨disk, notices⟩
      (clashTable, tree) after ∧ projectDisk.Agrees after.disk := by
  obtain ⟨read, hread⟩ := gives_extract_clash hdocuments notices
  obtain ⟨tree, hwritten, -⟩ := gives_writeProject_clash
  exact ⟨tree, gives_generateProject_again hread hwritten (fun _ _ => rfl) hclear hmake hmade⟩

end Clash

/-- The project is generated over a stale file and where nothing stands, with the same outcome, and
then once more. One generated file holds its block, the other one is copied over. -/
theorem generate_repeats_stale : ∃ tree after after' again,
    Gives (generateProject [] clashDocuments ⟨"/out"⟩ supplyOptions) ⟨litteredDisk, []⟩
      (clashTable, tree) after ∧
    Gives (generateProject [] clashDocuments ⟨"/out"⟩ supplyOptions) ⟨sourcesDisk, []⟩
      (clashTable, tree) after' ∧
    after.disk.Agrees after'.disk ∧ after.disk.entryAt? ["out", "stale"] = none ∧
    after.disk.textAt [] ⟨"/out/x.md/x.md.mbt"⟩ = .ok "copied" ∧
    after.disk.textAt [] ⟨"/out/x.md/y.md.mbt"⟩ = .ok "// y.mbt.md:1:1\ntwo\n\n" ∧
    Gives (generateProject [] clashDocuments ⟨"/out"⟩ supplyOptions) after (clashTable, tree)
      again ∧
    after.disk.Agrees again.disk := by
  have hlittered : HasClashDocuments litteredDisk := ⟨rfl, rfl⟩
  have hsources : HasClashDocuments sourcesDisk := ⟨rfl, rfl⟩
  -- over the stale file
  obtain ⟨cleared, made, hclear, hmake, hmade⟩ :=
    (@designates_out litteredDisk rfl).clear_makeAll_of_directory rfl
  obtain ⟨tree, after, h, hafter⟩ :=
    gives_generateProject_clash hlittered hclear hmake fun l => (hmade l).symm
  -- where nothing stands the directory is made at once
  have hvacant : sourcesDisk.find [] false ⟨"/out"⟩ (Path.mk "/out").names =
      .ok (.vacant [] "out") := Disk.find_of_follows (by decide) (.vacant isName_output rfl)
  obtain ⟨tree', after', h', -⟩ := @gives_generateProject_clash sourcesDisk hsources [] _ _
    (Disk.gives_clear_of_vacant hvacant)
    (Disk.gives_makeAll rfl (Disk.makeDirectory_of_vacant hvacant)) fun _ => rfl
  have hleads (disk : Disk) (hdisk : HasClashDocuments disk) (document : Path)
      (hdocument : document ∈ clashDocuments) :
      LeadsOutside [] ["out"] document litteredDisk disk := by
    refine ⟨[document.text], ?_, lookup_clashDocument hlittered hdocument,
      lookup_clashDocument hdisk hdocument⟩
    simp only [clashDocuments, List.mem_cons, List.not_mem_nil, or_false] at hdocument
    rcases hdocument with rfl | rfl <;> decide
  have helsewhere (l : Location) (hl : ¬ ["out"] <+: l) :
      sourcesDisk.entryAt? l = litteredDisk.entryAt? l := by
    unfold litteredDisk supplyDisk
    rw [Disk.entryAt?_put_of_ne, Disk.entryAt?_put_of_ne]
    · rintro rfl
      exact hl List.prefix_rfl
    · rintro rfl
      exact hl (List.prefix_append ["out"] ["stale"])
  obtain ⟨-, rfl, hagrees, hagain⟩ := generate_repeats plain_litteredDisk.closed
    plain_sourcesDisk.closed helsewhere (hleads sourcesDisk hsources)
    (.inl ⟨designates_out rfl, designates_vacant rfl⟩) h h'
  obtain ⟨again, hgives, hsame⟩ := hagain (hleads _ ⟨(hafter _).symm, (hafter _).symm⟩)
  refine ⟨_, _, _, again, h, h', hagrees, (hafter _).symm, ?_, ?_, hgives, hsame⟩
  · exact Disk.textAt_of_lookup ((hafter.lookup_eq _ _).symm.trans lookup_projectDisk_copy)
  · rw [show "// y.mbt.md:1:1\ntwo\n\n" = besideBlock.text by decide]
    exact Disk.textAt_of_lookup ((hafter.lookup_eq _ _).symm.trans lookup_projectDisk_block)

/-! ### Projects without blocks -/

section Empty

variable {cwd : Location} {documents : List Path} {root : Path} {options : ProjectOptions}

/-- The module description of a project. -/
def manifestText (options : ProjectOptions) : String :=
  Text.jsonObject
    [("name", options.moduleConfig.name), ("version", options.moduleConfig.version)]

def manifest (options : ProjectOptions) : Entry :=
  .file (manifestText options).toUTF8 false

theorem gives_writeProject_empty {directory : Location} {name : String} {made : World}
    (h : made.disk.locate cwd (root.join moduleFile) = .ok (.vacant directory name)) :
    ∃ tree, Gives (writeProject cwd .empty root options) made tree
      ⟨made.disk.put (directory ++ [name]) (manifest options), made.notices⟩ := by
  have hwrite : Disk.writeText cwd (root.join moduleFile) (manifestText options) made.disk =
      .ok (made.disk.put (directory ++ [name]) (manifest options)) := by
    unfold Disk.writeText manifest
    exact Disk.writeBytes_of_vacant h
  refine ⟨_, gives_writeProject.2 ⟨[], made, ?_, gives_changeFile.2 ⟨hwrite, rfl⟩, rfl⟩⟩
  exact Run.gives_mapM_nil.2 ⟨rfl, rfl⟩

theorem gives_generateProject_empty {before read : World}
    (hread : Gives (extract cwd documents) before .empty read) {cleared made : Disk}
    (hclear : (Disk.clear cwd root).Gives before.disk () cleared)
    (hmake : (Disk.makeAll cwd root).Gives cleared () made) {directory : Location} {name : String}
    (h : made.locate cwd (root.join moduleFile) = .ok (.vacant directory name)) :
    ∃ tree notices, Gives (generateProject cwd documents root options) before (.empty, tree)
      ⟨made.put (directory ++ [name]) (manifest options), notices⟩ := by
  rw [(reads_extract documents).gives hread] at hclear
  obtain ⟨prepared, hprepared, rfl⟩ : ∃ prepared, Gives (prepareRoot cwd root)
      { read with notices := read.notices ++ [.extracted documents.length GroupTable.empty.size
        GroupTable.empty.blockCount] } () prepared ∧ prepared.disk = made :=
    ⟨⟨made, _⟩, gives_prepareRoot.2 ⟨cleared, hclear, hmake, rfl⟩, rfl⟩
  obtain ⟨tree, hwritten⟩ := @gives_writeProject_empty cwd root options _ _ prepared h
  exact ⟨tree, _, gives_generateProject.2 ⟨read, prepared, _, hread, hprepared, hwritten, rfl⟩⟩

theorem gives_extract_plain {document : Path} {content : String} {before : World}
    (htext : before.disk.textAt cwd document = .ok content)
    (hplain : Placement.ofDocument document content = []) :
    ∃ read, Gives (extract cwd [document]) before .empty read := by
  refine ⟨_, Run.gives_bind.2 ⟨[], _, Run.gives_bind.2 ⟨[[]], _, Run.gives_mapM_cons.2
    ⟨[], { before with notices := before.notices ++ [] }, [], ?_,
      Run.gives_mapM_nil.2 ⟨rfl, rfl⟩, rfl⟩, Run.gives_pure.2 ⟨rfl, rfl⟩⟩,
    Run.gives_pure.2 ⟨rfl, rfl⟩⟩⟩
  refine Run.gives_bind.2 ⟨before.disk, before, Run.gives_disk.2 ⟨rfl, rfl⟩, ?_⟩
  rw [htext]
  dsimp only
  rw [hplain]
  exact Run.gives_bind.2 ⟨(), _, Run.gives_notify.2 rfl, Run.gives_pure.2 ⟨rfl, rfl⟩⟩

end Empty

/-! ### A document without text -/

/-- The document on a disk. -/
def plainDisk : Disk := Disk.empty.put ["a.mbt.md"] (.file "".toUTF8 false)

/-- An empty directory beside it. -/
def clearedDisk : Disk := plainDisk.put ["out"] .directory

/-- A file in the directory. -/
def staleDisk : Disk := clearedDisk.put ["out", "stale"] (.file "old".toUTF8 false)

theorem lookup_document {disk : Disk}
    (h : disk.entryAt? ["a.mbt.md"] = some (.file "".toUTF8 false)) :
    disk.lookup [] ⟨"/a.mbt.md"⟩ = .ok (["a.mbt.md"], .file "".toUTF8 false) :=
  Disk.lookup_of_locate (Disk.find_of_follows (by decide) (.file (by decide) h))

theorem locate_manifest {disk : Disk} (hout : disk.entryAt? ["out"] = some .directory)
    (hfree : disk.entryAt? ["out", moduleFile.text] = none) :
    disk.locate [] ((Path.mk "/out").join moduleFile) = .ok (.vacant ["out"] moduleFile.text) :=
  Disk.find_of_follows (by decide) (.into isName_output hout (.vacant isName_moduleFile hfree))

theorem gives_generateProject_document {root : Path} {before : World} {cleared made : Disk}
    (hdocument : before.disk.entryAt? ["a.mbt.md"] = some (.file "".toUTF8 false))
    (hclear : (Disk.clear [] root).Gives before.disk () cleared)
    (hmake : (Disk.makeAll [] root).Gives cleared () made)
    (hmanifest : made.locate [] (root.join moduleFile) =
      .ok (.vacant ["out"] moduleFile.text)) :
    ∃ tree notices, Gives (generateProject [] [⟨"/a.mbt.md"⟩] root .default) before (.empty, tree)
      ⟨made.put ["out", moduleFile.text] (manifest .default), notices⟩ := by
  have hplain : Placement.ofDocument ⟨"/a.mbt.md"⟩ "" = [] := by decide
  obtain ⟨read, hread⟩ :=
    gives_extract_plain (Disk.textAt_of_lookup (lookup_document hdocument)) hplain
  exact gives_generateProject_empty hread hclear hmake hmanifest

/-! ### A root that is not reached before its directories are made -/

/-- The way to the directory runs through one that is missing. -/
def missingRoot : Path := ⟨"/missing/../out"⟩

/-- Once the directory above is made, the path leads to a directory that was there already. -/
theorem gives_makeDirectories_of_parent {cwd : Location} {fuel : Nat} {path parent : Path}
    {disk made : Disk} (hpath : path.isEmpty = false)
    (hmissing : Disk.makeDirectory cwd path disk = .error .notFound)
    (hparent : path.parent? = some parent)
    (hmake : (Disk.makeDirectories cwd fuel parent).Gives disk () made)
    {l : Location} (hfind : made.find cwd false path path.names = .ok (.entry l .directory))
    (hlookup : made.lookup cwd path = .ok (l, .directory)) :
    (Disk.makeDirectories cwd (fuel + 1) path).Gives disk () made := by
  have hexists : Disk.makeDirectory cwd path made = .error .alreadyExists := by
    unfold Disk.makeDirectory
    rw [hfind]
  have hdirectory : made.isDirectory cwd path = true := Disk.isDirectory_iff.2 ⟨l, hlookup⟩
  unfold OnDisk.Gives at hmake ⊢
  rw [Disk.run_makeDirectories, hpath, if_neg Bool.false_ne_true, hmissing]
  dsimp only
  rw [if_pos rfl, hparent]
  dsimp only
  rw [hmake]
  dsimp only
  rw [hexists]
  dsimp only
  rw [hdirectory, if_pos rfl]

section Missing

variable {disk : Disk} (hmissing : disk.entryAt? ["missing"] = none)
  (hout : disk.entryAt? ["out"] = some .directory)

include hmissing

theorem walk_missing {rest : List String} (hrest : rest.isEmpty = false) :
    disk.walk false maxLinks [] ("missing" :: rest) = .error .notFound := by
  rw [Disk.walk_none (by decide) hmissing, if_neg (by simp [hrest])]

theorem makeDirectory_of_missing {path : Path} {rest : List String}
    (hpath : path.isAbsolute = true ∧ Text.holdsNul path.text = false ∧
      path.size < maxPathSize) (hnames : path.names = "missing" :: rest)
    (hrest : rest.isEmpty = false) : Disk.makeDirectory [] path disk = .error .notFound := by
  unfold Disk.makeDirectory
  rw [Disk.find_of_absolute disk [] false hpath, hnames, walk_missing hmissing hrest]

theorem gives_clear_missingRoot : (Disk.clear [] missingRoot).Gives disk () disk := by
  refine Disk.gives_clear_of_notFound ?_
  rw [Disk.find_of_absolute disk [] false (by decide)]
  exact walk_missing hmissing rfl

include hout

theorem gives_makeAll_missingRoot :
    (Disk.makeAll [] missingRoot).Gives disk () (disk.put ["missing"] .directory) := by
  have hmade : (disk.put ["missing"] .directory).entryAt? ["missing"] = some .directory :=
    Disk.entryAt?_put_self _ _ (by decide)
  have hout' : (disk.put ["missing"] .directory).entryAt? ["out"] = some .directory := by
    rw [Disk.entryAt?_put_of_ne _ _ (by decide), hout]
  have hmissing' : IsName "missing" := by decide
  have hvacant : disk.find [] false ⟨"/missing"⟩ (Path.mk "/missing").names =
      .ok (.vacant [] "missing") := Disk.find_of_follows (by decide) (.vacant hmissing' hmissing)
  have hfirst : (Disk.makeDirectories [] 3 ⟨"/missing"⟩).Gives disk ()
      (disk.put ["missing"] .directory) := by
    unfold OnDisk.Gives
    rw [Disk.run_makeDirectories, if_neg (by decide), Disk.makeDirectory_of_vacant hvacant]
    rfl
  have habove (followLast : Bool) : (disk.put ["missing"] .directory).Follows followLast maxLinks []
      ["missing", ".."] (.entry [] .directory) := .into hmissing' hmade (.up .stop)
  have hsecond : (Disk.makeDirectories [] 4 ⟨"/missing/.."⟩).Gives disk ()
      (disk.put ["missing"] .directory) :=
    gives_makeDirectories_of_parent rfl (makeDirectory_of_missing hmissing (by decide) rfl rfl)
      (by decide) hfirst (Disk.find_of_follows (by decide) (habove false))
      (Disk.lookup_of_locate (Disk.find_of_follows (by decide) (habove true)))
  have hagain (followLast : Bool) : (disk.put ["missing"] .directory).Follows followLast maxLinks []
      ["missing", "..", "out"] (.entry ["out"] .directory) :=
    .into hmissing' hmade (.up (.into isName_output hout' .stop))
  exact gives_makeDirectories_of_parent rfl
    (makeDirectory_of_missing hmissing (by decide) rfl rfl) (by decide) hsecond
    (Disk.find_of_follows (by decide) (hagain false))
    (Disk.lookup_of_locate (Disk.find_of_follows (by decide) (hagain true)))

end Missing

theorem locate_manifest_missingRoot {disk : Disk}
    (hmissing : disk.entryAt? ["missing"] = some .directory)
    (hout : disk.entryAt? ["out"] = some .directory)
    (hfree : disk.entryAt? ["out", moduleFile.text] = none) :
    disk.locate [] (missingRoot.join moduleFile) = .ok (.vacant ["out"] moduleFile.text) :=
  Disk.find_of_follows (by decide)
    (.into (by decide) hmissing (.up (.into isName_output hout (.vacant isName_moduleFile hfree))))

theorem gives_generateProject_missingRoot {disk : Disk}
    (hdocument : disk.entryAt? ["a.mbt.md"] = some (.file "".toUTF8 false))
    (hmissing : disk.entryAt? ["missing"] = none) (hout : disk.entryAt? ["out"] = some .directory)
    (hfree : disk.entryAt? ["out", moduleFile.text] = none) :
    ∃ tree notices, Gives (generateProject [] [⟨"/a.mbt.md"⟩] missingRoot .default) ⟨disk, []⟩
      (.empty, tree) ⟨(disk.put ["missing"] .directory).put ["out", moduleFile.text]
        (manifest .default), notices⟩ := by
  refine @gives_generateProject_document missingRoot ⟨disk, []⟩ _ _ hdocument
    (gives_clear_missingRoot hmissing) (gives_makeAll_missingRoot hmissing hout)
    (locate_manifest_missingRoot ?_ ?_ ?_)
  · exact Disk.entryAt?_put_self _ _ (by decide)
  · rw [Disk.entryAt?_put_of_ne _ _ (by decide), hout]
  · rw [Disk.entryAt?_put_of_ne _ _ (by decide), hfree]

theorem clearedDisk_elsewhere (l : Location) (hl : ¬ ["out"] <+: l) :
    clearedDisk.entryAt? l = staleDisk.entryAt? l := by
  unfold staleDisk
  rw [Disk.entryAt?_put_of_ne]
  rintro rfl
  exact hl (List.prefix_append ["out"] ["stale"])

/-- The disk after the stale file was overlooked. -/
def overlookedDisk : Disk :=
  (staleDisk.put ["missing"] .directory).put ["out", moduleFile.text] (manifest .default)

theorem designates_overlookedDisk : overlookedDisk.Designates [] missingRoot ["out"] where
  free := ⟨[], "out", rfl, Disk.find_of_follows (by decide)
    (.into (by decide) rfl (.up (.vacant isName_output rfl)))⟩
  taken {l held} hfind := by
    have hentry : overlookedDisk.find [] false missingRoot missingRoot.steps =
        .ok (.entry ["out"] .directory) :=
      Disk.find_of_follows (by decide) (.into (by decide) rfl (.up (.into isName_output rfl .stop)))
    rw [hentry] at hfind
    cases hfind
    rfl

/-- A root that cannot be followed counts as cleared; its missing directory is made, and then it
leads to a directory with a stale file. The project is generated beside this file, from the same
document as over an empty directory. When it is generated again, the file goes. -/
theorem generate_leaves_stale : ∃ tree tree' tree'' after after' again,
    Gives (generateProject [] [⟨"/a.mbt.md"⟩] missingRoot .default) ⟨staleDisk, []⟩ (.empty, tree)
      after ∧
    Gives (generateProject [] [⟨"/a.mbt.md"⟩] missingRoot .default) ⟨clearedDisk, []⟩
      (.empty, tree') after' ∧
    (∀ l, ¬ ["out"] <+: l → clearedDisk.entryAt? l = staleDisk.entryAt? l) ∧
    after.disk.lookup [] missingRoot = .ok (["out"], .directory) ∧
    after.disk.entryAt? ["out", "stale"] = some (.file "old".toUTF8 false) ∧
    after'.disk.entryAt? ["out", "stale"] = none ∧
    Gives (generateProject [] [⟨"/a.mbt.md"⟩] missingRoot .default) after (.empty, tree'') again ∧
    again.disk.entryAt? ["out", "stale"] = none := by
  obtain ⟨tree, notices, h⟩ := @gives_generateProject_missingRoot staleDisk rfl rfl rfl rfl
  obtain ⟨tree', notices', h'⟩ := @gives_generateProject_missingRoot clearedDisk rfl rfl rfl rfl
  have hlookup : overlookedDisk.lookup [] missingRoot = .ok (["out"], .directory) :=
    Disk.lookup_of_locate (Disk.find_of_follows (by decide)
      (.into (by decide) rfl (.up (.into isName_output rfl .stop))))
  -- now that the directory is there, the root is followed, and the stale file goes
  obtain ⟨cleared, made, hclear, hmake, hmade⟩ :=
    designates_overlookedDisk.clear_makeAll_of_directory rfl
  obtain ⟨tree'', notices'', h''⟩ := @gives_generateProject_document missingRoot
    ⟨overlookedDisk, notices⟩ _ _ rfl hclear hmake
    (locate_manifest_missingRoot ((hmade _).trans rfl) ((hmade _).trans rfl) ((hmade _).trans rfl))
  refine ⟨tree, tree', tree'', _, _, _, h, h', clearedDisk_elsewhere, hlookup, rfl, rfl, h'', ?_⟩
  rw [Disk.entryAt?_put_of_ne _ _ (by decide), hmade]
  rfl

end LiterateCheck
