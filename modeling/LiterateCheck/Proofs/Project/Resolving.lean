import LiterateCheck.Proofs.Disk.Canonical
import LiterateCheck.Proofs.Project.Writing

/-!
# Source maps and the files they are about

The lines of a written file and the source map are made by separate code. Both follow the rows of
the file: the text on the disk has them as its lines, and the source map leads each line where its
row says (`resolve_written_line`).
-/

namespace LiterateCheck

open Run (Gives)

theorem exists_group_of_mem_declared {table : GroupTable} {key : String} {block : CodeBlock}
    (h : block ∈ table.declared key) : ∃ group ∈ table.groups, block ∈ group.2 := by
  unfold GroupTable.declared GroupTable.declared? at h
  cases hlookup : table.groups.lookup key with
  | none =>
    rw [hlookup] at h
    cases h
  | some blocks =>
    rw [hlookup, Option.getD_some] at h
    obtain ⟨front, back, hgroups, -⟩ := List.lookup_eq_some_iff.1 hlookup
    exact ⟨(key, blocks), by rw [hgroups]; simp, h⟩

theorem exists_group_of_mem_effective {table : GroupTable} {key : String} {block : CodeBlock}
    (h : block ∈ table.effective key) : ∃ group ∈ table.groups, block ∈ group.2 := by
  unfold GroupTable.effective at h
  split at h
  · exact exists_group_of_mem_declared h
  · rcases List.mem_append.1 h with h | h
    · exact exists_group_of_mem_declared h
    · exact exists_group_of_mem_declared h

theorem mem_of_code_row {blocks : List CodeBlock} {fileName : String} {block : CodeBlock}
    {n i : Nat} (h : (generatedRows blocks fileName)[n]? = some (Row.code block i)) :
    block ∈ blocks ∧ generatedFileName block.source = fileName ∧ i < block.codeLines := by
  obtain ⟨own, hown, hrow⟩ := List.mem_flatMap.1 (List.mem_of_getElem? h)
  unfold CodeBlock.rows at hrow
  obtain ⟨i, ⟨rfl, rfl⟩, hi⟩ :
      ∃ j, (j = i ∧ own = block) ∧ j < own.codeLines := by simpa [and_comm] using hrow
  obtain ⟨hmem, hname⟩ := List.mem_filter.1 hown
  exact ⟨hmem, by simpa using hname, hi⟩

variable {cwd : Location} {root : Path} {table : GroupTable} {options : ProjectOptions}
  {before after : World} {tree : ProjectTree}

/-- **A written file and the source map agree line by line.** The text on the disk has the rows of
the file as its lines, and an empty piece after the last line feed. Rows of code are lines of the
blocks' code. The source map leads a line where its row says, and nowhere when the row is not code
of a block with a known place. -/
theorem resolve_written_line (hroot : before.disk.LeadsToEmpty cwd root)
    (hkeys : table.KeysApart) (hoptions : KeepsApart options)
    (hsources : ∀ group ∈ table.groups, ∀ block ∈ group.2, '\n' ∉ block.source.text.toList)
    (h : Gives (writeProject cwd table root options) before tree after) {key name : String}
    (hkey : key ∈ table.keys) (hname : name ∈ generatedNames (table.effective key)) :
    ∃ text, after.disk.textAt cwd ((root.join ⟨key⟩).join ⟨name⟩) = .ok text ∧
      Text.lines text.toList =
        (generatedRows (table.effective key) name).map Row.text ++ [[]] ∧
      (∀ (n : Nat) (block : CodeBlock) (i : Nat),
        (generatedRows (table.effective key) name)[n]? = some (Row.code block i) →
        block ∈ table.effective key ∧ generatedFileName block.source = name ∧
          (Text.lines text.toList)[n]? = (Text.lines block.code.toList)[i]? ∧
            i < (Text.lines block.code.toList).length) ∧
      ∀ n column, tree.sourceMap.resolve key name (n + 1) column =
        (generatedRows (table.effective key) name)[n]?.bind (Row.position? column) := by
  have hlines : Text.lines (generatedText (table.effective key) name).toList =
      (generatedRows (table.effective key) name).map Row.text ++ [[]] := by
    refine lines_generatedText fun block hblock => ?_
    obtain ⟨group, hgroup, hmem⟩ := exists_group_of_mem_effective hblock
    exact hsources group hgroup block hmem
  refine ⟨_, textAt_of_writeProject hroot hkeys hoptions h hkey hname, hlines, ?_, ?_⟩
  · intro n block i hrow
    obtain ⟨hblock, hfile, hi⟩ := mem_of_code_row hrow
    change i < (Text.lines block.code.toList).length at hi
    refine ⟨hblock, hfile, ?_, hi⟩
    rw [hlines, List.getElem?_append_left (by simpa using (List.getElem?_eq_some_iff.1 hrow).1),
      List.getElem?_map, hrow, Option.map_some]
    show some ((Text.lines block.code.toList)[i]?.getD []) = _
    rw [List.getElem?_eq_getElem hi, Option.getD_some]
  · obtain ⟨groups, written, -, -, rfl⟩ := gives_writeProject.1 h
    exact resolve_segments hkey _ name

/-! ## A project of two groups -/

def outerBlock : CodeBlock := ⟨⟨"x.mbt.md"⟩, "one", some ⟨10, 12⟩, false⟩

def innerBlock : CodeBlock := ⟨⟨"x.mbt.md"⟩, "two", some ⟨20, 22⟩, false⟩

/-- Two groups, one in the directory of the other, whose keys end in the same name. -/
def nestedTable : GroupTable :=
  (GroupTable.empty.push ["a"] outerBlock).push ["a/a"] innerBlock

def outerDisk : Disk :=
  putGroup (Disk.empty.put ["a"] .directory) ["a"] .default outerBlock

def innerDisk : Disk :=
  putGroup (outerDisk.put ["a", "a"] .directory) ["a", "a"] .default innerBlock

theorem isName_output : IsName "out" := by decide

theorem isName_key : IsName "a" := by decide

theorem isName_file : IsName "x.md.mbt" := by decide

theorem isName_packageFile : IsName packageFile.text := by decide

theorem gives_writeGroup_outer : ∃ summary,
    Gives (writeGroup [] ⟨"/"⟩ .default "a" [outerBlock]) ⟨.empty, []⟩ summary ⟨outerDisk, []⟩ := by
  have hfind : Disk.empty.find [] false ⟨"/a"⟩ (Path.mk "/a").names = .ok (.vacant [] "a") :=
    Disk.find_of_follows (by decide) (.vacant isName_key rfl)
  refine gives_writeGroup_singleton rfl rfl rfl
    (Disk.gives_makeAll rfl (Disk.makeDirectory_of_vacant hfind))
    (Disk.writeBytes_of_vacant ?_) (Disk.writeBytes_of_vacant ?_)
  · exact Disk.find_of_follows (by decide) (.into isName_key rfl (.vacant isName_file rfl))
  · exact Disk.find_of_follows (by decide) (.into isName_key rfl (.vacant isName_packageFile rfl))

theorem gives_writeGroup_inner : ∃ summary,
    Gives (writeGroup [] ⟨"/"⟩ .default "a/a" [innerBlock]) ⟨outerDisk, []⟩ summary
      ⟨innerDisk, []⟩ := by
  have hfind : outerDisk.find [] false ⟨"/a/a"⟩ (Path.mk "/a/a").names =
      .ok (.vacant ["a"] "a") :=
    Disk.find_of_follows (by decide) (.into isName_key rfl (.vacant isName_key rfl))
  refine gives_writeGroup_singleton rfl rfl rfl
    (Disk.gives_makeAll rfl (Disk.makeDirectory_of_vacant hfind))
    (Disk.writeBytes_of_vacant ?_) (Disk.writeBytes_of_vacant ?_)
  · exact Disk.find_of_follows (by decide)
      (.into isName_key rfl (.into isName_key rfl (.vacant isName_file rfl)))
  · exact Disk.find_of_follows (by decide)
      (.into isName_key rfl (.into isName_key rfl (.vacant isName_packageFile rfl)))

theorem outputName?_empty : outputName? .empty [] ⟨"/"⟩ = none := by
  unfold outputName?
  rw [Disk.canonical?_root]
  decide

theorem gives_writeProject_pair {table : GroupTable} {key key' : String} {middle last : Disk}
    (hkeys : table.keys = [key, key'])
    (hfirst : ∃ summary, Gives (writeGroup [] ⟨"/"⟩ .default key (table.effective key))
      ⟨.empty, []⟩ summary ⟨middle, []⟩)
    (hsecond : ∃ summary, Gives (writeGroup [] ⟨"/"⟩ .default key' (table.effective key'))
      ⟨middle, []⟩ summary ⟨last, []⟩)
    (hmodule : last.locate [] ⟨"/moon.mod.json"⟩ = .ok (.vacant [] moduleFile.text)) :
    ∃ groups after, Gives (writeProject [] table ⟨"/"⟩ .default) ⟨.empty, []⟩
      ⟨⟨"/"⟩, groups, ⟨table.segments, none⟩⟩ after := by
  obtain ⟨first, hfirst⟩ := hfirst
  obtain ⟨second, hsecond⟩ := hsecond
  refine ⟨[first, second], ⟨_, []⟩, gives_writeProject.2 ⟨[first, second], ⟨last, []⟩, ?_,
    gives_changeFile.2 ⟨Disk.writeBytes_of_vacant hmodule, rfl⟩, by rw [outputName?_empty]⟩⟩
  rw [hkeys]
  exact Run.gives_mapM_cons.2 ⟨_, _, _, hfirst,
    Run.gives_mapM_cons.2 ⟨_, _, _, hsecond, Run.gives_mapM_nil.2 ⟨rfl, rfl⟩, rfl⟩, rfl⟩

theorem isName_moduleFile : IsName moduleFile.text := by decide

theorem gives_writeProject_nestedTable : ∃ groups after,
    Gives (writeProject [] nestedTable ⟨"/"⟩ .default) ⟨.empty, []⟩
      ⟨⟨"/"⟩, groups, ⟨nestedTable.segments, none⟩⟩ after :=
  gives_writeProject_pair (by decide) gives_writeGroup_outer gives_writeGroup_inner
    (Disk.find_of_follows (by decide) (.vacant isName_moduleFile rfl))

theorem leadsToEmpty_empty : Disk.empty.LeadsToEmpty [] ⟨"/"⟩ := by
  refine ⟨[], Disk.lookup_root .empty, fun names hnames => ?_⟩
  unfold Disk.entryAt?
  rw [List.nil_append, if_neg hnames]
  rfl

theorem keysApart_nestedTable : nestedTable.KeysApart := by
  unfold GroupTable.KeysApart
  decide

/-- The inner group's line 2 is the first line of its block, and line 1 is the comment above it. -/
theorem resolve_written_line_nested : ∃ tree after,
    Gives (writeProject [] nestedTable ⟨"/"⟩ .default) ⟨.empty, []⟩ tree after ∧
      tree.sourceMap.resolve "a/a" "x.md.mbt" 2 1 = some ⟨⟨"x.mbt.md"⟩, 21, 1⟩ ∧
      tree.sourceMap.resolve "a/a" "x.md.mbt" 1 1 = none := by
  obtain ⟨groups, after, h⟩ := gives_writeProject_nestedTable
  obtain ⟨text, -, -, -, hresolve⟩ := resolve_written_line leadsToEmpty_empty
    keysApart_nestedTable (fun file hfile => absurd hfile List.not_mem_nil) (by decide) h
    (show "a/a" ∈ nestedTable.keys by decide) (show "x.md.mbt" ∈ _ by decide)
  exact ⟨_, after, h, (hresolve 1 1).trans (by decide), (hresolve 0 1).trans (by decide)⟩

end LiterateCheck
