import LiterateCheck.Proofs.Document
import LiterateCheck.Proofs.Markup.Extents
import LiterateCheck.Proofs.Markup.Sections
import LiterateCheck.Proofs.Project.Resolving
import LiterateCheck.Proofs.Project.Wrapping
import Mathlib.Data.Bool.AllAny

/-!
# Lines inside their fence

The source map counts the lines of a block from the first line of its fence. How many there are is
decided by the body and by the test around it, where the fence ends by the document.

1. A fence has a line of code for each line of its body, and a test two more
   (`SourceFence.codeLines_block`).
2. A body has no more lines than its fence (`Fence.extent_of_mem_scan`), so the segment of a block
   stays inside the fence unless it has no room: a plain block needs a second line, a test one for
   its brace as well (`segment_of_mem_scan`).
3. The lines of a segment lead to the lines of the document from its start on
   (`exists_line_of_mem_chunks`), so they stay inside the fence when the last one does
   (`resolved_lines_le_iff`).
-/

namespace LiterateCheck

open Run (Gives)

namespace SourceFence

theorem codeLines_block (source : SourceFence) :
    source.block.codeLines = (Text.lines source.fence.body.toList).length +
      if wraps source.fence.directiveTokens then 2 else 0 := by
  show (Text.lines (codeFor source.fence.directiveTokens source.fence.body).toList).length = _
  unfold codeFor
  split
  · exact length_lines_wrapTest _
  · rfl

end SourceFence

/-- The segment of a fence starts on its first line or on the one below, and has room for its lines
inside the fence just when the fence has a second line, or a test more lines below the first one
than its body has. -/
theorem segment_of_mem_scan {document : String} {fence : Fence}
    (hfence : fence ∈ Fence.scan document) {path : Path} {chunk : Chunk}
    (hblock : chunk.block = (SourceFence.mk path fence).block) (key : String) :
    ∃ (first last : Nat) (segment : Segment), fence.span? = some ⟨first, last⟩ ∧
      chunk.segment? key = some segment ∧ segment.source = path ∧ first ≤ segment.sourceStart ∧
      0 < chunk.block.codeLines ∧
      segment.sourceStart + chunk.block.codeLines ≤ max (last + 1) (first + 2) + 1 ∧
      (segment.sourceStart + chunk.block.codeLines ≤ last + 1 ↔
        if wraps fence.directiveTokens then
          first + (Text.lines fence.body.toList).length < last
        else first < last) := by
  obtain ⟨first, last, hspan, -, hle, hbody⟩ := Fence.extent_of_mem_scan hfence
  obtain ⟨segment, hsegment, hsource, hstart⟩ : ∃ segment, chunk.segment? key = some segment ∧
      segment.source = path ∧
        segment.sourceStart = if wraps fence.directiveTokens then first else first + 1 := by
    unfold Chunk.segment?
    rw [hblock]
    exact ⟨_, congrArg _ hspan, rfl, rfl⟩
  have hcount : chunk.block.codeLines = (Text.lines fence.body.toList).length +
      if wraps fence.directiveTokens then 2 else 0 := by
    rw [hblock]
    exact (SourceFence.mk path fence).codeLines_block
  have hpos : 0 < (Text.lines fence.body.toList).length :=
    List.length_pos_of_ne_nil (List.splitOn_ne_nil '\n' fence.body.toList)
  refine ⟨first, last, segment, hspan, hsegment, hsource, ?_⟩
  by_cases hwraps : wraps fence.directiveTokens = true
  · rw [if_pos hwraps] at hstart hcount ⊢
    omega
  · rw [if_neg hwraps] at hstart hcount ⊢
    omega

section Lines

variable {table : GroupTable} {key : String} {chunk : Chunk} {segment : Segment}

theorem exists_line_of_mem_chunks (hkey : key ∈ table.keys)
    (hchunk : chunk ∈ chunks (table.effective key)) (hsegment : chunk.segment? key = some segment)
    {line : Nat} (hlow : segment.outputStart ≤ line) (hhigh : line ≤ segment.outputEnd)
    (rootName? : Option String) (column : Nat) :
    ∃ i < chunk.block.codeLines, ∃ position, line = segment.outputStart + i ∧
      SourceMap.resolve ⟨table.segments, rootName?⟩ key chunk.fileName line column =
        some position ∧
      position.document = segment.source ∧ position.line = segment.sourceStart + i := by
  obtain ⟨i, hi, rfl⟩ := exists_index_of_segment? hsegment hlow hhigh
  have hresolve := resolve_of_mem_chunks hkey hchunk hsegment hi rootName? column
  obtain ⟨span, -, rfl⟩ := Option.map_eq_some_iff.1 hsegment
  exact ⟨i, hi, _, rfl, hresolve, rfl, congrArg _ (Nat.add_sub_cancel_left ..)⟩

/-- The lines of a chunk's segment all lead to `last` or before it just when the last one does. -/
theorem resolved_lines_le_iff (hkey : key ∈ table.keys)
    (hchunk : chunk ∈ chunks (table.effective key)) (hsegment : chunk.segment? key = some segment)
    (hcode : 0 < chunk.block.codeLines) (rootName? : Option String) (last : Nat) :
    (∀ line column position, segment.outputStart ≤ line → line ≤ segment.outputEnd →
      SourceMap.resolve ⟨table.segments, rootName?⟩ key chunk.fileName line column =
        some position → position.line ≤ last) ↔
      segment.sourceStart + chunk.block.codeLines ≤ last + 1 := by
  have hend : segment.outputEnd + 1 = segment.outputStart + chunk.block.codeLines := by
    obtain ⟨span, -, rfl⟩ := Option.map_eq_some_iff.1 hsegment
    dsimp only
    omega
  constructor
  · intro hall
    have hlow : segment.outputStart ≤ segment.outputEnd := by omega
    obtain ⟨i, hi, position, hi', hposition, -, hline⟩ :=
      exists_line_of_mem_chunks hkey hchunk hsegment hlow le_rfl rootName? 1
    have hlast := hall _ 1 position hlow le_rfl hposition
    omega
  · intro hroom line column position hlow hhigh hposition
    obtain ⟨i, hi, position', -, hposition', -, hline⟩ :=
      exists_line_of_mem_chunks hkey hchunk hsegment hlow hhigh rootName? column
    obtain rfl := Option.some.inj (hposition'.symm.trans hposition)
    omega

end Lines

variable {cwd : Location} {root : Path} {table : GroupTable} {options : ProjectOptions}
  {before after : World} {tree : ProjectTree}

/-- **Which lines stay inside their fence.** Every line of a fence that is written to a group
resolves to its document, to no line before the fence, and to none far behind it. All of them stay
inside the fence exactly when it has room for them: at least a second line for a plain block, and
for a test more lines below the first one than its body has. -/
theorem resolved_lines_in_fence
    (h : Gives (writeProject cwd table root options) before tree after)
    {path : Path} {document : String} {fence : Fence} (hfence : fence ∈ Fence.scan document)
    {key : String} (hkey : key ∈ table.keys) {chunk : Chunk}
    (hchunk : chunk ∈ chunks (table.effective key))
    (hblock : chunk.block = (SourceFence.mk path fence).block) :
    ∃ (first last : Nat) (segment : Segment), fence.span? = some ⟨first, last⟩ ∧
      chunk.segment? key = some segment ∧ segment ∈ tree.sourceMap.segments ∧
      (∀ line column, segment.outputStart ≤ line → line ≤ segment.outputEnd →
        ∃ position, tree.sourceMap.resolve key chunk.fileName line column = some position ∧
          position.document = path ∧ first ≤ position.line ∧
            position.line ≤ max (last + 1) (first + 2)) ∧
      ((∀ line column position, segment.outputStart ≤ line → line ≤ segment.outputEnd →
          tree.sourceMap.resolve key chunk.fileName line column = some position →
            position.line ≤ last) ↔
        if wraps fence.directiveTokens then
          first + (Text.lines fence.body.toList).length < last
        else first < last) := by
  obtain ⟨first, last, segment, hspan, hsegment, hsource, hfirst, hcode, hfar, hroom⟩ :=
    segment_of_mem_scan hfence hblock key
  obtain ⟨groups, written, -, -, rfl⟩ := gives_writeProject.1 h
  refine ⟨first, last, segment, hspan, hsegment,
    List.mem_flatMap.2 ⟨key, hkey, List.mem_filterMap.2 ⟨chunk, hchunk, hsegment⟩⟩, ?_,
    (resolved_lines_le_iff hkey hchunk hsegment hcode _ last).trans hroom⟩
  intro line column hlow hhigh
  obtain ⟨i, hi, position, -, hposition, hdocument, hline⟩ :=
    exists_line_of_mem_chunks hkey hchunk hsegment hlow hhigh (outputName? before.disk cwd root)
      column
  exact ⟨position, hposition, hdocument.trans hsource, by omega, by omega⟩

/-! ## An empty test -/

/-- A document with a test fence that is closed at once. -/
def emptyTest : String := "\x60\x60\x60mbt test\n\x60\x60\x60\n"

/-- The fence of the document. -/
def emptyFence : Fence := ⟨"mbt test", "", some ⟨1, 2⟩⟩

theorem openedBy_emptyTest : Markup.OpenFence.openedBy 1 "mbt test".toList =
    .plain 1 (some "mbt") (some "test") [] := by
  have hword {word : String} (hne : word.toList.isEmpty = false)
      (hplain : ∀ c ∈ word.toList, c ≠ '\\' ∧ c ≠ '&') :
      Markup.OpenFence.infoPart? word.toList = some word := by
    unfold Markup.OpenFence.infoPart?
    rw [hne, if_neg Bool.false_ne_true, Markup.decode_of_plain hplain, String.ofList_toList]
  unfold Markup.OpenFence.openedBy
  rw [show Markup.OpenFence.firstWord "mbt test".toList = "mbt".toList from rfl,
    show Markup.OpenFence.afterFirst "mbt test".toList = "test".toList from rfl,
    hword (by decide) (List.all_iff_forall_prop.1 (by decide)),
    hword (by decide) (List.all_iff_forall_prop.1 (by decide))]

theorem scan_emptyTest : Fence.scan emptyTest = [emptyFence] := by
  have hrows : Text.lines (Text.normalizeLineEndings emptyTest.toList) =
      [Markup.delimiter ++ "mbt test".toList, Markup.delimiter, []] := rfl
  have hhead : ∀ c ∈ "mbt test".toList.head?, Markup.OpenFence.isInfoSpace c = false :=
    fun c hc => by obtain rfl : 'm' = c := Option.some.inj hc; rfl
  have hread : Markup.Reader.start.readLines 1
      [Markup.delimiter ++ "mbt test".toList, Markup.delimiter] = Markup.Reader.settled
        [.block ((Markup.OpenFence.plain 1 (some "mbt") (some "test") []).close 2 true)] := by
    show ((Markup.Reader.settled []).readLine 1 _).readLine 2 _ = _
    rw [Markup.Reader.readLine_opening [] 1 (by decide) hhead, openedBy_emptyTest,
      Markup.Reader.readLine_inFence, if_pos (Markup.OpenFence.closes_delimiter ..)]
    rfl
  have hmark : ((Text.normalizeLineEndings emptyTest.toList).head? == some '\uFEFF') = false := by
    decide
  unfold Fence.scan Fence.ofNodes Markup.outline
  simp only [hmark, if_neg Bool.false_ne_true, hrows, List.getLast?_cons_cons,
    List.getLast?_singleton, beq_self_eq_true, if_true, List.dropLast_cons_cons,
    List.dropLast_singleton, hread]
  decide

/-- The block that the fence becomes. -/
def emptyTestBlock : CodeBlock := ⟨⟨"x.mbt.md"⟩, "test \x7b\n  \n\x7d", some ⟨1, 2⟩, true⟩

/-- The table of the document. -/
def emptyTestTable : GroupTable :=
  GroupTable.empty.push [baselineGroup] emptyTestBlock

theorem block_emptyFence : (SourceFence.mk ⟨"x.mbt.md"⟩ emptyFence).block = emptyTestBlock := by
  decide

theorem ofSources_emptyTest :
    GroupTable.ofSources [(⟨"x.mbt.md"⟩, emptyTest)] = emptyTestTable := by
  have hplacements : Placement.ofDocument ⟨"x.mbt.md"⟩ emptyTest =
      [⟨[baselineGroup], emptyTestBlock⟩] := by
    unfold Placement.ofDocument
    rw [scan_emptyTest]
    decide
  unfold GroupTable.ofSources
  simp only [List.flatMap_cons, List.flatMap_nil, List.append_nil, hplacements]
  rfl

theorem gives_writeProject_emptyTest : ∃ groups after,
    Gives (writeProject [] emptyTestTable ⟨"/"⟩ .default) ⟨.empty, []⟩
      ⟨⟨"/"⟩, groups, ⟨emptyTestTable.segments, none⟩⟩ after := by
  have hkey : IsName baselineGroup := by decide
  have hfind : Disk.empty.find [] false ⟨"/_"⟩ (Path.mk "/_").names = .ok (.vacant [] "_") :=
    Disk.find_of_follows (by decide) (.vacant hkey rfl)
  obtain ⟨summary, hgroup⟩ : ∃ summary, Gives (writeGroup [] ⟨"/"⟩ .default "_" [emptyTestBlock])
      ⟨.empty, []⟩ summary
        ⟨putGroup (Disk.empty.put ["_"] .directory) ["_"] .default emptyTestBlock, []⟩ := by
    refine gives_writeGroup_singleton rfl rfl rfl
      (Disk.gives_makeAll rfl (Disk.makeDirectory_of_vacant hfind))
      (Disk.writeBytes_of_vacant ?_) (Disk.writeBytes_of_vacant ?_)
    · exact Disk.find_of_follows (by decide) (.into hkey rfl (.vacant isName_file rfl))
    · exact Disk.find_of_follows (by decide) (.into hkey rfl (.vacant isName_packageFile rfl))
  have hmodule : (putGroup (Disk.empty.put ["_"] .directory) ["_"] .default emptyTestBlock).locate
      [] ⟨"/moon.mod.json"⟩ = .ok (.vacant [] moduleFile.text) :=
    Disk.find_of_follows (by decide) (.vacant isName_moduleFile rfl)
  exact ⟨[summary], ⟨_, []⟩, gives_writeProject_alone rfl outputName?_empty hgroup
    (gives_changeFile.2 ⟨Disk.writeBytes_of_vacant hmodule, rfl⟩)⟩

/-- The lines of the test lie between its first line and the one below its last. -/
theorem resolved_lines_emptyTest : ∃ tree after,
    Gives (writeProject [] emptyTestTable ⟨"/"⟩ .default) ⟨.empty, []⟩ tree after ∧
      emptyFence ∈ Fence.scan emptyTest ∧
      ∃ position, tree.sourceMap.resolve "_" "x.md.mbt" 4 1 = some position ∧
        position.document = ⟨"x.mbt.md"⟩ ∧ 1 ≤ position.line ∧ position.line ≤ 3 := by
  obtain ⟨groups, after, h⟩ := gives_writeProject_emptyTest
  have hfence : emptyFence ∈ Fence.scan emptyTest := by
    rw [scan_emptyTest]
    exact List.mem_singleton_self _
  have hchunk : ⟨"x.md.mbt", 0, emptyTestBlock⟩ ∈ chunks (emptyTestTable.effective "_") := by
    decide
  obtain ⟨first, last, segment, hspan, hsegment, -, hlines, -⟩ :=
    resolved_lines_in_fence h hfence (by decide) hchunk block_emptyFence.symm
  obtain ⟨rfl, rfl⟩ : 1 = first ∧ 2 = last := by
    cases hspan
    exact ⟨rfl, rfl⟩
  have hend : segment.outputStart ≤ 4 ∧ 4 ≤ segment.outputEnd := by
    cases hsegment
    decide
  exact ⟨_, after, h, hfence, hlines 4 1 hend.1 hend.2⟩

/-- The brace of an empty test resolves to the line below its fence. -/
theorem resolved_line_outside_fence : ∃ tree after,
    Gives (writeProject [] (GroupTable.ofSources [(⟨"x.mbt.md"⟩, emptyTest)]) ⟨"/"⟩ .default)
      ⟨.empty, []⟩ tree after ∧
    Disk.empty.LeadsToEmpty [] ⟨"/"⟩ ∧
    Fence.scan emptyTest = [⟨"mbt test", "", some ⟨1, 2⟩⟩] ∧
    tree.sourceMap.segments = [⟨"_", "x.md.mbt", 2, 4, ⟨"x.mbt.md"⟩, 1, 2⟩] ∧
    tree.sourceMap.resolve "_" "x.md.mbt" 4 1 = some ⟨⟨"x.mbt.md"⟩, 3, 1⟩ := by
  obtain ⟨groups, after, h⟩ := gives_writeProject_emptyTest
  rw [ofSources_emptyTest]
  have hsegments : emptyTestTable.segments =
      [⟨"_", "x.md.mbt", 2, 4, ⟨"x.mbt.md"⟩, 1, 2⟩] := by decide
  have hresolve : SourceMap.resolve ⟨emptyTestTable.segments, none⟩ "_" "x.md.mbt" 4 1 =
      some ⟨⟨"x.mbt.md"⟩, 3, 1⟩ := by decide
  exact ⟨_, after, h, leadsToEmpty_empty, scan_emptyTest, hsegments, hresolve⟩

end LiterateCheck
