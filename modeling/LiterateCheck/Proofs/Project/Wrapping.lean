import LiterateCheck.Proofs.Project.Rows
import LiterateCheck.Proofs.Text.Splitting

/-!
# Tests around code

A test adds a line before the code and one behind it, and two columns before each line of the code.
The segment of a test takes all of this back.

1. The lines of a test are those of the code, moved, between two of its own (`lines_wrapTest`), so
   the code can be read off the test again (`unwrapTest_wrapTest`).
2. The segment of a chunk leads the lines of its code to the document one after the other
   (`Chunk.exists_segment`), and they stand in the file where it says
   (`Chunk.getElem?_lines_generatedText`). So a line of the code leads to the same position whether
   the code is a test or stands alone (`wrapTest_keeps_place`).
3. This takes a comment of one line. A line feed in the name of a document moves the code down
   (`wrapTest_displaced`).
-/

namespace LiterateCheck

/-- The lines of a test are those of the body, moved to the right, between two of its own. -/
theorem lines_wrapTest (body : String) :
    Text.lines (wrapTest body).toList =
      "test \x7b".toList :: (Text.lines body.toList).map ("  ".toList ++ ·) ++ ["\x7d".toList] := by
  have hplain : ∀ row ∈ (Text.lines body.toList).map ("  ".toList ++ ·), '\n' ∉ row := by
    intro row hrow
    obtain ⟨line, hline, rfl⟩ := List.mem_map.1 hrow
    rw [List.mem_append, not_or]
    exact ⟨by decide, Text.not_mem_of_mem_splitOn hline⟩
  have hne : (Text.lines body.toList).map ("  ".toList ++ ·) ≠ [] := by
    rw [Ne, List.map_eq_nil_iff]
    exact List.splitOn_ne_nil '\n' body.toList
  have hinner := List.splitOn_intercalate '\n' hplain hne
  have htext : (wrapTest body).toList = "test \x7b".toList ++ '\n' ::
      (List.intercalate ['\n'] ((Text.lines body.toList).map ("  ".toList ++ ·)) ++
        '\n' :: "\x7d".toList) := by
    unfold wrapTest Text.lines
    simp
  have hfirst : Text.lines "test \x7b".toList = ["test \x7b".toList] := by decide
  have hlast : Text.lines "\x7d".toList = ["\x7d".toList] := by decide
  rw [htext, Text.lines_append_lineFeed, Text.lines_append_lineFeed, hfirst, hlast]
  unfold Text.lines at hinner ⊢
  rw [hinner]
  rfl

/-- What is left of a test without its first and its last line, and without the first two columns
of each other line. -/
def unwrapTest (test : String) : String :=
  String.ofList (Text.unlines ((Text.lines test.toList).tail.dropLast.map (List.drop 2)))

theorem unwrapTest_wrapTest (code : String) : unwrapTest (wrapTest code) = code := by
  have hdrop : (List.drop 2 ∘ ("  ".toList ++ ·) : List Char → List Char) = id := by
    funext line
    rfl
  have hjoin : Text.unlines (Text.lines code.toList) = code.toList :=
    List.intercalate_splitOn '\n'
  unfold unwrapTest
  rw [lines_wrapTest, List.cons_append, List.tail_cons, List.dropLast_concat, List.map_map, hdrop,
    List.map_id, hjoin, String.ofList_toList]

theorem wrapTest_inj {code other : String} : wrapTest other = wrapTest code ↔ other = code :=
  (Function.LeftInverse.injective unwrapTest_wrapTest).eq_iff

theorem length_lines_wrapTest (code : String) :
    (Text.lines (wrapTest code).toList).length = (Text.lines code.toList).length + 2 := by
  rw [lines_wrapTest]
  simp

/-- Behind its first line a test has the lines of the code, two columns further. -/
theorem getElem?_lines_wrapTest {code : String} {i : Nat}
    (hi : i < (Text.lines code.toList).length) :
    (Text.lines (wrapTest code).toList)[i + 1]? =
      (Text.lines code.toList)[i]?.map ("  ".toList ++ ·) := by
  rw [lines_wrapTest, List.cons_append, List.getElem?_cons_succ,
    List.getElem?_append_left (by rwa [List.length_map]), List.getElem?_map]

/-! ## The place of a line -/

namespace Chunk

variable {chunk : Chunk} {span : Markup.LineSpan}

/-- The segment of a chunk holds as many lines as the chunk has code, from the second line below
the lines before the chunk on, and leads them to the document one after the other. -/
theorem exists_segment (hspan : chunk.block.span? = some span) (group : String) :
    ∃ segment, chunk.segment? group = some segment ∧ ∀ i < chunk.block.codeLines,
      segment.contains group chunk.fileName (chunk.linesBefore + 2 + i) = true ∧
      ∀ column, segment.position (chunk.linesBefore + 2 + i) column =
        ⟨chunk.block.source, (if chunk.block.wrapped then span.start else span.start + 1) + i,
          max (column - if chunk.block.wrapped then 2 else 0) 1⟩ := by
  refine ⟨_, by unfold segment?; rw [hspan]; rfl, fun i hi => ⟨?_, fun column => ?_⟩⟩
  · refine contains_eq_true_iff.2 ⟨rfl, rfl, ?_, ?_⟩
    · show chunk.linesBefore + 2 ≤ chunk.linesBefore + 2 + i
      omega
    · show chunk.linesBefore + 2 + i ≤ chunk.linesBefore + 1 + chunk.block.codeLines
      omega
  · simp only [Segment.position, Segment.sourceLine, Segment.sourceColumn, Nat.add_sub_cancel_left]

theorem getElem?_lines_generatedText {blocks : List CodeBlock} (hchunk : chunk ∈ chunks blocks)
    (hsources : ∀ block ∈ blocks, '\n' ∉ block.source.text.toList) {i : Nat}
    (hi : i < chunk.block.codeLines) :
    (Text.lines (generatedText blocks chunk.fileName).toList)[chunk.linesBefore + 1 + i]? =
      (Text.lines chunk.block.code.toList)[i]? := by
  obtain ⟨-, hrow⟩ := row_of_mem_layOut hchunk hi
  rw [Nat.sub_zero] at hrow
  have hinside := (List.getElem?_eq_some_iff.1 hrow).1
  have hline : i < (Text.lines chunk.block.code.toList).length := hi
  rw [lines_generatedText hsources,
    List.getElem?_append_left (by rwa [List.length_map]), List.getElem?_map, hrow, Option.map_some]
  show some ((Text.lines chunk.block.code.toList)[i]?.getD []) = _
  rw [List.getElem?_eq_getElem hline, Option.getD_some]

end Chunk

/-- **A test keeps the place of its code.** Its lines are one of its own, those of the code two
columns further, and one of its own; the code can be read off again, so different code makes
different tests. The segment of a chunk leads line `i` of the code to the same position whether the
code is a test, two columns and one line further in the file, or stands alone. Where no document of
the group has a line feed in its name, that is where the line stands in the file. -/
theorem wrapTest_keeps_place (code : String) :
    Text.lines (wrapTest code).toList =
      "test \x7b".toList :: (Text.lines code.toList).map ("  ".toList ++ ·) ++ ["\x7d".toList] ∧
    (Text.lines (wrapTest code).toList).length = (Text.lines code.toList).length + 2 ∧
    unwrapTest (wrapTest code) = code ∧
    (∀ other, wrapTest other = wrapTest code ↔ other = code) ∧
    ∀ (chunk : Chunk) (span : Markup.LineSpan), chunk.block.span? = some span →
      ∀ group, ∃ segment, chunk.segment? group = some segment ∧
      ∀ (i : Nat) (hi : i < (Text.lines code.toList).length),
        (chunk.block.code = wrapTest code → chunk.block.wrapped = true →
          segment.contains group chunk.fileName (chunk.linesBefore + 3 + i) = true ∧
          (∀ column, 1 ≤ column → segment.position (chunk.linesBefore + 3 + i) (column + 2) =
            ⟨chunk.block.source, span.start + 1 + i, column⟩) ∧
          ∀ blocks, chunk ∈ chunks blocks → (∀ block ∈ blocks, '\n' ∉ block.source.text.toList) →
            (Text.lines (generatedText blocks chunk.fileName).toList)[chunk.linesBefore + 2 + i]? =
              some ("  ".toList ++ (Text.lines code.toList)[i])) ∧
        (chunk.block.code = code → chunk.block.wrapped = false →
          segment.contains group chunk.fileName (chunk.linesBefore + 2 + i) = true ∧
          (∀ column, 1 ≤ column → segment.position (chunk.linesBefore + 2 + i) column =
            ⟨chunk.block.source, span.start + 1 + i, column⟩) ∧
          ∀ blocks, chunk ∈ chunks blocks → (∀ block ∈ blocks, '\n' ∉ block.source.text.toList) →
            (Text.lines (generatedText blocks chunk.fileName).toList)[chunk.linesBefore + 1 + i]? =
              some (Text.lines code.toList)[i]) := by
  refine ⟨lines_wrapTest code, length_lines_wrapTest code, unwrapTest_wrapTest code,
    fun other => wrapTest_inj, fun chunk span hspan group => ?_⟩
  obtain ⟨segment, hsegment, hlines⟩ := Chunk.exists_segment hspan group
  refine ⟨segment, hsegment, fun i hi => ⟨fun hcode hwrapped => ?test, fun hcode hplain => ?alone⟩⟩
  case test =>
    -- line `i` of the code is line `i + 1` of the test
    have hinside : i + 1 < chunk.block.codeLines := by
      show i + 1 < (Text.lines chunk.block.code.toList).length
      rw [hcode, length_lines_wrapTest]
      omega
    obtain ⟨hcontains, hposition⟩ := hlines (i + 1) hinside
    simp only [hwrapped, if_true, ← Nat.add_assoc] at hposition
    refine ⟨?_, fun column hcolumn => ?_, fun blocks hchunk hsources => ?_⟩
    · rw [show chunk.linesBefore + 3 + i = chunk.linesBefore + 2 + (i + 1) by omega]
      exact hcontains
    · rw [show chunk.linesBefore + 3 + i = chunk.linesBefore + 2 + i + 1 by omega, hposition,
        Nat.add_sub_cancel, Nat.max_eq_left hcolumn, Nat.add_right_comm]
    · have hfile := Chunk.getElem?_lines_generatedText hchunk hsources hinside
      rw [hcode, getElem?_lines_wrapTest hi, List.getElem?_eq_getElem hi] at hfile
      rw [show chunk.linesBefore + 2 + i = chunk.linesBefore + 1 + (i + 1) by omega]
      exact hfile
  case alone =>
    have hinside : i < chunk.block.codeLines := by
      show i < (Text.lines chunk.block.code.toList).length
      rwa [hcode]
    obtain ⟨hcontains, hposition⟩ := hlines i hinside
    simp only [hplain, Bool.false_eq_true, if_false, Nat.sub_zero] at hposition
    refine ⟨hcontains, fun column hcolumn => ?_, fun blocks hchunk hsources => ?_⟩
    · rw [hposition, Nat.max_eq_left hcolumn]
    · have hfile := Chunk.getElem?_lines_generatedText hchunk hsources hinside
      rwa [hcode, List.getElem?_eq_getElem hi] at hfile

/-- Code with an empty line in the middle, as a test behind another block of the same file. -/
theorem wrapTest_keeps_place_behind :
    ∃ segment, (⟨"x.md.mbt", 3, ⟨⟨"x.mbt.md"⟩, wrapTest "one\n\ntwo", some ⟨5, 9⟩, true⟩⟩ :
        Chunk).segment? "_" = some segment ∧
      segment.position (3 + 3 + 2) (7 + 2) = ⟨⟨"x.mbt.md"⟩, 5 + 1 + 2, 7⟩ ∧
      (Text.lines (generatedText [⟨⟨"x.mbt.md"⟩, "zero", some ⟨1, 3⟩, false⟩,
        ⟨⟨"x.mbt.md"⟩, wrapTest "one\n\ntwo", some ⟨5, 9⟩, true⟩] "x.md.mbt").toList)[3 + 2 + 2]? =
          some "  two".toList := by
  obtain ⟨-, -, -, -, hplaces⟩ := wrapTest_keeps_place "one\n\ntwo"
  obtain ⟨segment, hsegment, hlines⟩ := hplaces
    ⟨"x.md.mbt", 3, ⟨⟨"x.mbt.md"⟩, wrapTest "one\n\ntwo", some ⟨5, 9⟩, true⟩⟩ ⟨5, 9⟩ rfl "_"
  obtain ⟨-, hposition, hfile⟩ := (hlines 2 (by decide)).1 rfl rfl
  exact ⟨segment, hsegment, hposition 7 (by decide), hfile _ (by decide) (by decide)⟩

/-- A line feed in the name of a document makes two lines of the comment, which the segment counts
as one: the line of the code leads to the line below its own. -/
theorem wrapTest_displaced :
    ∃ chunk ∈ chunks [⟨⟨"x\ny.mbt.md"⟩, wrapTest "one", some ⟨1, 3⟩, true⟩],
      ∃ segment, chunk.segment? "_" = some segment ∧
        (Text.lines (generatedText [chunk.block] chunk.fileName).toList)[3]? =
          some "  one".toList ∧
        segment.contains "_" chunk.fileName 4 = true ∧
        segment.position 4 (1 + 2) = ⟨⟨"x\ny.mbt.md"⟩, 3, 1⟩ ∧
        segment.position 4 (1 + 2) ≠ ⟨⟨"x\ny.mbt.md"⟩, 1 + 1 + 0, 1⟩ :=
  ⟨_, List.mem_cons_self .., _, rfl, by decide, by decide, by decide, by decide⟩

end LiterateCheck
