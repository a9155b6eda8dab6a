import LiterateCheck.Project.Layout
import LiterateCheck.Proofs.Text.Decimal
import LiterateCheck.Proofs.Text.LineEndings
import LiterateCheck.Proofs.Text.Stray

/-!
# The rows of a generated file

A generated file is read here line by line, each line with what it is: the comment above a block, a
line of its code, or the empty line below. The rows follow from the blocks alone, without a count of
lines. Main statements: the rows are the lines of the file's text (`lines_generatedText`), and the
source map leads a line to the document just as its row says (`positionIn_layOut`,
`resolve_segments`).
-/

namespace LiterateCheck

/-- What is written for a block. -/
def CodeBlock.text (block : CodeBlock) : String :=
  "// " ++ block.location ++ "\n" ++ block.code ++ "\n\n"

/-- A line of a generated file. -/
inductive Row where
  /-- The comment above a block. -/
  | comment (block : CodeBlock)
  /-- A line of a block's code, counted from zero. -/
  | code (block : CodeBlock) (index : Nat)
  /-- The empty line below a block. -/
  | blank
  deriving DecidableEq

namespace Row

def text : Row → List Char
  | comment block => "// ".toList ++ block.location.toList
  | code block index => (Text.lines block.code.toList)[index]?.getD []
  | blank => []

/-- Where a line of a file stands in the document. The first line of a test stands for the opening
fence, and its columns are two less than in the file. -/
def position? (column : Nat) : Row → Option Position
  | code block index =>
    block.span?.map fun span =>
      if block.wrapped then ⟨block.source, span.start + index, max 1 (column - 2)⟩
      else ⟨block.source, span.start + 1 + index, max 1 column⟩
  | _ => none

end Row

/-- The lines that a block takes in its file. -/
def CodeBlock.rows (block : CodeBlock) : List Row :=
  .comment block :: (List.range block.codeLines).map (.code block) ++ [.blank]

/-- The blocks that go to a file, in order. -/
def blocksOf (blocks : List CodeBlock) (fileName : String) : List CodeBlock :=
  blocks.filter fun block => generatedFileName block.source = fileName

/-- The lines of a file, but for the empty piece after the last line feed. -/
def generatedRows (blocks : List CodeBlock) (fileName : String) : List Row :=
  (blocksOf blocks fileName).flatMap CodeBlock.rows

/-- The text of a file. -/
def generatedText (blocks : List CodeBlock) (fileName : String) : String :=
  String.join ((blocksOf blocks fileName).map CodeBlock.text)

theorem blocksOf_cons_of_eq {block : CodeBlock} {fileName : String}
    (h : generatedFileName block.source = fileName) (others : List CodeBlock) :
    blocksOf (block :: others) fileName = block :: blocksOf others fileName := by
  unfold blocksOf
  rw [List.filter_cons_of_pos (by simpa using h)]

theorem blocksOf_cons_of_ne {block : CodeBlock} {fileName : String}
    (h : generatedFileName block.source ≠ fileName) (others : List CodeBlock) :
    blocksOf (block :: others) fileName = blocksOf others fileName := by
  unfold blocksOf
  rw [List.filter_cons_of_neg (by simpa using h)]

/-! ## Rows and lines -/

theorem lineFeed_not_mem_location {block : CodeBlock} (h : '\n' ∉ block.source.text.toList) :
    '\n' ∉ block.location.toList := by
  have hshown : '\n' ∉ block.source.shown.toList := fun hmem =>
    (Text.mem_shown hmem).elim (by decide) h
  unfold CodeBlock.location
  split
  · rename_i span _
    have hdigits : '\n' ∉ (toString span.start).toList := fun hmem =>
      absurd (Text.isDigit_of_mem_toString hmem) (by decide)
    simp only [String.toList_append, List.mem_append, not_or]
    exact ⟨⟨⟨hshown, by decide⟩, hdigits⟩, by decide⟩
  · exact hshown

theorem map_text_rows (block : CodeBlock) :
    block.rows.map Row.text =
      ("// ".toList ++ block.location.toList) :: Text.lines block.code.toList ++ [[]] := by
  have hcode : (List.range block.codeLines).map (Row.text ∘ Row.code block) =
      Text.lines block.code.toList := by
    refine List.ext_getElem (by simp [CodeBlock.codeLines, Text.lines]) fun i _ hi => ?_
    rw [List.getElem_map, List.getElem_range]
    show (Text.lines block.code.toList)[i]?.getD [] = _
    rw [List.getElem?_eq_getElem hi, Option.getD_some]
  unfold CodeBlock.rows
  rw [List.map_append, List.map_cons, List.map_map, hcode]
  rfl

theorem lines_text_append {block : CodeBlock} (h : '\n' ∉ block.source.text.toList)
    (rest : List Char) :
    Text.lines (block.text.toList ++ rest) = block.rows.map Row.text ++ Text.lines rest := by
  have htext : block.text.toList ++ rest = ("// ".toList ++ block.location.toList) ++
      '\n' :: (block.code.toList ++ '\n' :: ([] ++ '\n' :: rest)) := by
    simp [CodeBlock.text]
  have hcomment : '\n' ∉ "// ".toList ++ block.location.toList := by
    rw [List.mem_append, not_or]
    exact ⟨by decide, lineFeed_not_mem_location h⟩
  rw [htext, Text.lines_append_lineFeed, Text.lines_append_lineFeed, Text.lines_append_lineFeed,
    map_text_rows,
    show Text.lines ("// ".toList ++ _) = _ from List.splitOn_eq_singleton hcomment,
    show Text.lines [] = [[]] from List.splitOn_nil _]
  simp

/-- The lines of a file are its rows, and an empty piece after the last line feed. -/
theorem lines_generatedText {blocks : List CodeBlock} {fileName : String}
    (h : ∀ block ∈ blocks, '\n' ∉ block.source.text.toList) :
    Text.lines (generatedText blocks fileName).toList =
      (generatedRows blocks fileName).map Row.text ++ [[]] := by
  have hof : ∀ block ∈ blocksOf blocks fileName, '\n' ∉ block.source.text.toList :=
    fun block hmem => h block (List.mem_filter.1 hmem).1
  unfold generatedText generatedRows
  generalize blocksOf blocks fileName = own at hof
  induction own with
  | nil => simp [Text.lines]
  | cons block others ih =>
    obtain ⟨hblock, hothers⟩ := List.forall_mem_cons.1 hof
    rw [List.map_cons, String.join_cons, String.toList_append, lines_text_append hblock,
      ih hothers, List.flatMap_cons, List.map_append, List.append_assoc]

/-! ## Rows and segments -/

theorem length_rows (block : CodeBlock) : block.rows.length = block.codeLines + 2 := by
  simp [CodeBlock.rows]

theorem isSome_position?_code (block : CodeBlock) (i column : Nat) :
    ((Row.code block i).position? column).isSome = block.span?.isSome := by
  show (block.span?.map _).isSome = _
  rw [Option.isSome_map]

/-- Only the lines of a block's code stand in the document. -/
theorem position?_rows (block : CodeBlock) (i column : Nat) :
    block.rows[i]?.bind (Row.position? column) =
      if 1 ≤ i ∧ i ≤ block.codeLines then (Row.code block (i - 1)).position? column else none := by
  unfold CodeBlock.rows
  cases i with
  | zero => rfl
  | succ i =>
    rw [List.cons_append, List.getElem?_cons_succ, Nat.add_sub_cancel]
    by_cases hi : i < block.codeLines
    · rw [if_pos (by omega), List.getElem?_append_left (by simpa using hi), List.getElem?_map,
        List.getElem?_range hi]
      rfl
    · rw [if_neg (by omega), List.getElem?_append_right (by simpa using hi)]
      cases i - _ <;> rfl

/-- The position that a segment gives a line. -/
def Segment.position (segment : Segment) (line column : Nat) : Position :=
  ⟨segment.source, segment.sourceLine line, segment.sourceColumn column⟩

/-- Where the first of some segments that holds a line leads it. -/
def positionIn (segments : List Segment) (group fileName : String) (line column : Nat) :
    Option Position :=
  (segments.find? fun segment => segment.contains group fileName line).map
    (·.position line column)

theorem resolve_eq_positionIn (map : SourceMap) (group fileName : String) (line column : Nat) :
    map.resolve group fileName line column =
      positionIn map.segments group fileName line column := rfl

theorem contains_eq_true_iff {segment : Segment} {group fileName : String} {line : Nat} :
    segment.contains group fileName line = true ↔
      segment.group = group ∧ segment.fileName = fileName ∧
        segment.outputStart ≤ line ∧ line ≤ segment.outputEnd := by
  unfold Segment.contains
  simp only [Bool.and_eq_true, beq_iff_eq, decide_eq_true_eq, and_assoc]

theorem positionIn_cons (segment : Segment) (others : List Segment) (group fileName : String)
    (line column : Nat) :
    positionIn (segment :: others) group fileName line column =
      if segment.contains group fileName line then some (segment.position line column)
      else positionIn others group fileName line column := by
  unfold positionIn
  rw [List.find?_cons]
  cases segment.contains group fileName line <;> rfl

/-- A chunk's segment leads a line of the block's code where its row says. -/
theorem position_segment? {group : String} {chunk : Chunk} {segment : Segment}
    (h : chunk.segment? group = some segment) (i column : Nat) :
    (Row.code chunk.block i).position? column =
      some (segment.position (chunk.linesBefore + 2 + i) column) := by
  unfold Chunk.segment? at h
  obtain ⟨span, hspan, rfl⟩ := Option.map_eq_some_iff.1 h
  have hoffset : chunk.linesBefore + 2 + i - (chunk.linesBefore + 2) = i := by omega
  show chunk.block.span?.map _ = _
  rw [hspan, Option.map_some]
  unfold Segment.position Segment.sourceLine Segment.sourceColumn
  dsimp only
  rw [hoffset]
  cases chunk.block.wrapped <;> simp [Nat.max_comm]

/-- A chunk before some segments takes the lines of its block's code, when the block has a place,
and leaves all other lines to them. -/
theorem positionIn_chunk (group fileName : String) (chunk : Chunk) (others : List Segment)
    (n column : Nat) :
    positionIn ((chunk.segment? group).toList ++ others) group fileName (n + 1) column =
      if chunk.block.span?.isSome ∧ chunk.fileName = fileName ∧ chunk.linesBefore < n ∧
          n ≤ chunk.linesBefore + chunk.block.codeLines then
        (Row.code chunk.block (n - chunk.linesBefore - 1)).position? column
      else positionIn others group fileName (n + 1) column := by
  cases hspan : chunk.block.span? with
  | none =>
    have hnone : chunk.segment? group = none := by
      unfold Chunk.segment?
      rw [hspan, Option.map_none]
    rw [hnone, if_neg (by simp)]
    rfl
  | some span =>
    obtain ⟨segment, hsegment⟩ : ∃ segment, chunk.segment? group = some segment := by
      unfold Chunk.segment?
      rw [hspan]
      exact ⟨_, rfl⟩
    have hcontains : segment.contains group fileName (n + 1) = true ↔
        chunk.fileName = fileName ∧ chunk.linesBefore < n ∧
          n ≤ chunk.linesBefore + chunk.block.codeLines := by
      unfold Chunk.segment? at hsegment
      obtain ⟨_, _, rfl⟩ := Option.map_eq_some_iff.1 hsegment
      rw [contains_eq_true_iff]
      refine (and_iff_right rfl).trans (and_congr_right fun _ => ?_)
      show chunk.linesBefore + 2 ≤ n + 1 ∧ n + 1 ≤ chunk.linesBefore + 1 + _ ↔ _
      omega
    rw [hsegment, Option.toList_some, List.singleton_append, positionIn_cons]
    by_cases hin : segment.contains group fileName (n + 1) = true
    · obtain ⟨hfile, hlow, hhigh⟩ := hcontains.1 hin
      rw [if_pos hin, if_pos ⟨rfl, hfile, hlow, hhigh⟩, position_segment? hsegment]
      congr 2
      omega
    · rw [if_neg hin, if_neg fun h => hin (hcontains.2 h.2)]

/-- In the files of a group laid out after some lines, each row beyond those lines stands where it
says, and the lines before have no segment. -/
theorem positionIn_layOut (group fileName : String) (lines : String → Nat)
    (blocks : List CodeBlock) (n column : Nat) :
    positionIn ((layOut lines blocks).filterMap (Chunk.segment? group)) group fileName (n + 1)
        column =
      if n < lines fileName then none
      else (generatedRows blocks fileName)[n - lines fileName]?.bind (Row.position? column) := by
  induction blocks generalizing lines with
  | nil => simp [layOut, positionIn, generatedRows, blocksOf]
  | cons block others ih =>
    have hcons (chunk : Chunk) (chunks : List Chunk) :
        (chunk :: chunks).filterMap (Chunk.segment? group) =
          (chunk.segment? group).toList ++ chunks.filterMap (Chunk.segment? group) := by
      rw [List.filterMap_cons]
      cases chunk.segment? group <;> rfl
    unfold layOut
    rw [hcons, positionIn_chunk, ih]
    by_cases hfile : generatedFileName block.source = fileName
    · have hrows : generatedRows (block :: others) fileName =
          block.rows ++ generatedRows others fileName := by
        unfold generatedRows
        rw [blocksOf_cons_of_eq hfile, List.flatMap_cons]
      subst hfile
      simp only [true_and, if_true, Chunk.linesAfter]
      rw [hrows]
      generalize lines (generatedFileName block.source) = before
      by_cases hin : before < n ∧ n ≤ before + block.codeLines
      · -- a line of the block's code
        have hbefore : ¬ n < before := by omega
        have hrow : 1 ≤ n - before ∧ n - before ≤ block.codeLines := by omega
        have hafter : n < before + block.codeLines + 2 := by omega
        rw [if_neg hbefore, List.getElem?_append_left (by rw [length_rows]; omega),
          position?_rows, if_pos hrow]
        cases hspan : block.span? with
        | none =>
          rw [if_neg (by simp), if_pos hafter]
          show none = block.span?.map _
          rw [hspan, Option.map_none]
        | some span => rw [if_pos ⟨rfl, hin⟩]
      · rw [if_neg fun h => hin h.2]
        by_cases hbefore : n < before
        · rw [if_pos hbefore, if_pos (by omega)]
        rw [if_neg hbefore]
        by_cases hlast : n < before + block.codeLines + 2
        · -- the comment or the empty line
          rw [if_pos hlast, List.getElem?_append_left (by rw [length_rows]; omega),
            position?_rows, if_neg (by omega)]
        · rw [if_neg hlast, List.getElem?_append_right (by rw [length_rows]; omega), length_rows,
            show n - before - (block.codeLines + 2) = n - (before + block.codeLines + 2) by omega]
    · rw [if_neg fun h => hfile h.2.1, if_neg (Ne.symm hfile)]
      unfold generatedRows
      rw [blocksOf_cons_of_ne hfile]

/-- Each line of a chunk's code is a row of the chunk's file, below the lines that stand before the
chunk. -/
theorem row_of_mem_layOut {lines : String → Nat} {blocks : List CodeBlock} {chunk : Chunk}
    (h : chunk ∈ layOut lines blocks) {i : Nat} (hi : i < chunk.block.codeLines) :
    lines chunk.fileName ≤ chunk.linesBefore ∧
      (generatedRows blocks chunk.fileName)[chunk.linesBefore - lines chunk.fileName + 1 + i]? =
        some (.code chunk.block i) := by
  induction blocks generalizing lines with
  | nil => cases h
  | cons block others ih =>
    unfold layOut at h
    rcases List.mem_cons.1 h with rfl | h
    · dsimp only at hi ⊢
      refine ⟨Nat.le_refl _, ?_⟩
      have hrow : block.rows[1 + i]? = some (.code block i) := by
        unfold CodeBlock.rows
        rw [Nat.add_comm, List.cons_append, List.getElem?_cons_succ,
          List.getElem?_append_left (by simpa using hi), List.getElem?_map,
          List.getElem?_range hi, Option.map_some]
      unfold generatedRows
      rw [blocksOf_cons_of_eq rfl, List.flatMap_cons, Nat.sub_self, Nat.zero_add,
        List.getElem?_append_left (by rw [length_rows]; omega), hrow]
    · obtain ⟨hle, hrow⟩ := ih h
      dsimp only at hle hrow
      unfold generatedRows at hrow ⊢
      by_cases hfile : generatedFileName block.source = chunk.fileName
      · rw [if_pos hfile.symm, hfile] at hle hrow
        dsimp only [Chunk.linesAfter] at hle hrow
        rw [blocksOf_cons_of_eq hfile, List.flatMap_cons,
          List.getElem?_append_right (by rw [length_rows]; omega), length_rows, ← hrow]
        exact ⟨by omega, congrArg _ (by omega)⟩
      · rw [if_neg (Ne.symm hfile)] at hle hrow
        rw [blocksOf_cons_of_ne hfile]
        exact ⟨hle, hrow⟩

/-! ## The whole table -/

theorem findSome?_eq_of_forall_ne {α β : Type} {f : α → Option β} {a : α} {items : List α}
    (ha : a ∈ items) (h : ∀ b ∈ items, b ≠ a → f b = none) : items.findSome? f = f a := by
  cases hfound : items.findSome? f with
  | none => exact ((List.findSome?_eq_none_iff.1 hfound) a ha).symm
  | some b =>
    obtain ⟨c, hc, hb⟩ := List.exists_of_findSome?_eq_some hfound
    by_cases hca : c = a
    · rw [← hca, hb]
    · cases (h c hc hca).symm.trans hb

theorem find?_segments {table : GroupTable} {key : String} (hkey : key ∈ table.keys)
    (fileName : String) (line : Nat) :
    (table.segments.find? fun segment => segment.contains key fileName line) =
      ((chunks (table.effective key)).filterMap (Chunk.segment? key)).find? fun segment =>
        segment.contains key fileName line := by
  unfold GroupTable.segments
  rw [List.find?_flatMap]
  refine findSome?_eq_of_forall_ne hkey fun other _ hne => ?_
  rw [List.find?_eq_none]
  intro segment hsegment hcontains
  obtain ⟨chunk, _, hchunk⟩ := List.mem_filterMap.1 hsegment
  obtain ⟨span, _, rfl⟩ := Option.map_eq_some_iff.1 hchunk
  exact hne (contains_eq_true_iff.1 hcontains).1

/-- A line of a group's file stands where its row says, whatever other groups the table has. -/
theorem resolve_segments {table : GroupTable} {key : String} (hkey : key ∈ table.keys)
    (rootName? : Option String) (fileName : String) (n column : Nat) :
    SourceMap.resolve ⟨table.segments, rootName?⟩ key fileName (n + 1) column =
      (generatedRows (table.effective key) fileName)[n]?.bind (Row.position? column) := by
  have hown := positionIn_layOut key fileName (fun _ => 0) (table.effective key) n column
  rw [if_neg (Nat.not_lt_zero n), Nat.sub_zero] at hown
  rw [← hown, resolve_eq_positionIn]
  unfold positionIn
  rw [find?_segments hkey]
  rfl

theorem exists_index_of_segment? {group : String} {chunk : Chunk} {segment : Segment}
    (h : chunk.segment? group = some segment) {line : Nat} (hlow : segment.outputStart ≤ line)
    (hhigh : line ≤ segment.outputEnd) :
    ∃ i < chunk.block.codeLines, line = chunk.linesBefore + 2 + i := by
  obtain ⟨span, -, rfl⟩ := Option.map_eq_some_iff.1 h
  dsimp only at hlow hhigh
  exact ⟨line - (chunk.linesBefore + 2), by omega, by omega⟩

/-- The source map leads a line of a chunk's code where the chunk's segment does. -/
theorem resolve_of_mem_chunks {table : GroupTable} {key : String} (hkey : key ∈ table.keys)
    {chunk : Chunk} (hchunk : chunk ∈ chunks (table.effective key)) {segment : Segment}
    (hsegment : chunk.segment? key = some segment) {i : Nat} (hi : i < chunk.block.codeLines)
    (rootName? : Option String) (column : Nat) :
    SourceMap.resolve ⟨table.segments, rootName?⟩ key chunk.fileName (chunk.linesBefore + 2 + i)
        column = some (segment.position (chunk.linesBefore + 2 + i) column) := by
  obtain ⟨-, hrow⟩ := row_of_mem_layOut hchunk hi
  rw [Nat.sub_zero] at hrow
  rw [show chunk.linesBefore + 2 + i = chunk.linesBefore + 1 + i + 1 by omega,
    resolve_segments hkey, hrow, Option.bind_some, position_segment? hsegment,
    show chunk.linesBefore + 2 + i = chunk.linesBefore + 1 + i + 1 by omega]

/-- The source map leads a line where any segment that holds it does: when a table's segments are
made, no other one holds the same line. -/
theorem resolve_of_mem_segments {table : GroupTable} {segment : Segment}
    (hsegment : segment ∈ table.segments) {key fileName : String} {line : Nat}
    (hcontains : segment.contains key fileName line = true) (rootName? : Option String)
    (column : Nat) :
    SourceMap.resolve ⟨table.segments, rootName?⟩ key fileName line column =
      some (segment.position line column) := by
  obtain ⟨group, hgroup, hsegment⟩ := List.mem_flatMap.1 hsegment
  obtain ⟨chunk, hchunk, hsegment⟩ := List.mem_filterMap.1 hsegment
  obtain ⟨rfl, rfl, hlow, hhigh⟩ := contains_eq_true_iff.1 hcontains
  obtain ⟨i, hi, rfl⟩ := exists_index_of_segment? hsegment hlow hhigh
  have hresolve := resolve_of_mem_chunks hgroup hchunk hsegment hi rootName? column
  obtain ⟨span, -, rfl⟩ := Option.map_eq_some_iff.1 hsegment
  exact hresolve

end LiterateCheck
