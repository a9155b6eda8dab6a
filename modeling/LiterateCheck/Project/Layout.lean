import LiterateCheck.Project.Names

/-!
# The layout of a group

The blocks of a group are written one after the other, each to the file of its document: a comment
with its location, its code, and an empty line. From the order of the blocks alone follow the lines
that each takes, and so the segments of the source map.
-/

namespace LiterateCheck

/-- A block on its way to a file. -/
structure Chunk where
  fileName : String
  /-- The number of lines that stand in the file before it. -/
  linesBefore : Nat
  block : CodeBlock
  deriving DecidableEq, Repr

/-- The number of lines of a block's code. -/
def CodeBlock.codeLines (block : CodeBlock) : Nat :=
  (block.code.toList.splitOn '\n').length

namespace Chunk

/-- What is written for a block. -/
def text (chunk : Chunk) : String :=
  "// " ++ chunk.block.location ++ "\n" ++ chunk.block.code ++ "\n\n"

/-- The lines of the file after a block: its comment, its code and an empty line. -/
def linesAfter (chunk : Chunk) : Nat :=
  chunk.linesBefore + chunk.block.codeLines + 2

/-- Where the code of a block with a known place comes from. The first line of a test stands for
the opening fence, which no line of its body does. -/
def segment? (group : String) (chunk : Chunk) : Option Segment :=
  chunk.block.span?.map fun span =>
    { group := group, fileName := chunk.fileName
      outputStart := chunk.linesBefore + 2
      outputEnd := chunk.linesBefore + 1 + chunk.block.codeLines
      source := chunk.block.source
      sourceStart := if chunk.block.wrapped then span.start else span.start + 1
      columnShift := if chunk.block.wrapped then 2 else 0 }

end Chunk

/-- The blocks of a group with the lines before each, given the lines that the files already have. -/
def layOut (lines : String → Nat) : List CodeBlock → List Chunk
  | [] => []
  | block :: others =>
    let chunk : Chunk :=
      let fileName := generatedFileName block.source
      ⟨fileName, lines fileName, block⟩
    chunk ::
      layOut (fun name => if name = chunk.fileName then chunk.linesAfter else lines name) others

/-- The blocks of a group, written to empty files. -/
def chunks (blocks : List CodeBlock) : List Chunk :=
  layOut (fun _ => 0) blocks

/-- The files of a group, in the order in which they are first written. -/
def generatedNames (blocks : List CodeBlock) : List String :=
  distinctNames (blocks.map fun block => generatedFileName block.source)

namespace GroupTable

/-- The segments of a table's groups, in key order. -/
def segments (table : GroupTable) : List Segment :=
  table.keys.flatMap fun key => (chunks (table.effective key)).filterMap (Chunk.segment? key)

end GroupTable

end LiterateCheck
