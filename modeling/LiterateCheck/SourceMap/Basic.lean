import LiterateCheck.Path

/-!
# Source maps

A source map records, for each block of code written to a generated file, which lines of the file it
takes and where they stand in its document. Resolving a position finds the first segment that holds
it; positions outside every segment have no image.
-/

namespace LiterateCheck

/-- A run of lines of a generated file that came from one block. -/
structure Segment where
  /-- The group that the file belongs to. -/
  group : String
  fileName : String
  /-- The first line of the block's code in the file, counted from one. -/
  outputStart : Nat
  /-- The last line of the block's code in the file. -/
  outputEnd : Nat
  source : Path
  /-- The line of the document for `outputStart`. -/
  sourceStart : Nat
  /-- The number of columns that stand before each line in the file only. -/
  columnShift : Nat
  deriving DecidableEq, Repr

namespace Segment

def contains (segment : Segment) (group fileName : String) (line : Nat) : Bool :=
  segment.group == group && segment.fileName == fileName &&
    segment.outputStart ≤ line && line ≤ segment.outputEnd

/-- The document's line for a line of the file. -/
def sourceLine (segment : Segment) (line : Nat) : Nat :=
  segment.sourceStart + (line - segment.outputStart)

/-- The document's column for a column of the file; columns before the first count as the first. -/
def sourceColumn (segment : Segment) (column : Nat) : Nat :=
  max (column - segment.columnShift) 1

end Segment

/-- A position in a document. -/
structure Position where
  document : Path
  line : Nat
  column : Nat
  deriving DecidableEq, Repr

/-- The segments of a project, in the order in which they were written. -/
structure SourceMap where
  segments : List Segment
  /-- The name of the output root. Files of the empty key stand in that directory. -/
  rootName? : Option String
  deriving DecidableEq, Repr, Inhabited

namespace SourceMap

def empty : SourceMap := ⟨[], none⟩

def record (map : SourceMap) (segment : Segment) : SourceMap :=
  { map with segments := map.segments ++ [segment] }

/-- The segment that holds a line of a generated file: the first one recorded. -/
def segment? (map : SourceMap) (group fileName : String) (line : Nat) : Option Segment :=
  map.segments.find? fun segment => segment.contains group fileName line

/-- Where a position of a generated file stands in its document. -/
def resolve (map : SourceMap) (group fileName : String) (line column : Nat) : Option Position :=
  (map.segment? group fileName line).map fun segment =>
    ⟨segment.source, segment.sourceLine line, segment.sourceColumn column⟩

end SourceMap

end LiterateCheck
