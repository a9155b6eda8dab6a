import LiterateCheck.Fence
import LiterateCheck.Group
import LiterateCheck.Notice

/-!
# Literate documents

The fences of a document that are kept become blocks of code, each with the groups it belongs to.
The blocks of several documents, in order, make a table of groups.
-/

namespace LiterateCheck

/-- The suffix of literate documents. -/
def literateSuffix : String := ".mbt.md"

/-- Whether a path names a literate document. A name that is not UTF-8 does not. -/
def isLiterate (path : Path) : Bool :=
  match path.fileName?.bind Text.utf8? with
  | some name => literateSuffix.toList.isSuffixOf name.toList
  | none => false

/-- The literate documents of a list of paths, with a notice for each of the others. -/
def selectDocuments (paths : List Path) : List Path × List Notice :=
  (paths.filter isLiterate, (paths.filter fun path => !isLiterate path).map .skippedFile)

/-- A block of a document and the groups it belongs to. -/
structure Placement where
  groups : List String
  block : CodeBlock
  deriving DecidableEq, Repr

namespace Placement

/-- The block that a fence of a document becomes, unless it is dropped. -/
def ofFence? (document : Path) (fence : Fence) : Option Placement :=
  match interpret fence.body fence.directiveTokens with
  | .discard => none
  | .keep code groups wrapped => some ⟨groups, ⟨document, code, fence.span?, wrapped⟩⟩

/-- The blocks of a document, in order. -/
def ofDocument (document : Path) (content : String) : List Placement :=
  (Fence.scan content).filterMap (ofFence? document)

/-- A block for the empty key is reported. -/
def notice? (placement : Placement) : Option Notice :=
  if placement.groups.contains "" then
    some (.emptyGroupKey placement.block.source (placement.block.span?.map (·.start)))
  else none

end Placement

namespace GroupTable

/-- Adds blocks to their groups, in order. -/
def place (table : GroupTable) (placements : List Placement) : GroupTable :=
  placements.foldl (fun table placement => table.push placement.groups placement.block) table

/-- The table of some documents, each given by its path and content. -/
def ofSources (sources : List (Path × String)) : GroupTable :=
  empty.place (sources.flatMap fun (path, content) => Placement.ofDocument path content)

end GroupTable

/-- The notices of some documents, in document and fence order. -/
def sourceNotices (sources : List (Path × String)) : List Notice :=
  (sources.flatMap fun (path, content) => Placement.ofDocument path content).filterMap
    Placement.notice?

end LiterateCheck
