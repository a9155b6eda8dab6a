import LiterateCheck.Project.Write

/-!
# From documents to a project

Documents are read in order, and scanned before anything is written: a document that cannot be read
leaves an earlier project in place.
-/

namespace LiterateCheck

/-- The supplementary sources of a directory: the files directly in it with the extension of
sources, in the order of their paths. -/
def listSupplements (disk : Disk) (cwd : Location) (directory : Path) :
    Except CheckError (List Path) :=
  match disk.list cwd directory with
  | .error reason => .error (.complementaryDir directory reason)
  | .ok entries =>
    let files := entries.filterMap fun (name, entry) =>
      let path := directory.join ⟨name⟩
      if entry.isFile && path.extension? == some sourceExtension then some path else none
    .ok (Path.sort files)

/-- Reads documents, in order, and reports the notices of each. -/
def readDocuments (cwd : Location) (documents : List Path) : Run (List Placement) := do
  let placed ← documents.mapM fun document => do
    match (← Run.disk).textAt cwd document with
    | .error reason => throw (.readDocument document reason)
    | .ok content =>
      let placements := Placement.ofDocument document content
      Run.notify (placements.filterMap Placement.notice?)
      return placements
  return placed.flatten

/-- The table of some documents on disk. -/
def extract (cwd : Location) (documents : List Path) : Run GroupTable := do
  return GroupTable.empty.place (← readDocuments cwd documents)

/-- Reads documents and writes their project to a root, which is cleared before. -/
def generateProject (cwd : Location) (documents : List Path) (root : Path)
    (options : ProjectOptions) : Run (GroupTable × ProjectTree) := do
  let table ← extract cwd documents
  Run.notify [.extracted documents.length table.size table.blockCount]
  prepareRoot cwd root
  let tree ← writeProject cwd table root options
  Run.notify [.materialized root]
  return (table, tree)

end LiterateCheck
