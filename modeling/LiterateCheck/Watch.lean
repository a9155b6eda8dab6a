import LiterateCheck.Disk.Lookup

/-!
# What is watched

Besides the project's root, the directories of explicit documents and of supplementary sources are
watched where they lie outside it. Events in the output root are a run's own and are passed over.
-/

namespace LiterateCheck

/-- Adds a path unless one with the same components is there. -/
def addPath (paths : List Path) (path : Path) : List Path :=
  if paths.any path.same then paths else paths ++ [path]

/-- The directories to be watched besides the root: absolute, in order, each once. The empty path
names no directory. -/
def extraWatchDirectories (cwd root : Path) (documents : List Path) (complementary? : Option Path) :
    Except SystemError (List Path) := do
  let absolute (path : Path) : Except SystemError Path :=
    match Path.absolute? cwd path with
    | some absolute => .ok absolute
    | none => .error .emptyAbsolute
  let root ← absolute root
  let documents ← documents.mapM absolute
  let complementary ← complementary?.toList.mapM absolute
  let directories := documents.filterMap Path.parent? ++ complementary
  .ok <| (Path.sort (directories.foldl addPath [])).filter fun directory =>
    !directory.startsWith root

/-- Whether all paths of an event lie in the output root, as it is written or as it is found. -/
def isOutputEvent (disk : Disk) (cwd : Location) (paths : List Path) (outputRoot : Path) : Bool :=
  let canonical? := disk.canonical? cwd outputRoot
  !paths.isEmpty && paths.all fun path =>
    path.startsWith outputRoot || canonical?.any fun canonical => path.startsWith canonical

end LiterateCheck
