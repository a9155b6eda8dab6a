import LiterateCheck.ConfigFile
import LiterateCheck.Document
import LiterateCheck.Pattern.Ignore

/-!
# Discovering documents

The documents of a project are found by walking its directories, links followed. Hidden names,
dependencies and build outputs are passed over, and so are paths that the ignore rules or the
exclude patterns match, the output directory, and directories that are projects of their own. A
directory that is reached twice is reported as a cycle.
-/

namespace LiterateCheck

/-- What decides which paths are walked and kept. -/
structure Selection where
  /-- Whether a path is ignored, given whether it is a directory. -/
  ignored : Path → Bool → Bool
  /-- Whether a path is excluded, given whether it is a directory. -/
  excluded : Path → Bool → Bool
  /-- Whether a document is kept, given its path below the root. -/
  included : Path → Bool
  /-- A directory that is not entered. -/
  outputRoot : Path

/-- The state of a walk. -/
structure Walk where
  /-- What was noted of the directories that were listed. -/
  visited : List (List Component)
  /-- The documents that were found. -/
  files : List Path
  deriving Repr

/-- Whether no entry of that name is looked at. Only names that are UTF-8 are passed over. -/
def isPassedOver (name : String) : Bool :=
  match Text.utf8? name with
  | some name => name.toList.head? == some '.' || name == "node_modules" || name == "target"
  | none => false

/-- Whether a directory has a configuration of its own. -/
def hasConfig (disk : Disk) (cwd : Location) (directory : Path) : Bool :=
  (Config.path? disk cwd directory).isSome

namespace Walk

/-- Takes one entry of a directory; `enter` walks a directory. -/
def takeEntry (disk : Disk) (cwd : Location) (selection : Selection) (isRoot : Bool)
    (enter : Path → Walk → Except CheckError Walk) (path : Path) (name : String) (walk : Walk) :
    Except CheckError Walk :=
  if isPassedOver name then .ok walk
  else
    let isDirectory := disk.isDirectory cwd path
    if selection.ignored path isDirectory || selection.excluded path isDirectory then .ok walk
    else if isDirectory then
      if path.same selection.outputRoot || (!isRoot && hasConfig disk cwd path) then .ok walk
      else enter path walk
    else if isLiterate path then .ok { walk with files := walk.files ++ [path] }
    else .ok walk

/-- What is noted of a directory, to know it again: the components of its path without links, or of
the path that it is reached by when the system does not give one. -/
def mark (disk : Disk) (cwd : Location) (directory : Path) : List Component :=
  ((disk.canonical? cwd directory).getD directory).components

/-- Walks a directory. The paths grow on the way down, and none of `maxPathSize` bytes leads to a
directory, so with that much `fuel` all of them are gone through. -/
def run (disk : Disk) (cwd : Location) (selection : Selection) :
    Nat → Bool → Path → Walk → Except CheckError Walk
  | 0, _, _, walk => .ok walk
  | fuel + 1, isRoot, directory, walk =>
    match disk.lookup cwd directory with
    | .ok (location, .directory) =>
      if mark disk cwd directory ∈ walk.visited then .error (.symlinkCycle directory)
      else
        (disk.children location).foldlM
          (fun walk (name, _) =>
            takeEntry disk cwd selection isRoot (run disk cwd selection fuel false)
              (directory.join ⟨name⟩) name walk)
          { walk with visited := mark disk cwd directory :: walk.visited }
    | _ => .ok walk

end Walk

/-- The path of a document as seen from a root. -/
def relativePath (root path : Path) : Path :=
  Path.ofComponents ((path.relativeTo? root).getD path.components)

/-- The documents below a root that a selection keeps, in the order of their paths. -/
def discoverWith (disk : Disk) (cwd : Location) (root : Path) (selection : Selection) :
    Except CheckError (List Path) := do
  let walk ← Walk.run disk cwd selection maxPathSize true root ⟨[], []⟩
  .ok (Path.sort (walk.files.filter fun path => selection.included (relativePath root path)))

/-- The ignore rules of a project's root. -/
def ignoreRules (disk : Disk) (cwd : Location) (root : Path) : IgnoreRules :=
  match disk.bytesAt cwd (root.join ⟨".gitignore"⟩) with
  | .ok content => .ofFile root content
  | .error _ => ⟨root, []⟩

/-- How include patterns are read: `?` and `*` go over separators. -/
def includeStyle : Glob.Style := ⟨false, false⟩

/-- The globs of the include patterns, or the first pattern with a fault. -/
def includeGlobs (patterns : List String) : Except CheckError (List Glob) :=
  patterns.mapM fun pattern =>
    match Glob.parse includeStyle pattern with
    | .ok glob => .ok glob
    | .error fault => .error (.invalidPattern pattern pattern fault)

/-- What a configuration selects below a root. Without include patterns every document is kept. -/
def Selection.ofConfig (disk : Disk) (cwd : Location) (root : Path) (config : Config) :
    Except CheckError Selection := do
  let ignored : IgnoreRules :=
    if config.disableGitignore then ⟨root, []⟩ else ignoreRules disk cwd root
  let excluded ←
    match IgnoreRules.ofPatterns root config.excludePatterns with
    | .ok rules => Except.ok rules
    | .error (pattern, fault) =>
      .error (.invalidPattern pattern (IgnoreRule.quoted pattern) fault)
  let globs ← includeGlobs config.includePatterns
  .ok
    { ignored := ignored.ignores, excluded := excluded.ignores
      included := fun path => globs.isEmpty || globs.any fun glob => glob.isMatch path.text
      outputRoot := root.join config.outputDir }

/-- The documents of a project. -/
def discover (disk : Disk) (cwd : Location) (root : Path) (config : Config) :
    Except CheckError (List Path) := do
  discoverWith disk cwd root (← Selection.ofConfig disk cwd root config)

end LiterateCheck
