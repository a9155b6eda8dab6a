import LiterateCheck.Config
import LiterateCheck.Project.Layout
import LiterateCheck.Run
import LiterateCheck.Text.Json

/-!
# Writing a project

Each group of a table becomes a package: a directory named by the group's key, with the group's
blocks, a package description, and copies of the supplementary sources that belong to it. The module
description is written last. The first failure ends the writing.
-/

namespace LiterateCheck

/-- How a project is written. -/
structure ProjectOptions where
  warnList : String
  moduleConfig : ModuleConfig
  /-- The supplementary sources. -/
  complementary : List Path
  deriving DecidableEq, Repr

def ProjectOptions.default : ProjectOptions := ⟨defaultWarnList, .default, []⟩

/-- What was written for a group. -/
structure GroupSummary where
  key : String
  directory : Path
  /-- The number of blocks, those of the baseline included. -/
  blockCount : Nat
  /-- The generated files, in the order in which they were first written. -/
  generated : List Path
  /-- The copies of supplementary sources. -/
  copied : List Path
  deriving DecidableEq, Repr

/-- A project on disk. -/
structure ProjectTree where
  root : Path
  /-- The groups in key order. -/
  groups : List GroupSummary
  sourceMap : SourceMap
  deriving DecidableEq, Repr

/-- The name of an output root: of the directory that it leads to, or as it is written when there is
none. -/
def outputName? (disk : Disk) (cwd : Location) (root : Path) : Option String :=
  ((disk.canonical? cwd root).getD root).fileName?.map Text.shown

/-- A source map without segments for a project in a root. -/
def SourceMap.forRoot (disk : Disk) (cwd : Location) (root : Path) : SourceMap :=
  ⟨[], outputName? disk cwd root⟩

/-- Removes what stands in the output root and makes it anew. -/
def prepareRoot (cwd : Location) (root : Path) : Run Unit := do
  Run.onDisk (.clearOutput root) <|
    tryCatch (Disk.removeAll cwd root) fun reason =>
      if reason = .notFound then pure () else throw reason
  Run.onDisk (.materialize root ∘ .system) (Disk.makeAll cwd root)

/-- The directory of a group. A key stays inside the output root when all its components are names;
the empty key stands for the root itself. -/
def groupDirectory (root : Path) (key : String) : Except CheckError Path :=
  let inside := (Path.mk key).components.all fun
    | .name _ => true
    | _ => false
  if inside then .ok (root.join ⟨key⟩)
  else .error (.materialize (root.join ⟨key⟩) (.keyOutside key))

/-- Changes a file of the project. -/
def changeFile (path : Path) (step : Disk → Except SystemError Disk) : Run Unit :=
  Run.onDisk (.materialize path ∘ .system) (OnDisk.change step)

/-- Writes a block to the end of its file. -/
def writeChunk (cwd : Location) (directory : Path) (chunk : Chunk) : Run Unit :=
  let path := directory.join ⟨chunk.fileName⟩
  changeFile path (Disk.appendText cwd path chunk.text)

/-- The supplementary sources that belong to a group: those whose stem is its key, or the
baseline's. -/
def supplements (key : String) (files : List Path) : List Path :=
  files.filter fun file =>
    match supplementaryStem? file with
    | some stem => stem = key || stem = baselineGroup
    | none => false

/-- Copies a supplementary source into a group and gives the copy's path. -/
def copySupplement (cwd : Location) (directory file : Path) : Run Path := do
  let target := directory.join ⟨file.fileName?.getD ""⟩
  changeFile target (Disk.copyFile cwd file target)
  return target

/-- Writes one group. -/
def writeGroup (cwd : Location) (root : Path) (options : ProjectOptions) (key : String)
    (blocks : List CodeBlock) : Run GroupSummary := do
  if key.isEmpty then Run.notify [.emptyKeyInRoot]
  let directory ← Run.ofExcept (groupDirectory root key)
  Run.onDisk (.materialize directory ∘ .system) (Disk.makeAll cwd directory)
  (chunks blocks).forM (writeChunk cwd directory)
  let package := directory.join packageFile
  changeFile package
    (Disk.writeText cwd package (Text.jsonObject [("warn-list", options.warnList)]))
  let copied ← (supplements key options.complementary).mapM (copySupplement cwd directory)
  return { key := key, directory := directory, blockCount := blocks.length
           generated := (generatedNames blocks).map fun name => directory.join ⟨name⟩
           copied := copied }

/-- Writes the groups of a table below a root, and the module description. -/
def writeProject (cwd : Location) (table : GroupTable) (root : Path) (options : ProjectOptions) :
    Run ProjectTree := do
  let name? := outputName? (← Run.disk) cwd root
  let groups ← table.keys.mapM fun key => writeGroup cwd root options key (table.effective key)
  let manifest := root.join moduleFile
  changeFile manifest
    (Disk.writeText cwd manifest
      (Text.jsonObject
        [("name", options.moduleConfig.name), ("version", options.moduleConfig.version)]))
  return ⟨root, groups, ⟨table.segments, name?⟩⟩

end LiterateCheck
