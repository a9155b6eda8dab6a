import LiterateCheck.CommandLine.Usage
import LiterateCheck.Disk.Difference
import LiterateCheck.Shell.Launch

/-!
# The command line

The program takes up what it may look at from the file system, carries out one session on it, puts
back what the session changed, and shows the transcript.
-/

namespace LiterateCheck

/-- The place of a location in the file system. -/
def Location.text (location : Location) : String :=
  location.path.text

/-- Takes up what stands at a location, with everything below it. -/
partial def takeUp (disk : Disk) (location : Location) : IO Disk := do
  let here := (← IO.currentDir) / location.text
  let kind ← try pure (some (← here.symlinkMetadata).type) catch _ => pure none
  match kind with
  | some .dir =>
    let names := (← here.readDir).toList.map fun item => item.fileName
    let disk := disk.put location .directory
    names.foldlM (fun disk name => takeUp disk (location ++ [name])) disk
  | some .symlink =>
    let target ← try pure (← IO.FS.realPath here).toString catch _ => pure "missing"
    return disk.put location (.link ⟨target⟩)
  | some .file =>
    let content ← IO.FS.readBinFile here
    return disk.put location (.file content (content.toList.take 2 == "#!".toUTF8.toList))
  | _ => return disk

/-- Takes up the directories that lead to a location, and what stands there. -/
def takeUpWithParents (disk : Disk) (location : Location) : IO Disk := do
  let parents := (List.range location.length).map fun n => location.take n
  let disk := (parents.filter fun parent => parent != [] && (disk.entryAt? parent).isNone).foldl
    (fun disk parent => disk.put parent .directory) disk
  if (disk.entryAt? location).isSome then return disk else takeUp disk location

/-- The locations that a session may look at: its directory, and what its words name outside it. -/
def sessionLocations (cwd : Path) (words : List String) : List Location :=
  let named := words.filterMap fun word => Path.absolute? cwd ⟨word⟩
  let outside := (named.filter fun path => !path.startsWith cwd).map fun path => path.names
  cwd.names :: outside.filter fun location => !location.contains ".." && location != []

/-- Puts one entry back. -/
def putBack (item : Location × Entry) : IO Unit := do
  match item.2 with
  | .directory => IO.FS.createDirAll item.1.text
  | .file content executable =>
    IO.FS.writeBinFile item.1.text content
    if executable then
      let all : IO.AccessRight := ⟨true, true, true⟩
      IO.setAccessRights item.1.text ⟨all, all, all⟩
    else pure ()
  | .link _ => pure ()

/-- Takes one entry away. -/
def takeAway (item : Location × Entry) : IO Unit := do
  match item.2 with
  | .directory => IO.FS.removeDir item.1.text
  | _ => IO.FS.removeFile item.1.text

/-- The variables of the environment that a session looks at. -/
def sessionVariables : List String := ["NO_COLOR", "RUST_LOG", "MBT_CHECK_MOON", "HOME"]

end LiterateCheck

open LiterateCheck in
def main (words : List String) : IO UInt32 := do
  let cwd : Path := ⟨(← IO.currentDir).toString⟩
  let bindings ← sessionVariables.filterMapM fun name => do
    return (← IO.getEnv name).map fun value => (name, value)
  let before ← (sessionLocations cwd words).foldlM takeUpWithParents Disk.empty
  let environment : Environment :=
    ⟨cwd.names, bindings, Shell.toolchain cwd.names bindings⟩
  let (transcript, after) := Session.run environment words before
  (before.removed after).forM takeAway
  (before.changed after).forM putBack
  IO.print transcript.outputText
  IO.eprint transcript.errorText
  return UInt32.ofNat (transcript.code?.getD 0)
