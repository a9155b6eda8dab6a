import LiterateCheck.Disk.Lookup

/-!
# Changing a disk

Operations that write. Each may fail, and what it did before failing stays done.
-/

namespace LiterateCheck

/-- A run on a disk that may fail; a failed run leaves the disk as it had made it. -/
abbrev OnDisk (α : Type) := ExceptT SystemError (StateM Disk) α

namespace OnDisk

/-- An operation that changes the disk at once or not at all. -/
def change (step : Disk → Except SystemError Disk) : OnDisk Unit := do
  match step (← get) with
  | .ok disk => set disk
  | .error reason => throw reason

end OnDisk

namespace Disk

/-- Makes a directory in one that exists. -/
def makeDirectory (cwd : Location) (path : Path) (disk : Disk) : Except SystemError Disk :=
  match disk.find cwd false path path.names with
  | .ok (.vacant directory name) => .ok (disk.put (directory ++ [name]) .directory)
  | .ok (.entry ..) => .error .alreadyExists
  | .error reason => .error reason

/-- Writes a file. With `keep`, what it holds stays before what is written. -/
def writeBytes (cwd : Location) (path : Path) (keep : Bool) (bytes : ByteArray) (disk : Disk) :
    Except SystemError Disk :=
  match disk.locate cwd path with
  | .ok (.entry location (.file content executable)) =>
    .ok (disk.put location (.file (if keep then content ++ bytes else bytes) executable))
  | .ok (.entry _ _) => .error .isDirectory
  | .ok (.vacant directory name) => .ok (disk.put (directory ++ [name]) (.file bytes false))
  | .error reason => .error reason

/-- Writes the text of a file in place of what it holds. -/
def writeText (cwd : Location) (path : Path) (text : String) : Disk → Except SystemError Disk :=
  writeBytes cwd path false text.toUTF8

/-- Writes a text at the end of a file. -/
def appendText (cwd : Location) (path : Path) (text : String) : Disk → Except SystemError Disk :=
  writeBytes cwd path true text.toUTF8

/-- Copies a file over another. A file copied over itself is left empty. -/
def copyFile (cwd : Location) (source target : Path) (disk : Disk) : Except SystemError Disk :=
  match disk.lookup cwd source with
  | .ok (origin, .file content executable) =>
    match disk.locate cwd target with
    | .ok (.entry location (.file _ _)) =>
      .ok (disk.put location
        (.file (if location = origin then ByteArray.empty else content) executable))
    | .ok (.entry _ _) => .error .isDirectory
    | .ok (.vacant directory name) =>
      .ok (disk.put (directory ++ [name]) (.file content executable))
    | .error reason => .error reason
  | .ok _ => .error .notRegularFile
  | .error reason => .error reason

/-- Makes a link. -/
def makeLink (cwd : Location) (target path : Path) (disk : Disk) : Except SystemError Disk :=
  match disk.find cwd false path path.steps with
  | .ok (.vacant directory name) => .ok (disk.put (directory ++ [name]) (.link target))
  | .ok (.entry ..) => .error .alreadyExists
  | .error reason => .error reason

/-- Makes a directory and the missing ones that lead to it; `fuel` bounds their number. -/
def makeDirectories (cwd : Location) : Nat → Path → OnDisk Unit
  | 0, _ => throw .notFound
  | fuel + 1, path =>
    if path.isEmpty then pure ()
    else do
      match makeDirectory cwd path (← get) with
      | .ok disk => set disk
      | .error reason =>
        if reason = .notFound then
          match path.parent? with
          | none => throw reason
          | some parent =>
            makeDirectories cwd fuel parent
            match makeDirectory cwd path (← get) with
            | .ok disk => set disk
            | .error reason => if (← get).isDirectory cwd path then pure () else throw reason
        else if (← get).isDirectory cwd path then pure ()
        else throw reason

/-- Makes a directory and the missing ones that lead to it. -/
def makeAll (cwd : Location) (path : Path) : OnDisk Unit :=
  makeDirectories cwd (path.parts.length + 1) path

/-- Removes a directory with all it holds. A link is removed and what it leads to is kept. What the
directory holds goes first; when the way of the path went through it, the directory stays. A path
that ends in `.` or `..`, or in a separator after a link, is emptied but cannot be removed. -/
def removeAll (cwd : Location) (path : Path) : OnDisk Unit := do
  match (← get).find cwd false path path.steps with
  | .error reason => throw reason
  | .ok (.vacant ..) => throw .notFound
  | .ok (.entry location (.link _)) => modify fun disk => disk.remove location
  | .ok (.entry _ (.file ..)) => throw .notDirectory
  | .ok (.entry location .directory) =>
    modify fun disk => disk.removeBelow location
    match (← get).walk false maxLinks (start cwd path) path.names with
    | .error reason => throw reason
    | .ok (.vacant ..) => throw .notFound
    | .ok (.entry _ (.link _)) => throw .notDirectory
    | .ok (.entry ..) =>
      match path.names.getLast? with
      | some "." => throw .invalidArgument
      | some ".." => throw .directoryNotEmpty
      | _ => modify fun disk => disk.remove location

end Disk

end LiterateCheck
