import LiterateCheck.Disk.Basic
import LiterateCheck.SystemError

/-!
# Finding a path on a disk

A path is followed step by step from the root or from the working directory. A link on the way is
followed from the directory it stands in; a link at the end only when that is asked for, or when a
separator follows. At most forty links are followed.
-/

namespace LiterateCheck

/-- Where a path leads. -/
inductive Found where
  | entry (location : Location) (entry : Entry)
  /-- Nothing has that name in that directory. -/
  | vacant (directory : Location) (name : String)

/-- The number of bytes that a name may have. -/
def maxNameSize : Nat := 255

/-- The number of bytes that a path stays below. -/
def maxPathSize : Nat := 4096

/-- The number of links that are followed for one path. -/
def maxLinks : Nat := 40

namespace Path

/-- The names of a path, with `.` and `..` among them. -/
def names (path : Path) : List String :=
  path.parts.filter fun part => !part.isEmpty

def endsInSeparator (path : Path) : Bool :=
  path.text.toList.getLast? == some '/'

/-- The steps of a path. A separator at the end asks for a directory, as a last `.` does. -/
def steps (path : Path) : List String :=
  if path.endsInSeparator then path.names ++ ["."] else path.names

end Path

namespace Disk

/-- Follows steps from a directory. -/
def walk (disk : Disk) (followLast : Bool) (links : Nat) (here : Location) :
    List String → Except SystemError Found
  | [] => .ok (.entry here .directory)
  | name :: rest =>
    if name = "." then disk.walk followLast links here rest
    else if name = ".." then disk.walk followLast links here.dropLast rest
    else if maxNameSize < Text.rawSize name then .error .nameTooLong
    else
      let there := here ++ [name]
      match disk.entryAt? there with
      | none => if rest.isEmpty then .ok (.vacant here name) else .error .notFound
      | some .directory => disk.walk followLast links there rest
      | some (.file content executable) =>
        if rest.isEmpty then .ok (.entry there (.file content executable))
        else .error .notDirectory
      | some (.link target) =>
        if rest.isEmpty && !followLast then .ok (.entry there (.link target))
        else if target.isEmpty then .error .notFound
        else
          match links with
          | 0 => .error .linkLoop
          | links + 1 =>
            disk.walk followLast links (if target.isAbsolute then [] else here)
              (target.steps ++ rest)
  termination_by steps => (links, steps.length)

/-- The directory that a path starts from. -/
def start (cwd : Location) (path : Path) : Location :=
  if path.isAbsolute then [] else cwd

/-- Follows steps from where a path starts. -/
def find (disk : Disk) (cwd : Location) (followLast : Bool) (path : Path) (steps : List String) :
    Except SystemError Found :=
  if Text.holdsNul path.text then .error .nulInName
  else if path.isEmpty then .error .notFound
  else if maxPathSize ≤ path.size then .error .nameTooLong
  else if path.isAbsolute then disk.walk followLast maxLinks [] steps
  else if (disk.entryAt? cwd).any Entry.isDirectory then disk.walk followLast maxLinks cwd steps
  else .error .notFound

/-- Where a path leads, all links followed. -/
def locate (disk : Disk) (cwd : Location) (path : Path) : Except SystemError Found :=
  disk.find cwd true path path.steps

/-- What stands at the end of a path, all links followed. -/
def lookup (disk : Disk) (cwd : Location) (path : Path) :
    Except SystemError (Location × Entry) :=
  match disk.locate cwd path with
  | .ok (.entry location entry) => .ok (location, entry)
  | .ok (.vacant ..) => .error .notFound
  | .error reason => .error reason

def existsAt (disk : Disk) (cwd : Location) (path : Path) : Bool :=
  match disk.lookup cwd path with
  | .ok _ => true
  | .error _ => false

def isDirectory (disk : Disk) (cwd : Location) (path : Path) : Bool :=
  match disk.lookup cwd path with
  | .ok (_, entry) => entry.isDirectory
  | .error _ => false

def isFile (disk : Disk) (cwd : Location) (path : Path) : Bool :=
  match disk.lookup cwd path with
  | .ok (_, entry) => entry.isFile
  | .error _ => false

/-- What an absolute path without links is short enough to name. -/
def withinReach (disk : Disk) : Disk :=
  disk.keep fun location => location.size < maxPathSize

/-- The absolute path of what a path leads to, without links. The path itself may have any size, but
all that stands on its way is looked at by such a path of its own. -/
def canonical? (disk : Disk) (cwd : Location) (path : Path) : Option Path :=
  if Text.holdsNul path.text || path.isEmpty then none
  else if path.isAbsolute || (disk.entryAt? cwd).any Entry.isDirectory then
    match disk.withinReach.walk true maxLinks (start cwd path) path.steps with
    | .ok (.entry location _) => some location.path
    | _ => none
  else none

/-- The bytes of a file. -/
def bytesAt (disk : Disk) (cwd : Location) (path : Path) : Except SystemError ByteArray :=
  match disk.lookup cwd path with
  | .ok (_, .file content _) => .ok content
  | .ok _ => .error .isDirectory
  | .error reason => .error reason

/-- The text of a file. -/
def textAt (disk : Disk) (cwd : Location) (path : Path) : Except SystemError String :=
  match disk.bytesAt cwd path with
  | .ok content =>
    match String.fromUTF8? content with
    | some text => .ok text
    | none => .error .notText
  | .error reason => .error reason

/-- The entries of a directory, links not followed. -/
def list (disk : Disk) (cwd : Location) (path : Path) :
    Except SystemError (List (String × Entry)) :=
  match disk.lookup cwd path with
  | .ok (location, .directory) => .ok (disk.children location)
  | .ok _ => .error .notDirectory
  | .error reason => .error reason

end Disk

end LiterateCheck
