import LiterateCheck.Config
import LiterateCheck.Disk.Lookup

/-!
# Configuration files

A project's configuration is the first of some files below its root; with none, the defaults hold.
-/

namespace LiterateCheck.Config

/-- The configuration file of a root. -/
def path? (disk : Disk) (cwd : Location) (root : Path) : Option Path :=
  (candidates.map root.join).find? (disk.isFile cwd)

/-- The configuration of a root, when it has a file. -/
def load (disk : Disk) (cwd : Location) (root : Path) : Except CheckError (Option Config) :=
  match path? disk cwd root with
  | none => .ok none
  | some path =>
    match disk.textAt cwd path with
    | .error reason => .error (.io reason)
    | .ok text => (parse text).map some

def loadOrDefault (disk : Disk) (cwd : Location) (root : Path) : Except CheckError Config :=
  (load disk cwd root).map fun config? => config?.getD default

end LiterateCheck.Config
