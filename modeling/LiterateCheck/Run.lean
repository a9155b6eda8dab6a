import LiterateCheck.Disk.Change
import LiterateCheck.Notice

/-!
# Runs

A run works on a disk, reports notices, and may fail. What it wrote and reported before failing
stays.
-/

namespace LiterateCheck

/-- What a run changes: the disk, and the notices so far, the latest last. -/
structure World where
  disk : Disk
  notices : List Notice

/-- A run that gives a value or fails. -/
abbrev Run (α : Type) := ExceptT CheckError (StateM World) α

namespace Run

/-- Reports notices. -/
def notify (notices : List Notice) : Run Unit :=
  modify fun world => { world with notices := world.notices ++ notices }

/-- Looks at the disk. -/
def disk : Run Disk := do
  return (← get).disk

/-- Gives a value or fails. -/
def ofExcept (result : Except CheckError α) : Run α :=
  match result with
  | .ok a => pure a
  | .error error => throw error

/-- Changes the disk; `fault` turns the reason of a failure into an error. -/
def onDisk (fault : SystemError → CheckError) (action : OnDisk α) : Run α := do
  let world ← get
  let (result, disk) := action.run.run world.disk
  set { world with disk := disk }
  match result with
  | .ok a => pure a
  | .error reason => throw (fault reason)

end Run

end LiterateCheck
