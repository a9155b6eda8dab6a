import LiterateCheck.Report
import LiterateCheck.Run
import LiterateCheck.Text.Utf8

/-!
# Checking a project

The toolchain is run inside the generated project: the check first, then the tests when they are
asked for and the check passed. That a run fails is part of the report; only a program that cannot
be started is an error.
-/

namespace LiterateCheck

/-- A program to be started with one argument in a directory. -/
structure Invocation where
  program : String
  subcommand : Subcommand
  directory : Path
  deriving DecidableEq, Repr

/-- How a program ended. -/
structure Completed where
  /-- The exit status; none when a signal ended the program. -/
  code? : Option Int
  stdout : ByteArray
  stderr : ByteArray
  deriving BEq

/-- What starting programs does: it gives how the program ended, or why it could not be started. -/
abbrev Toolchain := Invocation → OnDisk Completed

/-- A program as it is named from the directory `base`: a relative path of several components is
joined to it, a bare name is left to be searched for. -/
def anchorProgram (program : String) (base : Path) : String :=
  let path : Path := ⟨program⟩
  if !path.isAbsolute && 1 < path.components.length then (base.join path).shown else program

/-- The text of a program's output. -/
def outputText (bytes : ByteArray) : String :=
  String.ofList (Text.decodeLossy bytes.data.toList)

namespace CheckReport

/-- Runs one command of the toolchain. -/
def runCommand (toolchain : Toolchain) (program : String) (root : Path) (subcommand : Subcommand) :
    Run ToolOutput := do
  Run.notify [.running program subcommand root]
  let completed ←
    Run.onDisk (.toolSpawn program subcommand) (toolchain ⟨program, subcommand, root⟩)
  return ⟨subcommand, completed.code?, outputText completed.stdout, outputText completed.stderr⟩

/-- Checks a project, and runs its tests when that is asked for and the check passed. -/
def run (toolchain : Toolchain) (program : String) (root : Path) (runTests : Bool) :
    Run CheckReport := do
  let check ← runCommand toolchain program root .check
  if runTests && check.success then
    return ⟨check, some (← runCommand toolchain program root .test)⟩
  else return ⟨check, none⟩

end CheckReport

end LiterateCheck
