import LiterateCheck.Error

/-!
# Reports of the toolchain

What the runs of the toolchain on a project gave: the check, and the tests when they were run. The
project passes when every run ended with status zero.
-/

namespace LiterateCheck

/-- What one run of the toolchain gave. -/
structure ToolOutput where
  subcommand : Subcommand
  /-- The exit status; none when a signal ended the run. -/
  code? : Option Int
  stdout : String
  stderr : String
  deriving DecidableEq, Repr

def ToolOutput.success (output : ToolOutput) : Bool :=
  output.code? == some 0

/-- The runs on a project. -/
structure CheckReport where
  check : ToolOutput
  /-- The tests, when they were asked for and the check passed. -/
  test? : Option ToolOutput
  deriving DecidableEq, Repr

namespace CheckReport

/-- The runs in the order in which they were made. -/
def outputs (report : CheckReport) : List ToolOutput :=
  report.check :: report.test?.toList

/-- Whether every run passed. -/
def isOk (report : CheckReport) : Bool :=
  report.check.success && report.test?.all ToolOutput.success

/-- The first run that failed. -/
def failure? (report : CheckReport) : Option ToolOutput :=
  if !report.check.success then some report.check
  else report.test?.filter fun test => !test.success

end CheckReport

end LiterateCheck
