import LiterateCheck.Path
import LiterateCheck.Pattern.Glob
import LiterateCheck.SystemError

/-!
# Errors of a check

Each way in which a run can fail, by its cause, with the message, the diagnostic code and the advice
that are shown for it.
-/

namespace LiterateCheck

/-- The commands of the toolchain that are used. -/
inductive Subcommand where
  | check
  | test
  deriving DecidableEq, Repr

def Subcommand.text : Subcommand → String
  | check => "check"
  | test => "test"

/-- Why a group could not be written. -/
inductive WriteFault where
  | system (reason : SystemError)
  /-- The group's key leaves the output root. -/
  | keyOutside (key : String)
  deriving DecidableEq, Repr

def WriteFault.message : WriteFault → String
  | system reason => reason.message
  | keyOutside key =>
    "group key `" ++ key ++ "` does not name a directory inside the output root"

/-- How a run can fail. -/
inductive CheckError where
  | io (reason : SystemError)
  | readDocument (path : Path) (reason : SystemError)
  | clearOutput (path : Path) (reason : SystemError)
  | materialize (path : Path) (reason : WriteFault)
  | complementaryDir (path : Path) (reason : SystemError)
  | configParse
  | invalidPattern (pattern : String) (quoted : String) (fault : GlobFault)
  | toolSpawn (program : String) (subcommand : Subcommand) (reason : SystemError)
  | symlinkCycle (path : Path)
  deriving DecidableEq, Repr

namespace CheckError

def message : CheckError → String
  | io reason => reason.message
  | readDocument path reason =>
    "failed to read document `" ++ path.shown ++ "`: " ++ reason.message
  | clearOutput path reason =>
    "failed to clear output directory `" ++ path.shown ++ "`: " ++ reason.message
  | materialize path reason => "failed to materialize `" ++ path.shown ++ "`: " ++ reason.message
  | complementaryDir path reason =>
    "failed to read complementary directory `" ++ path.shown ++ "`: " ++ reason.message
  | configParse => "failed to parse config file"
  | invalidPattern pattern quoted fault =>
    "invalid pattern `" ++ pattern ++ "`: error parsing glob '" ++ quoted ++ "': " ++ fault.message
  | toolSpawn program subcommand reason =>
    "failed to run `" ++ program ++ " " ++ subcommand.text ++ "`: " ++ reason.message
  | symlinkCycle path => "symlink cycle detected at: `" ++ path.shown ++ "`"

/-- The code under which an error is reported. -/
def code : CheckError → String
  | io _ => "mbt_check::io_error"
  | readDocument .. => "mbt_check::read_document"
  | clearOutput .. => "mbt_check::clear_output"
  | materialize .. => "mbt_check::materialize"
  | complementaryDir .. => "mbt_check::complementary_dir"
  | configParse => "mbt_check::config_parse"
  | invalidPattern .. => "mbt_check::invalid_pattern"
  | toolSpawn .. => "mbt_check::tool_spawn"
  | symlinkCycle _ => "mbt_check::symlink_cycle"

/-- The advice that goes with an error. -/
def help? : CheckError → Option String
  | io _ | readDocument .. | materialize .. => none
  | clearOutput .. =>
    some "remove the directory manually or choose another `--output` location"
  | complementaryDir .. =>
    some "`--complementary` must point to a readable directory of `*.mbt` files"
  | configParse => some "check that mbt-check.toml is valid TOML"
  | invalidPattern .. =>
    some "include patterns use glob syntax, exclude patterns use gitignore syntax"
  | toolSpawn .. =>
    some "make sure the moon toolchain is installed or pass `--moon <path>`"
  | symlinkCycle _ => some "remove the circular symlink or exclude this path"

end CheckError

end LiterateCheck
