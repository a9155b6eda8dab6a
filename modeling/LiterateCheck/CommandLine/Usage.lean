import LiterateCheck.CommandLine.Session

/-!
# Usage

The texts for a terminal: how the program is called, why a command line is refused, and how an error
of a run is shown.
-/

namespace LiterateCheck

/-- How the program is called. -/
def usageLine : String := "Usage: mbt-check [OPTIONS] [FILES]...\n"

/-- The options, each with what it does. -/
def optionHelp : List (String × String) :=
  [("--test", "Run the tests after a check that passed"),
   ("--complementary <DIR>", "Copy supplementary sources from a directory"),
   ("-p, --path <PATH>", "The root of the project"),
   ("-o, --output <PATH>", "The directory of the generated project"),
   ("--moon <PROGRAM>", "The program that checks"),
   ("--extract-only", "Generate the project and check nothing"),
   ("--raw-diagnostics", "Show diagnostics at their generated places"),
   ("--watch", "Check again after every change"),
   ("-v, --verbose", "Show more of the log"),
   ("--no-color", "Use no colours"),
   ("-h, --help", "Show this help"),
   ("-V, --version", "Show the version")]

def helpText : String :=
  let rows := optionHelp.map fun (option, text) =>
    "  " ++ option ++ "".pushn ' ' (24 - option.length) ++ text ++ "\n"
  usageLine ++ "\nOptions:\n" ++ String.join rows

namespace ArgumentError

def message : ArgumentError → String
  | invalidValue => "a value is missing or empty"
  | unknownArgument => "an argument is not known"
  | tooManyValues => "a flag takes no value"
  | argumentConflict => "an option is given twice"
  | displayHelp => "help was asked for"
  | displayVersion => "the version was asked for"

end ArgumentError

namespace CheckError

/-- An error of a run: its code, its message, and the advice that goes with it. -/
def report (error : CheckError) : String :=
  let advice :=
    match error.help? with
    | some help => "  help: " ++ help ++ "\n"
    | none => ""
  error.code ++ "\n\n  \u00d7 " ++ error.message ++ "\n" ++ advice

end CheckError

def Remark.render : Remark → String
  | .text shown => shown
  | .diagnostic error => error.report
  | .usage error => "error: " ++ error.message ++ "\n\n" ++ usageLine

def Output.render : Output → String
  | .text shown => shown
  | .help => helpText

namespace Transcript

/-- The text on standard output. -/
def outputText (transcript : Transcript) : String :=
  String.join (transcript.stdout.map Output.render)

/-- The text on standard error. -/
def errorText (transcript : Transcript) : String :=
  String.join (transcript.stderr.map Remark.render)

end Transcript

end LiterateCheck
