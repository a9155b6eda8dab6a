import LiterateCheck.Checker
import LiterateCheck.CommandLine.Arguments
import LiterateCheck.CommandLine.Log
import LiterateCheck.Discovery
import LiterateCheck.Project.Generate
import LiterateCheck.Watch

/-!
# A session on the command line

A session reads its arguments, settles what they and the configuration ask for, and makes one run:
documents are selected or discovered, their project is generated and checked, and the outcome is
told. Under a watch, what follows the first run is told only where it fails at once.
-/

namespace LiterateCheck

/-- Where a session is started. -/
structure Environment where
  cwd : Location
  /-- The variables that are set. -/
  bindings : List (String × String)
  toolchain : Toolchain

namespace Environment

def valueOf? (environment : Environment) (name : String) : Option String :=
  environment.bindings.lookup name

end Environment

/-- Something that is written to standard error. -/
inductive Remark where
  | text (text : String)
  /-- An error of a run, with its code and its advice. -/
  | diagnostic (error : CheckError)
  /-- How the program is used. -/
  | usage (error : ArgumentError)
  deriving DecidableEq, Repr

/-- Something that is written to standard output. -/
inductive Output where
  | text (text : String)
  | help
  deriving DecidableEq, Repr

/-- What a session showed, and how it ended. -/
structure Transcript where
  /-- The exit status; none for a session that goes on. -/
  code? : Option Nat
  stdout : List Output
  stderr : List Remark
  deriving DecidableEq, Repr

/-- What the arguments and the configuration ask for. -/
structure Settings where
  root : Path
  config : Config
  outputRoot : Path
  complementary? : Option Path
  moon : String
  runTests : Bool
  deriving DecidableEq, Repr

/-- How a run ended that did not fail itself. -/
inductive Verdict where
  | passed
  /-- The check or the tests failed. -/
  | failed
  deriving DecidableEq, Repr

/-- What a run tells: its verdict, and what it writes to either stream. -/
structure Told where
  verdict : Verdict
  stdout : String
  stderr : String
  deriving DecidableEq, Repr

namespace Session

/-- Whether colours are used: neither the arguments nor the environment forbid it. -/
def usesColor (environment : Environment) (arguments : Arguments) : Bool :=
  !arguments.noColor && (environment.valueOf? "NO_COLOR").isNone

def logFilter (environment : Environment) (arguments : Arguments) : LogFilter :=
  match environment.valueOf? "RUST_LOG" with
  | some text => .parse text
  | none => if arguments.verbose then .everything else .warnings

/-- The program that checks, anchored where it was written: in the working directory for an argument
or a variable, in the project's root for the configuration. -/
def checkerProgram (environment : Environment) (arguments : Arguments) (root : Path)
    (config : Config) : String :=
  match arguments.moon? <|> environment.valueOf? "MBT_CHECK_MOON" with
  | some moon => anchorProgram moon environment.cwd.path
  | none => anchorProgram config.moon root

/-- The settings of a session: an argument goes before the configuration. -/
def settings (environment : Environment) (arguments : Arguments) (disk : Disk) :
    Except CheckError Settings := do
  let root := arguments.path?.getD environment.cwd.path
  let config ← Config.loadOrDefault disk environment.cwd root
  .ok
    { root := root, config := config
      outputRoot := arguments.output?.getD (root.join config.outputDir)
      complementary? := arguments.complementary? <|> config.complementary?.map root.join
      moon := checkerProgram environment arguments root config
      runTests := arguments.test || config.runTests }

/-- The documents of a run: the literate ones of the arguments, or those discovered. -/
def documents (environment : Environment) (arguments : Arguments) (settings : Settings) :
    Run (List Path) := do
  let documents ←
    if arguments.files.isEmpty then
      Run.ofExcept (discover (← Run.disk) environment.cwd settings.root settings.config)
    else
      let (documents, notices) := selectDocuments arguments.files
      Run.notify notices
      pure documents
  if documents.isEmpty then Run.notify [.noDocuments]
  return documents

/-! ## What is told -/

/-- A tool's output with its locations led back to the documents, unless it is wanted raw. -/
def relayed (raw : Bool) (map : SourceMap) (text : String) : String :=
  if raw then text else map.relocate text

/-- What a run of the toolchain that passed writes to standard error. -/
def warningText (useColor raw : Bool) (map : SourceMap) (output : ToolOutput) : String :=
  if output.success && !output.stderr.isEmpty then
    colored useColor .yellow "warning:" ++ " moon " ++ output.subcommand.text ++ " reported:\n" ++
      relayed raw map output.stderr
  else ""

/-- The exit status of a run that failed, in words. -/
def statusText (output : ToolOutput) : String :=
  match output.code? with
  | some code => toString code
  | none => "signal"

/-- What a run of the toolchain that failed writes to standard error. -/
def failureText (useColor raw : Bool) (map : SourceMap) (output : ToolOutput) : String :=
  colored useColor .red "error:" ++ " moon " ++ output.subcommand.text ++
    " failed (exit code " ++ statusText output ++ ")\n" ++ relayed raw map output.stderr

/-- The last line after a report in which everything passed. -/
def successText (useColor : Bool) (report : CheckReport) (documents groups : Nat) : String :=
  let verb := if report.test?.isSome then "Check and tests passed:" else "Check passed:"
  colored useColor .green verb ++ " " ++ toString documents ++ " document(s) in " ++
    toString groups ++ " group(s).\n"

/-- What is told of a report: the output of every run, the warnings of those that passed, and then
the failure or the success. -/
def tell (useColor raw : Bool) (map : SourceMap) (report : CheckReport) (documents groups : Nat) :
    Told :=
  let stdout := String.join (report.outputs.map fun output => relayed raw map output.stdout)
  let stderr := String.join (report.outputs.map (warningText useColor raw map))
  match report.failure? with
  | some failure => ⟨.failed, stdout, stderr ++ failureText useColor raw map failure⟩
  | none => ⟨.passed, stdout ++ successText useColor report documents groups, stderr⟩

/-- What is told when nothing is to be checked. -/
def extractedText (table : GroupTable) (tree : ProjectTree) (documents : Nat) : String :=
  "Extracted " ++ toString table.blockCount ++ " block(s) from " ++ toString documents ++
    " document(s) into " ++ toString tree.groups.length ++ " group(s) at " ++ tree.root.shown ++ "\n"

/-- One run: documents are found, their project is generated and, unless only that is wanted,
checked. -/
def runOnce (environment : Environment) (arguments : Arguments) (settings : Settings) :
    Run Told := do
  let documents ← documents environment arguments settings
  let complementary ←
    match settings.complementary? with
    | some directory => Run.ofExcept (listSupplements (← Run.disk) environment.cwd directory)
    | none => pure []
  let options : ProjectOptions :=
    ⟨settings.config.warnList, settings.config.moduleConfig, complementary⟩
  let (table, tree) ← generateProject environment.cwd documents settings.outputRoot options
  if arguments.extractOnly then
    return ⟨.passed, extractedText table tree documents.length, ""⟩
  else
    let report ←
      CheckReport.run environment.toolchain settings.moon tree.root settings.runTests
    return tell (usesColor environment arguments) arguments.rawDiagnostics tree.sourceMap report
      documents.length tree.groups.length

/-! ## Whole sessions -/

/-- A run from the arguments on. -/
def single (environment : Environment) (arguments : Arguments) : Run Told := do
  let settings ← Run.ofExcept (settings environment arguments (← Run.disk))
  runOnce environment arguments settings

/-- The lines of the log for some notices. -/
def logRemarks (environment : Environment) (arguments : Arguments) (notices : List Notice) :
    List Remark :=
  let shown := notices.filter fun notice =>
    (logFilter environment arguments).shows notice.level
  shown.map fun notice => .text (notice.line (usesColor environment arguments))

/-- The transcript of a run. -/
def transcript (environment : Environment) (arguments : Arguments)
    (result : Except CheckError Told × World) : Transcript :=
  let log := logRemarks environment arguments result.2.notices
  match result.1 with
  | .ok told =>
    { code? := some (if told.verdict = .passed then 0 else 1)
      stdout := [.text told.stdout], stderr := log ++ [.text told.stderr] }
  | .error error => ⟨some 2, [], log ++ [.diagnostic error]⟩

/-- The line that begins a watch. -/
def watchText : String :=
  "\nWatching for file changes... (press Ctrl+C to stop)\n"

/-- The directories to be watched, up to and with the first that does not exist. -/
def watchable (disk : Disk) (cwd : Location) (directories : List Path) :
    List Path × Option Path :=
  let (found, rest) := directories.span (disk.existsAt cwd)
  (found ++ rest.take 1, rest.head?)

/-- What is written when a directory cannot be watched. -/
def watchFailure (useColor : Bool) (directory : Path) : String :=
  colored useColor .red "error:" ++ " No path was found. about [" ++
    Text.jsonString directory.text ++ "]\n"

/-- A session under a watch, up to where it waits for changes or fails. -/
def watch (environment : Environment) (arguments : Arguments) (disk : Disk) : Transcript × Disk :=
  match settings environment arguments disk with
  | .error error => (⟨some 2, [], [.diagnostic error]⟩, disk)
  | .ok settings =>
    let result := (runOnce environment arguments settings).run.run ⟨disk, []⟩
    let first := transcript environment arguments result
    let disk := result.2.disk
    let stdout := first.stdout ++ [.text watchText]
    let fail (remarks : List Remark) : Transcript := ⟨some 2, stdout, first.stderr ++ remarks⟩
    let useColor := usesColor environment arguments
    if !disk.existsAt environment.cwd settings.root then
      (fail [.text (watchFailure useColor settings.root)], disk)
    else
      match extraWatchDirectories environment.cwd.path settings.root arguments.files
          settings.complementary? with
      | .error reason =>
        (fail [.text (colored useColor .red "error:" ++ " " ++ reason.message ++ "\n")], disk)
      | .ok directories =>
        let (named, missing?) := watchable disk environment.cwd directories
        let log := logRemarks environment arguments (named.map .watchingOutside)
        match missing? with
        | some missing => (fail (log ++ [.text (watchFailure useColor missing)]), disk)
        | none => (⟨none, stdout, first.stderr ++ log⟩, disk)

/-- The name and version of the program. -/
def versionText : String := "mbt_check_cli 0.1.0\n"

/-- A session with the words of a command line. -/
def run (environment : Environment) (words : List String) (disk : Disk) : Transcript × Disk :=
  match Arguments.parse words with
  | .error .displayHelp => (⟨some 0, [.help], []⟩, disk)
  | .error .displayVersion => (⟨some 0, [.text versionText], []⟩, disk)
  | .error error => (⟨some 2, [], [.usage error]⟩, disk)
  | .ok arguments =>
    if arguments.watch then watch environment arguments disk
    else
      let result := (single environment arguments).run.run ⟨disk, []⟩
      (transcript environment arguments result, result.2.disk)

end Session

end LiterateCheck
