import LiterateCheck.Path

/-!
# Arguments

The command line is read word by word. A value that a setting was given is checked only when the
next known option begins, when a file of another run begins, or at the end; until then a word that
is no option at all is the first error.
-/

namespace LiterateCheck

/-- The options without a value. -/
inductive Switch where
  | test
  | extractOnly
  | rawDiagnostics
  | watch
  | verbose
  | noColor
  deriving DecidableEq, Repr

/-- The options with a value. -/
inductive Setting where
  | complementary
  | path
  | output
  | moon
  deriving DecidableEq, Repr

/-- What an option's name stands for. -/
inductive OptionKind where
  | switch (switch : Switch)
  | setting (setting : Setting)
  | help
  | version
  deriving DecidableEq, Repr

/-- Why a command line is not carried out. -/
inductive ArgumentError where
  | invalidValue
  | unknownArgument
  | tooManyValues
  | argumentConflict
  | displayHelp
  | displayVersion
  deriving DecidableEq, Repr

/-- What a command line asks for. -/
structure Arguments where
  files : List Path
  test : Bool
  complementary? : Option Path
  path? : Option Path
  output? : Option Path
  moon? : Option String
  extractOnly : Bool
  rawDiagnostics : Bool
  watch : Bool
  verbose : Bool
  noColor : Bool
  deriving DecidableEq, Repr

namespace Arguments

/-- The options by their long names. -/
def longNames : List (String × OptionKind) :=
  [("test", .switch .test), ("complementary", .setting .complementary),
   ("path", .setting .path), ("output", .setting .output), ("moon", .setting .moon),
   ("extract-only", .switch .extractOnly), ("raw-diagnostics", .switch .rawDiagnostics),
   ("watch", .switch .watch), ("verbose", .switch .verbose), ("no-color", .switch .noColor),
   ("help", .help), ("version", .version)]

/-- The options by their short names. -/
def shortNames : List (Char × OptionKind) :=
  [('p', .setting .path), ('o', .setting .output), ('v', .switch .verbose), ('h', .help),
   ('V', .version)]

/-- The values that are not yet checked. -/
inductive Pending where
  | nothing
  /-- A setting whose value is the next word. -/
  | expected (setting : Setting)
  | value (setting : Setting) (text : String)
  | files (texts : List String)
  deriving DecidableEq, Repr

/-- What was read of a command line. -/
structure Reading where
  switches : List Switch
  settings : List (Setting × String)
  files : List String
  pending : Pending
  deriving DecidableEq, Repr

namespace Reading

def start : Reading := ⟨[], [], [], .nothing⟩

/-- Takes the value of a setting. A setting has one value, and a place on disk has a name. -/
def set (reading : Reading) (setting : Setting) (text : String) : Except ArgumentError Reading :=
  if (reading.settings.lookup setting).isSome then .error .argumentConflict
  else if text.isEmpty && setting != .moon then .error .invalidValue
  else .ok { reading with settings := reading.settings ++ [(setting, text)], pending := .nothing }

/-- Checks the values that are not yet checked. -/
def settle (reading : Reading) : Except ArgumentError Reading :=
  match reading.pending with
  | .nothing => .ok reading
  | .expected _ => .error .invalidValue
  | .value setting text => reading.set setting text
  | .files texts =>
    if texts.contains "" then .error .invalidValue
    else .ok { reading with files := reading.files ++ texts, pending := .nothing }

/-- Takes an option without a value. -/
def takeSwitch (reading : Reading) (switch : Switch) : Except ArgumentError Reading := do
  let reading ← reading.settle
  if reading.switches.contains switch then .error .argumentConflict
  else .ok { reading with switches := switch :: reading.switches }

/-- Takes a setting, with its value when one is attached. -/
def takeSetting (reading : Reading) (setting : Setting) (attached? : Option String) :
    Except ArgumentError Reading := do
  let reading ← reading.settle
  match attached? with
  | some text => reading.set setting text
  | none => .ok { reading with pending := .expected setting }

/-- Takes a word that is no option. -/
def takeWord (reading : Reading) (text : String) : Except ArgumentError Reading :=
  match reading.pending with
  | .expected setting => .ok { reading with pending := .value setting text }
  | .files texts => .ok { reading with pending := .files (texts ++ [text]) }
  | _ => do
    let reading ← reading.settle
    .ok { reading with pending := .files [text] }

/-- Takes a word after `--`. A setting whose value is missing gets none from there. -/
def takeFile (reading : Reading) (text : String) : Except ArgumentError Reading :=
  match reading.pending with
  | .expected _ => .error .invalidValue
  | _ => reading.takeWord text

/-- Takes an option with a long name, given without the dashes. -/
def takeLong (reading : Reading) (text : List Char) : Except ArgumentError Reading :=
  let name := text.takeWhile (· != '=')
  let attached? :=
    match text.drop name.length with
    | _ :: value => some (String.ofList value)
    | [] => none
  match longNames.lookup (String.ofList name), attached? with
  | none, _ => .error .unknownArgument
  | some (.setting setting), _ => reading.takeSetting setting attached?
  | some _, some _ => .error .tooManyValues
  | some (.switch switch), none => reading.takeSwitch switch
  | some .help, none => do
    let _ ← reading.settle
    .error .displayHelp
  | some .version, none => do
    let _ ← reading.settle
    .error .displayVersion

/-- Takes the options of a word with one dash. A setting takes the rest of the word as its value. -/
def takeShort (reading : Reading) : List Char → Except ArgumentError Reading
  | [] => .ok reading
  | c :: rest =>
    match shortNames.lookup c with
    | none => .error .unknownArgument
    | some (.switch switch) =>
      match reading.takeSwitch switch with
      | .ok reading => reading.takeShort rest
      | .error error => .error error
    | some (.setting setting) =>
      reading.takeSetting setting <|
        match rest with
        | [] => none
        | '=' :: value => some (String.ofList value)
        | value => some (String.ofList value)
    | some .help => do
      let _ ← reading.settle
      .error .displayHelp
    | some .version => do
      let _ ← reading.settle
      .error .displayVersion

/-- Takes one word. -/
def take (reading : Reading) (word : String) : Except ArgumentError Reading :=
  match word.toList with
  | '-' :: '-' :: name => reading.takeLong name
  | '-' :: c :: rest => reading.takeShort (c :: rest)
  | _ => reading.takeWord word

/-- Takes the words of a command line. After `--` every word is a file. -/
def takeAll (reading : Reading) : List String → Except ArgumentError Reading
  | [] => .ok reading
  | word :: others =>
    if word = "--" then others.foldlM takeFile reading
    else
      match reading.take word with
      | .ok reading => reading.takeAll others
      | .error error => .error error

/-- What the words read ask for. -/
def arguments (reading : Reading) : Arguments :=
  let given (switch : Switch) : Bool := reading.switches.contains switch
  let value? (setting : Setting) : Option String := reading.settings.lookup setting
  { files := reading.files.map Path.mk, test := given .test
    complementary? := (value? .complementary).map Path.mk, path? := (value? .path).map Path.mk
    output? := (value? .output).map Path.mk, moon? := value? .moon
    extractOnly := given .extractOnly, rawDiagnostics := given .rawDiagnostics
    watch := given .watch, verbose := given .verbose, noColor := given .noColor }

end Reading

/-- What the words of a command line ask for. -/
def parse (words : List String) : Except ArgumentError Arguments := do
  let reading ← Reading.start.takeAll words
  let reading ← reading.settle
  .ok reading.arguments

end Arguments

end LiterateCheck
