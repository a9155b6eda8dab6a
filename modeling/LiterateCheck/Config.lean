import LiterateCheck.Error
import LiterateCheck.Toml.Reader

/-!
# Configuration

A project is configured by a TOML file. A key that is missing has its default, a key that is not
known says nothing, and a value of the wrong type is an error. The tables of a fixed shape may also
be written as lists of their values, in order.
-/

namespace LiterateCheck

open Toml (Fields Value)

/-- The metadata of the generated module. -/
structure ModuleConfig where
  name : String
  version : String
  deriving DecidableEq, Repr

/-- What a project's configuration says. -/
structure Config where
  /-- The directory that the generated project is written to, as seen from the project's root. -/
  outputDir : Path
  /-- The directory of supplementary sources. -/
  complementary? : Option Path
  /-- Whether tests are run after a check that passed. -/
  runTests : Bool
  /-- The program that checks the generated project. -/
  moon : String
  /-- The warnings of every generated package. -/
  warnList : String
  moduleConfig : ModuleConfig
  /-- Globs for the documents that are discovered; with none, all are. -/
  includePatterns : List String
  /-- Ignore patterns for what is not discovered. -/
  excludePatterns : List String
  disableGitignore : Bool
  deriving DecidableEq, Repr

/-- The program that checks a project unless another is named. -/
def defaultMoon : String := "moon"

/-- Warning 15 is no error; every other warning keeps its level. -/
def defaultWarnList : String := "-15+15"

def ModuleConfig.default : ModuleConfig := ⟨"moonbit-check", "0.1.0"⟩

namespace Config

def default : Config :=
  { outputDir := ⟨"target/moonbit-check"⟩, complementary? := none, runTests := false
    moon := defaultMoon, warnList := defaultWarnList, moduleConfig := .default
    includePatterns := [], excludePatterns := [], disableGitignore := false }

instance : Inhabited Config := ⟨default⟩

/-- The places of a configuration below a root, the first that exists being used. -/
def candidates : List Path :=
  [⟨"mbt-check.toml"⟩, ⟨".mbt-check.toml"⟩, ⟨".config/mbt-check.toml"⟩]

/-! ## Values -/

/-- What a value means as a type, if it has that type. -/
abbrev Meaning (α : Type) := Value → Option α

def asText : Meaning String
  | .text value => some value
  | _ => none

def asBoolean : Meaning Bool
  | .boolean value => some value
  | _ => none

def asTexts : Meaning (List String)
  | .list _ items => items.mapM asText
  | _ => none

/-- The meaning of a field, or a default when it is missing. -/
def field (fields : Fields) (key : String) (meaning : Meaning α) (missing : α) : Option α :=
  match fields.lookup key with
  | some value => meaning value
  | none => some missing

/-- The fields of a table of a fixed shape, whose values may also be listed in order. -/
def asRecord (keys : List String) : Meaning Fields
  | .table _ fields => some fields
  | .list _ items => some (keys.zip items)
  | _ => none

def asModule : Meaning ModuleConfig := fun value => do
  let fields ← asRecord ["name", "version"] value
  some
    { name := ← field fields "name" asText ModuleConfig.default.name
      version := ← field fields "version" asText ModuleConfig.default.version }

def asPatterns : Meaning (List String) := fun value => do
  field (← asRecord ["patterns"] value) "patterns" asTexts []

/-- The configuration that the fields of a document make. -/
def ofFields (fields : Fields) : Option Config := do
  some
    { outputDir := ⟨← field fields "output_dir" asText default.outputDir.text⟩
      complementary? :=
        ← field fields "complementary"
          (fun value => (asText value).map fun text => some ⟨text⟩) none
      runTests := ← field fields "test" asBoolean false
      moon := ← field fields "moon" asText default.moon
      warnList := ← field fields "warn_list" asText default.warnList
      moduleConfig := ← field fields "module" asModule default.moduleConfig
      includePatterns := ← field fields "include" asPatterns []
      excludePatterns := ← field fields "exclude" asPatterns []
      disableGitignore := ← field fields "disable_gitignore" asBoolean false }

/-- The configuration that a text spells. -/
def parse (text : String) : Except CheckError Config :=
  match (Toml.parse? text).bind ofFields with
  | some config => .ok config
  | none => .error .configParse

end Config

end LiterateCheck
