import LiterateCheck.Error

/-!
# Notices

What a run reports on its way without failing. A notice has a level, a message and named fields.
-/

namespace LiterateCheck

/-- How much a notice matters. -/
inductive Level where
  | warn
  | info
  deriving DecidableEq, Repr

/-- Something that a run reports. -/
inductive Notice where
  /-- A file was named that is no literate document. -/
  | skippedFile (path : Path)
  /-- A fence names the empty group key. -/
  | emptyGroupKey (document : Path) (line? : Option Nat)
  /-- The group of the empty key is written into the output root. -/
  | emptyKeyInRoot
  | noDocuments
  | extracted (documents groups blocks : Nat)
  | materialized (root : Path)
  | running (program : String) (subcommand : Subcommand) (root : Path)
  | watchingOutside (directory : Path)
  deriving DecidableEq, Repr

namespace Notice

def level : Notice → Level
  | skippedFile _ | emptyGroupKey .. | emptyKeyInRoot | noDocuments => .warn
  | extracted .. | materialized _ | running .. | watchingOutside _ => .info

def message : Notice → String
  | skippedFile _ => "skipping file without `.mbt.md` suffix"
  | emptyGroupKey .. => "`unless=` names an empty group key"
  | emptyKeyInRoot => "materializing the empty group key into the output root itself"
  | noDocuments => "no `*.mbt.md` documents to check"
  | extracted .. => "extracted code blocks"
  | materialized _ => "materialized project"
  | running .. => "running toolchain"
  | watchingOutside _ => "watching directory outside the project root"

/-- The number of a line, as a field shows it. -/
def lineText : Option Nat → String
  | some line => "Some(" ++ toString line ++ ")"
  | none => "None"

/-- The named fields of a notice, in the order in which they are shown. -/
def fields : Notice → List (String × String)
  | skippedFile path => [("path", path.shown)]
  | emptyGroupKey document line? => [("document", document.shown), ("line", lineText line?)]
  | emptyKeyInRoot | noDocuments => []
  | extracted documents groups blocks =>
    [("documents", toString documents), ("groups", toString groups), ("blocks", toString blocks)]
  | materialized root => [("root", root.shown)]
  | running program subcommand root =>
    [("program", program), ("subcommand", subcommand.text), ("root", root.shown)]
  | watchingOutside directory => [("dir", directory.shown)]

end Notice

end LiterateCheck
