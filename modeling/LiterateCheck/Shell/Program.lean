import LiterateCheck.Shell.Utilities
import LiterateCheck.Text.Blank

/-!
# Programs

The name of a program leads to a utility, to the shell, or to a script on the disk. A name with a
separator is a path; the directories of the system hold what every other name stands for.
-/

namespace LiterateCheck.Shell

/-- What is carried out for a program. -/
inductive Program where
  | utility (action : Utility) (arguments : List String)
  /-- The shell with its own arguments. -/
  | shell (arguments : List String)
  /-- A script that the shell reads, with the name it is called by and its arguments. -/
  | script (name : String) (text : String) (arguments : List String)

/-- The names of the shell. -/
def shellNames : List String := ["sh", "dash", "bash"]

/-- The name that an absolute path in a directory of the system ends in. -/
def systemName? (path : String) : Option String :=
  match Path.components ⟨path⟩ with
  | [.root, .name "bin", .name name] | [.root, .name "usr", .name "bin", .name name] => some name
  | _ => none

/-- The text of a script. -/
def scriptText (content : ByteArray) : String :=
  String.ofList (Text.ofRaw content.toList)

/-- The first word of a text and what follows it. -/
def firstWord (text : List Char) : List Char × List Char :=
  let isSpace (c : Char) : Bool := c == ' ' || c == '\t'
  let text := text.dropWhile isSpace
  (text.takeWhile (!isSpace ·), (text.dropWhile (!isSpace ·)).dropWhile isSpace)

namespace Program

/-- The program of a name in the directories of the system. -/
def ofSystem (name : String) (arguments : List String) : Except SystemError Program :=
  if shellNames.contains name then .ok (.shell arguments)
  else
    match utility? name with
    | some action => .ok (.utility action arguments)
    | none => .error .notFound

/-- The program that the first line of a script names, given the script's path. -/
def ofInterpreter (line : List Char) (path : String) (arguments : List String) :
    Except SystemError Program :=
  let (program, rest) := firstWord line
  let rest := Text.dropEndWhile Text.isBlank rest
  let arguments := path :: arguments
  match systemName? (String.ofList program) with
  | none => .error .notFound
  | some "env" =>
    match ofSystem (String.ofList (firstWord rest).1) arguments with
    | .ok program => .ok program
    | .error reason =>
      .ok (.utility (fun _ =>
        Act.complain (String.ofList program ++ ": '" ++ String.ofList rest ++ "': " ++ reason.text)
          127) [])
  | some name =>
    ofSystem name ((if rest.isEmpty then [] else [String.ofList rest]) ++ arguments)

/-- The program of a name, as it is seen from a directory. -/
def find (disk : Disk) (directory : Location) (name : String) (arguments : List String) :
    Except SystemError Program :=
  if (name :: arguments).any fun word => Text.holdsNul word then .error .nulInArgument
  else if name.isEmpty then .error .notFound
  else if !name.toList.contains '/' then ofSystem name arguments
  else
    match systemName? name with
    | some system => ofSystem system arguments
    | none =>
      match disk.lookup directory ⟨name⟩ with
      | .error reason => .error reason
      | .ok (_, .file content true) =>
        match (scriptText content).toList with
        | '#' :: '!' :: rest => ofInterpreter (rest.takeWhile (· != '\n')) name arguments
        | _ => .error .execFormat
      | .ok _ => .error .permissionDenied

end Program

end LiterateCheck.Shell
