/-!
# Reasons of the system

The causes for which an operation on files, directories or programs fails, each with the text in
which the system reports it.
-/

namespace LiterateCheck

/-- Why the system refused an operation. -/
inductive SystemError where
  | notFound
  | execFormat
  | permissionDenied
  | alreadyExists
  | notDirectory
  | isDirectory
  | invalidArgument
  | nameTooLong
  | directoryNotEmpty
  | linkLoop
  /-- A text was asked for and the bytes are not UTF-8. -/
  | notText
  /-- A file name with a NUL character. -/
  | nulInName
  /-- A program's name, argument or directory with a NUL character. -/
  | nulInArgument
  /-- A copy of something that is not a regular file. -/
  | notRegularFile
  | emptyAbsolute
  deriving DecidableEq, Repr

namespace SystemError

/-- The system's number, for the causes that have one. -/
def number? : SystemError → Option Nat
  | notFound => some 2
  | execFormat => some 8
  | permissionDenied => some 13
  | alreadyExists => some 17
  | notDirectory => some 20
  | isDirectory => some 21
  | invalidArgument => some 22
  | nameTooLong => some 36
  | directoryNotEmpty => some 39
  | linkLoop => some 40
  | notText | nulInName | nulInArgument | notRegularFile | emptyAbsolute => none

def text : SystemError → String
  | notFound => "No such file or directory"
  | execFormat => "Exec format error"
  | permissionDenied => "Permission denied"
  | alreadyExists => "File exists"
  | notDirectory => "Not a directory"
  | isDirectory => "Is a directory"
  | invalidArgument => "Invalid argument"
  | nameTooLong => "File name too long"
  | directoryNotEmpty => "Directory not empty"
  | linkLoop => "Too many levels of symbolic links"
  | notText => "stream did not contain valid UTF-8"
  | nulInName => "file name contained an unexpected NUL byte"
  | nulInArgument => "nul byte found in provided data"
  | notRegularFile => "the source path is neither a regular file nor a symlink to a regular file"
  | emptyAbsolute => "cannot make an empty path absolute"

/-- The report of a cause: its text, and its number in parentheses. -/
def message (cause : SystemError) : String :=
  match cause.number? with
  | some n => cause.text ++ " (os error " ++ toString n ++ ")"
  | none => cause.text

end SystemError

end LiterateCheck
