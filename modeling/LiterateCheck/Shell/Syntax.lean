/-!
# Commands of the shell

Tools may be scripts of the shell. A script is one command, put together from simple commands by
lists, pipes, conditions, loops and redirections. A word of a simple command is a list of parts,
each kept with whether it was quoted.
-/

namespace LiterateCheck.Shell

/-- The streams that a command writes to. -/
inductive Stream where
  | output
  | errors
  deriving DecidableEq, Repr

/-- What is cut from a variable's value: a run that matches a pattern, at one end. -/
inductive Trim where
  | shortestFront
  | longestFront
  | shortestBack
  | longestBack
  deriving DecidableEq, Repr

mutual

/-- A part of a word. -/
inductive Part where
  | plain (c : Char)
  | quoted (text : String)
  | parameter (isQuoted : Bool) (name : String)
  /-- The value of a parameter, or another word when it is not set or, with `onEmpty`, empty. -/
  | fallback (isQuoted : Bool) (name : String) (onEmpty : Bool) (word : List Part)
  | trimmed (isQuoted : Bool) (name : String) (trim : Trim) (pattern : List Part)
  /-- What a script writes. -/
  | captured (isQuoted : Bool) (script : Command)

/-- Where a stream leads. -/
inductive Redirection where
  | toFile (stream : Stream) (append : Bool) (target : List Part)
  | toStream (stream target : Stream)
  | fromFile (source : List Part)
  | fromText (text : List Part)

inductive Command where
  /-- Does nothing. -/
  | skip
  | simple (line : Nat) (assignments : List (String × List Part)) (words : List (List Part))
  | sequence (first second : Command)
  | pipe (left right : Command)
  /-- The second command is carried out when the first succeeds. -/
  | both (first second : Command)
  /-- The second command is carried out when the first fails. -/
  | either (first second : Command)
  | negation (body : Command)
  | subshell (body : Command)
  | branch (condition body otherwise : Command)
  /-- A loop that goes on while its condition gives `expected`. -/
  | loop (expected : Bool) (condition body : Command)
  | each (name : String) (words : List (List Part)) (body : Command)
  | choice (subject : List Part) (cases : List (List (List Part) × Command))
  | redirected (line : Nat) (redirection : Redirection) (body : Command)

end

instance : Inhabited Command := ⟨.skip⟩

/-- A word of a command. -/
abbrev Word := List Part

/-- A text that stands for itself. -/
def Word.ofText (text : String) : Word := [.quoted text]

end LiterateCheck.Shell
