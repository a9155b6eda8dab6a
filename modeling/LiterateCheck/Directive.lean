/-!
# Directives

The tokens after a fence's language tag say whether its code is dropped, to which groups it belongs,
and whether it becomes the body of a test. They are taken from left to right: the first `skip` drops
the code, the last `unless=` decides the groups.
-/

namespace LiterateCheck

/-- The group whose blocks belong to every other group too. -/
def baselineGroup : String := "_"

/-- One directive token. -/
inductive Directive where
  /-- The code takes part in no group. -/
  | skip
  /-- The code becomes a test. -/
  | test
  /-- The code belongs to exactly these groups. -/
  | only (groups : List String)
  /-- Any other token; it says nothing. -/
  | unknown (token : String)
  deriving DecidableEq, Repr

/-- What a fence's directives come to. -/
inductive Disposition where
  | discard
  /-- The code as it is written out, the groups it belongs to, and whether it became a test. -/
  | keep (code : String) (groups : List String) (wrapped : Bool)
  deriving DecidableEq, Repr

namespace Directive

/-- What stands before the groups of an `unless=` token. -/
def groupsMark : String := "unless="

/-- The directive that a token spells. -/
def parse (token : String) : Directive :=
  if token = "skip" ∨ token = "no-check" then skip
  else if token = "test" then test
  else if groupsMark.toList.isPrefixOf token.toList then
    only (((token.toList.drop groupsMark.length).splitOn ',').map String.ofList)
  else unknown token

/-- What the directives read so far ask for. -/
structure Request where
  groups? : Option (List String)
  wraps : Bool
  deriving DecidableEq, Repr

/-- Takes one more directive; nothing is left after `skip`. -/
def Request.take (request : Request) : Directive → Option Request
  | skip => none
  | test => some { request with wraps := true }
  | only groups => some { request with groups? := some groups }
  | unknown _ => some request

/-- What the tokens of a fence ask for, unless they drop it. -/
def request? (tokens : List String) : Option Request :=
  (tokens.map parse).foldlM Request.take ⟨none, false⟩

end Directive

/-- Adds a name that is not there yet. -/
def addName (names : List String) (name : String) : List String :=
  if name ∈ names then names else names ++ [name]

/-- The names without repetitions, in the order in which they first occur. -/
def distinctNames (names : List String) : List String :=
  names.foldl addName []

/-- A test around some code: every line moves two columns to the right. -/
def wrapTest (code : String) : String :=
  let rows := (code.toList.splitOn '\n').map ("  ".toList ++ ·)
  "test \x7b\n" ++ String.ofList (List.intercalate ['\n'] rows) ++ "\n\x7d"

/-- What becomes of a fence with this body and these tokens. -/
def interpret (body : String) (tokens : List String) : Disposition :=
  match Directive.request? tokens with
  | none => .discard
  | some request =>
    .keep (if request.wraps then wrapTest body else body)
      (distinctNames (request.groups?.getD [baselineGroup])) request.wraps

end LiterateCheck
