import LiterateCheck.Markup.Reader
import LiterateCheck.Text.Blank

/-!
# Fences of MoonBit code

A fence is a code block whose info string starts with a language tag for MoonBit. The words after
the tag are its directive tokens.
-/

namespace LiterateCheck

open Markup (Code LineSpan Node)

/-- The tags that name MoonBit, in lower case. -/
def languageTags : List String := ["moonbit", "mbt"]

/-- A code block that names MoonBit. -/
structure Fence where
  /-- The info string without blanks at its ends. -/
  info : String
  /-- The content, without the final line ending. -/
  body : String
  span? : Option LineSpan
  deriving DecidableEq, Repr

/-- The words of an info string. -/
def infoWords (info : String) : List String :=
  (Text.words info.toList).map String.ofList

/-- Whether the first word of an info string is a language tag, in letters of either case. -/
def namesMoonBit (info : String) : Bool :=
  match infoWords info with
  | tag :: _ => languageTags.contains (String.ofList (Text.lowerAscii tag.toList))
  | [] => false

namespace Fence

/-- The words after the language tag. -/
def directiveTokens (fence : Fence) : List String :=
  (infoWords fence.info).drop 1

/-- The info string of a language and what follows it. -/
def joinInfo (language : String) (meta? : Option String) : String :=
  let tag := String.ofList (Text.trim language.toList)
  let rest := String.ofList (Text.trim (meta?.getD "").toList)
  if rest.isEmpty then tag else tag ++ " " ++ rest

/-- The fence that a code block is, if it names MoonBit. -/
def ofCode? (code : Code) : Option Fence := do
  let info := joinInfo (← code.language?) code.meta?
  if namesMoonBit info then some ⟨info, code.value, code.span?⟩ else none

/-- The fences of an outline, in document order. -/
def ofNodes (nodes : List Node) : List Fence :=
  (Node.codesOfList nodes).filterMap ofCode?

/-- The fences of a document, in document order. -/
def scan (document : String) : List Fence :=
  ofNodes (Markup.outline (Text.normalizeLineEndings document.toList))

end Fence

end LiterateCheck
