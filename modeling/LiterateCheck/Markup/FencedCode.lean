import LiterateCheck.Markup.Cell
import LiterateCheck.Markup.Outline
import LiterateCheck.Markup.Reference

/-!
# Fenced code

A fence is a run of three or more backticks or tildes. The rest of its line is the info string, cut
at its first blanks into a language and the rest. The block goes on, whatever its lines hold, until
a run of at least as many of the same marks stands alone on a line, or until what holds it ends.
-/

namespace LiterateCheck.Markup

/-- A fenced block that was opened and not yet closed. -/
structure OpenFence where
  mark : Char
  /-- The number of marks in the opening fence. -/
  size : Nat
  /-- The indentation of the opening fence, which the content lines lose. -/
  indent : Nat
  /-- The line of the opening fence. -/
  start : Nat
  language? : Option String
  meta? : Option String
  /-- The content lines, the latest first. -/
  rows : List (List Char)
  deriving DecidableEq, Repr

namespace OpenFence

def isInfoSpace (c : Char) : Bool := c == ' ' || c == '\t'

/-- A part of the info string as it is meant, when there is one. -/
def infoPart? (text : List Char) : Option String :=
  if text.isEmpty then none else some (String.ofList (decode text))

/-- The fence that a line opens. The info string of a fence of backticks holds no backtick. -/
def open? (number : Nat) (cells : List Cell) : Option OpenFence := do
  let line ← Cell.unindented? cells
  let text := Cell.text line
  let mark ← text.head?
  if mark != '\x60' && mark != '~' then none
  else
    let run := text.takeWhile (· == mark)
    let info := (text.drop run.length).dropWhile isInfoSpace
    if run.length < 3 || (mark == '\x60' && info.contains '\x60') then none
    else
      let language := info.takeWhile fun c => !isInfoSpace c
      let rest := (info.drop language.length).dropWhile isInfoSpace
      some
        { mark := mark, size := run.length, indent := Cell.width cells (Cell.indent cells)
          start := number, language? := infoPart? language, meta? := infoPart? rest, rows := [] }

/-- Whether a line closes the block. -/
def closes (fence : OpenFence) (cells : List Cell) : Bool :=
  match Cell.unindented? cells with
  | some line =>
    let text := Cell.text line
    let run := text.takeWhile (· == fence.mark)
    fence.size ≤ run.length && (text.drop run.length).all isInfoSpace
  | none => false

/-- Takes a content line, less the indentation of the fence. -/
def addRow (fence : OpenFence) (cells : List Cell) : OpenFence :=
  { fence with rows := Cell.text (Cell.dropSpaces fence.indent cells) :: fence.rows }

/-- Drops one line feed at the end, if there is one. -/
def dropFinalFeed (text : List Char) : List Char :=
  if text.getLast? == some '\n' then text.dropLast else text

/-- The text of the block. Each line follows a line feed; the one after the opening fence is not
part of it, and neither is the final one. -/
def value (fence : OpenFence) (endsWithFeed : Bool) : List Char :=
  let written := fence.rows.reverse.flatMap ('\n' :: ·) ++ if endsWithFeed then ['\n'] else []
  dropFinalFeed (written.drop 1)

/-- The closed block. `endsWithFeed` tells whether a line feed follows its last line. -/
def close (fence : OpenFence) (stop : Nat) (endsWithFeed : Bool) : Code :=
  { language? := fence.language?, meta? := fence.meta?
    value := String.ofList (fence.value endsWithFeed), span? := some ⟨fence.start, stop⟩ }

end OpenFence

end LiterateCheck.Markup
