import LiterateCheck.Markup.Container
import LiterateCheck.Markup.FencedCode
import LiterateCheck.Markup.RawMarkup
import LiterateCheck.Markup.TableRow

/-!
# The flow of lines inside the containers

What is left of a line after its containers goes to the flow: the block that is open, or a new one.
Paragraphs, headings, breaks and tables are followed only as far as they decide how later lines are
read.
-/

namespace LiterateCheck.Markup

/-- The block that the next line may continue. -/
inductive OpenBlock where
  | idle
  | fence (fence : OpenFence)
  | raw (kind : RawMarkup)
  /-- A line of text that the next line can turn into a table head with so many cells. -/
  | headCandidate (cells : Nat)
  deriving DecidableEq, Repr

/-- What stands before the next line. -/
inductive Before where
  | text
  | underline
  | table
  | other
  deriving DecidableEq, Repr

/-- The state of the flow between two lines. -/
structure Flow where
  block : OpenBlock
  /-- A paragraph is open, so that some blocks would interrupt it. -/
  interrupts : Bool
  before : Before
  deriving DecidableEq, Repr

/-- How a line reaches the flow. -/
structure Arrival where
  number : Nat
  /-- Some container of the line before is not continued. -/
  lazy : Bool
  /-- The line opens a container. -/
  pierces : Bool
  deriving DecidableEq, Repr

namespace Flow

/-- The flow at the start of a document. -/
def start : Flow := ⟨.idle, false, .other⟩

/-- Inside code and raw markup no container opens. -/
def isConcrete (flow : Flow) : Bool :=
  match flow.block with
  | .fence _ | .raw _ => true
  | .idle | .headCandidate _ => false

/-- Whether the last line can go on without its containers. -/
def acceptsLazy (flow : Flow) : Bool :=
  match flow.block with
  | .headCandidate _ => true
  | .fence _ | .raw _ => false
  | .idle => flow.before == .text || flow.before == .underline

/-- A line of a paragraph. -/
def takeText : Flow := ⟨.idle, true, .text⟩

/-- A block of one line that ends a paragraph. -/
def takeBreak : Flow := ⟨.idle, false, .other⟩

/-- Whether a line without indentation is a heading with marks in front. -/
def isHeading (line : List Char) : Bool :=
  let marks := line.takeWhile (· == '#')
  let rest := line.drop marks.length
  1 ≤ marks.length && marks.length ≤ 6 &&
    (rest.isEmpty || rest.head? == some ' ' || rest.head? == some '\t')

/-- Whether a line without indentation underlines the text before it. -/
def isUnderline (line : List Char) : Bool :=
  match line with
  | mark :: _ =>
    (mark == '=' || mark == '-') &&
      (line.dropWhile (· == mark)).all fun c => c == ' ' || c == '\t'
  | [] => false

/-- Reads a line that begins a block or goes on with a paragraph. -/
def takeFresh (flow : Flow) (arrival : Arrival) (cells : List Cell) : Flow :=
  if Cell.isBlankLine cells then takeBreak
  else
    match Cell.unindented? cells with
    | none => if flow.interrupts then takeText else takeBreak
    | some line =>
      let text := Cell.text line
      match OpenFence.open? arrival.number cells with
      | some fence => ⟨.fence fence, false, .other⟩
      | none =>
        match RawMarkup.start? (flow.interrupts && !arrival.lazy) text with
        | some (kind, rest) =>
          if kind.endsIn rest then takeBreak else ⟨.raw kind, false, .other⟩
        | none =>
          if isHeading text then takeBreak
          else if !arrival.lazy && !arrival.pierces &&
              (flow.before == .text || flow.before == .underline) && isUnderline text then
            ⟨.idle, false, .underline⟩
          else if Container.isThematicBreak text then takeBreak
          else if flow.before == .table && !arrival.pierces then
            if arrival.lazy then takeText else ⟨.idle, false, .table⟩
          else if TableRow.mayBeHead text then
            ⟨.headCandidate (TableRow.headCells text), true, flow.before⟩
          else takeText

/-- Reads a line after a line that may be a table head. -/
def takeAfterCandidate (headCells : Nat) (arrival : Arrival) (cells : List Cell) : Flow :=
  let row :=
    if arrival.lazy || arrival.pierces then none
    else (Cell.unindented? cells).bind fun line => TableRow.delimiterCells? (Cell.text line)
  if row == some headCells then ⟨.idle, false, .table⟩ else takeText.takeFresh arrival cells

/-- Reads a line. Gives the block of code that ends with it, or before it. -/
def take (flow : Flow) (arrival : Arrival) (cells : List Cell) : Flow × Option Code :=
  match flow.block with
  | .idle => (flow.takeFresh arrival cells, none)
  | .headCandidate headCells => (takeAfterCandidate headCells arrival cells, none)
  | .fence fence =>
    if arrival.lazy then
      (takeBreak.takeFresh arrival cells, some (fence.close (arrival.number - 1) false))
    else if fence.closes cells then (takeBreak, some (fence.close arrival.number true))
    else ({ flow with block := .fence (fence.addRow cells) }, none)
  | .raw kind =>
    if arrival.lazy || (kind.endsBeforeBlank && Cell.isBlankLine cells) then
      (takeBreak.takeFresh arrival cells, none)
    else if kind.endsIn (Cell.text cells) then (takeBreak, none)
    else (flow, none)

/-- Ends the open block before the line `number`, which follows a line feed unless
`endsWithFeed` is false. After a line that lost its containers, the block ends with that line. -/
def finish (flow : Flow) (number : Nat) (lazy endsWithFeed : Bool) : Option Code :=
  match flow.block with
  | .fence fence =>
    if lazy && endsWithFeed then some (fence.close (number - 1) false)
    else some (fence.close number (endsWithFeed && !lazy))
  | _ => none

end Flow

end LiterateCheck.Markup
