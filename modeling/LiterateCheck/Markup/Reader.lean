import LiterateCheck.Markup.Flow
import LiterateCheck.Text.Lines

/-!
# Reading a document

A document is read line by line. Each line first continues the open containers, from the outermost
inwards, then opens new ones, and hands what is left to the flow. Containers that the line does not
continue end with it, unless it goes on with their paragraph.
-/

namespace LiterateCheck.Markup

/-- An open container and the blocks it holds so far. -/
structure Frame where
  container : Container
  children : List Node
  deriving Repr

namespace Frame

/-- The node of a row of open containers, the outermost first, each inside the one before. -/
def close? : List Frame → Option Node
  | [] => none
  | frame :: inner =>
    some (.container frame.container.kind (frame.children ++ (close? inner).toList))

end Frame

/-- The state between two lines. -/
structure Reader where
  /-- The blocks of the document itself. -/
  nodes : List Node
  /-- The open containers, the outermost first. -/
  frames : List Frame
  flow : Flow
  /-- Whether the last line left some container without continuation. -/
  lazy : Bool
  /-- Whether the last line can go on without its containers. -/
  acceptsLazy : Bool
  deriving Repr

namespace Reader

/-- The state before the first line. -/
def start : Reader := ⟨[], [], .start, false, false⟩

/-- Puts a node into the innermost of some open containers. -/
def putInto (node : Node) : List Frame → List Frame
  | [] => []
  | [frame] => [{ frame with children := frame.children ++ [node] }]
  | frame :: inner => frame :: putInto node inner

/-- Puts a node where the next block stands. -/
def put (reader : Reader) (node : Node) : Reader :=
  match reader.frames with
  | [] => { reader with nodes := reader.nodes ++ [node] }
  | frames => { reader with frames := putInto node frames }

def put? (reader : Reader) (node : Option Node) : Reader :=
  node.elim reader reader.put

/-- Closes the containers after the first `count`. -/
def closeAfter (reader : Reader) (count : Nat) : Reader :=
  { reader with frames := reader.frames.take count }.put?
    (Frame.close? (reader.frames.drop count))

/-- Continues containers with a line. Gives them as they are after it, how many of them go on, and
what is left of the line. -/
def continueFrames : List Frame → List Cell → List Frame × Nat × List Cell
  | [], cells => ([], 0, cells)
  | frame :: inner, cells =>
    match frame.container.continue? cells with
    | none => (frame :: inner, 0, cells)
    | some (container, rest) =>
      let (inner, count, left) := continueFrames inner rest
      ({ frame with container := container } :: inner, count + 1, left)

/-- The state while the containers of a line are opened. -/
structure Opening where
  reader : Reader
  /-- The number of containers that the line is in. -/
  count : Nat
  pierces : Bool
  cells : List Cell

/-- Ends the open block and the containers that a line is not in, because it opens another. -/
def abandon (reader : Reader) (number count : Nat) : Reader :=
  let finished := reader.put? ((reader.flow.finish number reader.lazy true).map .block)
  { finished.closeAfter count with flow := .start }

/-- Opens the containers that start in a line. -/
def openFrames (number : Nat) (opening : Opening) : Opening :=
  let reader := opening.reader
  let inAll := opening.count == reader.frames.length
  if inAll && reader.flow.isConcrete then opening
  else
    match _started : Container.start? (inAll && reader.flow.interrupts) opening.cells with
    | none => opening
    | some (container, rest) =>
      let reader := if inAll then reader else reader.abandon number opening.count
      openFrames number
        { reader := { reader with frames := reader.frames ++ [⟨container, []⟩] }
          count := opening.count + 1, pierces := true, cells := rest }
  termination_by opening.cells.length
  decreasing_by exact Container.length_start?_lt _started

/-- Ends the line: containers it is not in close, unless it goes on with their paragraph. -/
def endLine (reader : Reader) (count : Nat) (lazy : Bool) : Reader :=
  let accepts := reader.flow.acceptsLazy
  let kept := !lazy || (reader.acceptsLazy && accepts)
  let reader :=
    if kept then reader
    else { reader.closeAfter count with flow := { reader.flow with interrupts := false } }
  { reader with lazy := lazy, acceptsLazy := accepts }

/-- Reads one line, given its number. -/
def readLine (reader : Reader) (number : Nat) (line : List Char) : Reader :=
  let (frames, count, cells) := continueFrames reader.frames (Cell.ofText 0 line)
  let opening := openFrames number ⟨{ reader with frames := frames }, count, false, cells⟩
  let lazy := opening.count != opening.reader.frames.length
  let (flow, code?) :=
    opening.reader.flow.take ⟨number, lazy, opening.pierces⟩ opening.cells
  ({ opening.reader.put? (code?.map .block) with flow := flow }).endLine opening.count lazy

/-- Reads lines from a number on. -/
def readLines (reader : Reader) (number : Nat) : List (List Char) → Reader
  | [] => reader
  | line :: others => (reader.readLine number line).readLines (number + 1) others

/-- Ends the document before the line `number`. -/
def finish (reader : Reader) (number : Nat) (endsWithFeed : Bool) : List Node :=
  let code? := reader.flow.finish number reader.lazy endsWithFeed
  ((reader.put? (code?.map .block)).closeAfter 0).nodes

end Reader

/-- The outline of a document whose lines end in line feeds. A byte order mark at its start does
not count. -/
def outline (text : List Char) : List Node :=
  let text := if text.head? == some '\uFEFF' then text.tail else text
  let rows := Text.lines text
  if rows.getLast? == some [] then
    (Reader.start.readLines 1 rows.dropLast).finish rows.length true
  else (Reader.start.readLines 1 rows).finish rows.length false

end LiterateCheck.Markup
