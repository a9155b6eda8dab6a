/-!
# The outline of a document

What a document says about code: its fenced blocks, and the containers around them. Paragraphs,
headings, tables, raw markup and indented code carry no info string and are left out.
-/

namespace LiterateCheck.Markup

/-- The first and the last line of a block, counted from one. -/
structure LineSpan where
  start : Nat
  stop : Nat
  deriving DecidableEq, Repr

/-- A code block. -/
structure Code where
  /-- The first word of the info string, decoded. -/
  language? : Option String
  /-- The rest of the info string, decoded. -/
  meta? : Option String
  /-- The lines of the block, without the final line ending. -/
  value : String
  span? : Option LineSpan
  deriving DecidableEq, Repr

/-- The kinds of containers. -/
inductive ContainerKind where
  | blockQuote
  | listItem
  | footnote
  deriving DecidableEq, Repr

/-- A block of a document. -/
inductive Node where
  | block (code : Code)
  | container (kind : ContainerKind) (children : List Node)
  deriving Repr

namespace Node

mutual

/-- The code blocks of a node, in document order. -/
def codes : Node → List Code
  | .block code => [code]
  | .container _ children => codesOfList children

/-- The code blocks of a row of nodes, in document order. -/
def codesOfList : List Node → List Code
  | [] => []
  | node :: others => node.codes ++ codesOfList others

end

theorem codesOfList_eq_flatMap (nodes : List Node) : codesOfList nodes = nodes.flatMap codes := by
  induction nodes with
  | nil => rfl
  | cons node others ih => simp [codesOfList, ih]

theorem codesOfList_append (left right : List Node) :
    codesOfList (left ++ right) = codesOfList left ++ codesOfList right := by
  simp [codesOfList_eq_flatMap]

end Node

end LiterateCheck.Markup
