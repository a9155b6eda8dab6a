/-!
# Columns of a line

A tab reaches to the next column that is a multiple of four. A line is read as cells: a character,
or a tab followed by the filling cells up to its stop. Indentation is counted in cells, so part of a
tab can belong to a container and the rest to what stands inside it.
-/

namespace LiterateCheck.Markup

/-- One column of a line. -/
inductive Cell where
  | char (c : Char)
  | tab
  /-- The column at distance `step` from the tab that it fills up. -/
  | fill (step : Nat)
  deriving DecidableEq, Repr

namespace Cell

/-- The cells of a text that starts in a column, counted from zero. -/
def ofText (column : Nat) : List Char → List Cell
  | [] => []
  | '\t' :: rest =>
    let width := 4 - column % 4
    tab :: (List.range' 1 (width - 1)).map fill ++ ofText (column + width) rest
  | c :: rest => char c :: ofText (column + 1) rest

/-- The character that a cell shows. The rest of a tab that was begun shows nothing. -/
def char? : Cell → Option Char
  | char c => some c
  | tab => some '\t'
  | fill _ => none

def text (cells : List Cell) : List Char :=
  cells.filterMap char?

def isSpace : Cell → Bool
  | char c => c == ' '
  | tab | fill _ => true

/-- The number of blank cells at the start. -/
def indent (cells : List Cell) : Nat :=
  (cells.takeWhile isSpace).length

def isBlankLine (cells : List Cell) : Bool :=
  cells.all isSpace

/-- The cells after at most `most` blank ones. -/
def dropSpaces (most : Nat) (cells : List Cell) : List Cell :=
  cells.drop (min most (indent cells))

/-- The cells after the indentation, when this is less than four cells. -/
def unindented? (cells : List Cell) : Option (List Cell) :=
  if indent cells < 4 then some (cells.drop (indent cells)) else none

/-- The width of the first `count` cells as indentation: a tab counts one, a tab begun before them
counts what four cells leave over, and of a tab that ends after them the cells taken count. -/
def width (cells : List Cell) (count : Nat) : Nat :=
  let taken := cells.take count
  let begun :=
    match taken with
    | fill step :: _ => 4 - step
    | _ => 0
  let unfinished :=
    match cells.drop count with
    | fill step :: _ => step - 1
    | _ => 0
  (taken.filter fun cell => cell.char?.isSome).length + begun + unfinished

/-- The cells of a text show that text. -/
theorem text_ofText (column : Nat) (line : List Char) : text (ofText column line) = line := by
  fun_induction ofText column line with
  | case1 => rfl
  | case2 column rest width ih =>
    simp only [text, List.filterMap_cons, List.filterMap_append, char?, List.cons_append] at ih ⊢
    rw [ih]
    simp [List.filterMap_map, Function.comp_def, char?]
  | case3 column c rest h ih =>
    simp only [text, List.filterMap_cons, char?] at ih ⊢
    rw [ih]

end Cell

end LiterateCheck.Markup
