/-!
# Table heads

A table is announced by two lines: a head, and a row of dashes and colons with as many cells. Cells
are parted by pipes; pipes at both ends are optional.
-/

namespace LiterateCheck.Markup.TableRow

def isRowSpace (c : Char) : Bool := c == ' ' || c == '\t'

/-- Whether a line can be a head: anything but a single pipe. The line has no indentation and is
not blank. -/
def mayBeHead (line : List Char) : Bool :=
  line.filter (fun c => !isRowSpace c) != ['|']

/-- The characters after a piece of cell data, in which a backslash keeps a pipe or a backslash. -/
def afterData : List Char → List Char
  | [] => []
  | '\\' :: c :: rest =>
    if c == '\\' || c == '|' then afterData rest else afterData (c :: rest)
  | c :: rest => if isRowSpace c || c == '|' then c :: rest else afterData rest

theorem length_afterData_le (line : List Char) : (afterData line).length ≤ line.length := by
  fun_induction afterData line <;> simp_all <;> omega

theorem length_afterData_lt {c : Char} (rest : List Char) (hs : isRowSpace c = false)
    (hp : c ≠ '|') : (afterData (c :: rest)).length < (c :: rest).length := by
  have h := length_afterData_le rest
  unfold afterData
  split
  · simp_all
  · rename_i d tail heq
    obtain ⟨rfl, rfl⟩ := List.cons.inj heq
    have ht := length_afterData_le tail
    simp only [List.length_cons] at h ⊢
    split <;> omega
  · rename_i heq
    obtain ⟨rfl, rfl⟩ := List.cons.inj heq
    simp only [hs, Bool.false_or, beq_iff_eq, hp, if_false, List.length_cons]
    omega

/-- Counts the cells of a head. A cell is counted where something first stands after a border. -/
def countCells (afterBorder : Bool) : List Char → Nat
  | [] => 0
  | c :: rest =>
    if hs : isRowSpace c then countCells afterBorder rest
    else if hp : c = '|' then (if afterBorder then 1 else 0) + countCells true rest
    else (if afterBorder then 1 else 0) + countCells false (afterData (c :: rest))
  termination_by line => line.length
  decreasing_by
    · simp
    · simp
    · exact length_afterData_lt rest (by simpa using hs) hp

/-- The number of cells of a head. -/
def headCells (line : List Char) : Nat :=
  countCells (line.head? != some '|') line

/-- Whether a text is an alignment: dashes, with a colon before, after or on both sides. -/
def isAlignment (cell : List Char) : Bool :=
  let inner := if cell.head? == some ':' then cell.tail else cell
  let dashes := inner.takeWhile (· == '-')
  let rest := inner.drop dashes.length
  !dashes.isEmpty && (rest == [] || rest == [':'])

/-- Drops the spaces and tabs at both ends. -/
def trimCell (cell : List Char) : List Char :=
  ((cell.dropWhile isRowSpace).reverse.dropWhile isRowSpace).reverse

/-- The alignments of a delimiter row, if a line is one: every cell is an alignment, an outer pipe
may stand at each end, and a pipe or a colon shows that it is no underline. -/
def delimiterCells? (line : List Char) : Option Nat :=
  let trimmed := trimCell line
  let cells := trimmed.splitOn '|'
  let cells := if trimmed.head? == some '|' then cells.drop 1 else cells
  let cells := if trimmed.getLast? == some '|' then cells.dropLast else cells
  if (trimmed.contains '|' || trimmed.contains ':') && !cells.isEmpty &&
      cells.all fun cell => isAlignment (trimCell cell) then
    some cells.length
  else none

end LiterateCheck.Markup.TableRow
