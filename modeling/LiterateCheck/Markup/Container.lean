import LiterateCheck.Markup.Cell
import LiterateCheck.Markup.Outline

/-!
# Containers

Block quotes, list items and footnote definitions hold other blocks. A line continues a container
when it starts with what that container asks for: a marker for a block quote, indentation for the
other two. What is left of the line belongs to the next container inside.
-/

namespace LiterateCheck.Markup

/-- An open container. -/
structure Container where
  kind : ContainerKind
  /-- The indentation that continues a list item. -/
  indent : Nat
  /-- A list item whose first line holds nothing after its marker, and no other line yet. -/
  startsBlank : Bool
  deriving DecidableEq, Repr

namespace Container

/-- The cells after a block quote marker, which takes one blank after it. -/
def quoted? (cells : List Cell) : Option (List Cell) :=
  match Cell.unindented? cells with
  | some (.char '>' :: rest) => some (Cell.dropSpaces 1 rest)
  | _ => none

/-- The cells after exactly `width` blanks. -/
def indented? (width : Nat) (cells : List Cell) : Option (List Cell) :=
  if width ≤ Cell.indent cells then some (cells.drop width) else none

/-- Whether a line continues a container, and with what left. -/
def continue? (container : Container) (cells : List Cell) : Option (Container × List Cell) :=
  match container.kind with
  | .blockQuote => (quoted? cells).map (container, ·)
  | .listItem =>
    if Cell.isBlankLine cells then
      if container.startsBlank then none
      else some (container, Cell.dropSpaces container.indent cells)
    else (indented? container.indent cells).map ({ container with startsBlank := false }, ·)
  | .footnote =>
    if Cell.isBlankLine cells then some (container, Cell.dropSpaces 4 cells)
    else (indented? 4 cells).map (container, ·)

/-! ## Starts -/

/-- Whether a line without indentation is a thematic break: three or more of one mark, with blanks
between them. -/
def isThematicBreak (line : List Char) : Bool :=
  let marks := line.filter fun c => !(c == ' ' || c == '\t')
  match marks with
  | mark :: _ =>
    (mark == '*' || mark == '-' || mark == '_') && 3 ≤ marks.length && marks.all (· == mark)
  | [] => false

/-- The number of cells that a list marker takes. While a paragraph can go on, only the number one
opens an ordered list. -/
def listMarker? (interrupts : Bool) (line : List Cell) : Option Nat :=
  let text := line.map fun cell => cell.char?.getD ' '
  match text with
  | '+' :: _ => some 1
  | '*' :: _ | '-' :: _ => if isThematicBreak text then none else some 1
  | _ =>
    let digits := text.takeWhile Char.isDigit
    let closes := text[digits.length]? == some '.' || text[digits.length]? == some ')'
    if digits.isEmpty || 9 < digits.length || !closes then none
    else if interrupts && digits != ['1'] then none
    else some (digits.length + 1)

/-- The list item that a line opens. An item whose line ends after the marker does not interrupt a
paragraph. Up to four blanks after the marker belong to it, of more only one. -/
def listItem? (interrupts : Bool) (cells : List Cell) : Option (Container × List Cell) := do
  let line ← Cell.unindented? cells
  let marker ← listMarker? interrupts line
  let lead := Cell.indent cells
  let rest := line.drop marker
  if Cell.isBlankLine rest then
    if interrupts then none
    else some (⟨.listItem, Cell.width cells (lead + marker) + 1, true⟩, rest)
  else
    let blanks := Cell.indent rest
    if blanks == 0 then none
    else
      let taken := if blanks ≤ 4 then blanks else 1
      some (⟨.listItem, Cell.width cells (lead + marker + taken), false⟩, rest.drop taken)

/-- The characters after the label of a footnote definition and its closing bracket. A backslash
keeps a bracket or a backslash. -/
def afterLabel? (size : Nat) : List Char → Option (List Char)
  | [] => none
  | ']' :: rest => if 0 < size && size ≤ 999 then some rest else none
  | '\\' :: c :: rest =>
    if size > 999 then none
    else if c == '[' || c == '\\' || c == ']' then afterLabel? (size + 2) rest
    else afterLabel? (size + 1) (c :: rest)
  | c :: rest =>
    if size > 999 || c == ' ' || c == '\t' || c == '[' then none
    else afterLabel? (size + c.utf8Size) rest

/-- The footnote definition that a line opens. -/
def footnote? (cells : List Cell) : Option (Container × List Cell) := do
  match ← Cell.unindented? cells with
  | .char '[' :: .char '^' :: rest =>
    let text := rest.map fun cell => cell.char?.getD ' '
    match ← afterLabel? 0 text with
    | ':' :: tail =>
      let body := rest.drop (rest.length - tail.length)
      some (⟨.footnote, 4, false⟩, body.dropWhile Cell.isSpace)
    | _ => none
  | _ => none

/-- The container that a line opens, and what is left of the line. -/
def start? (interrupts : Bool) (cells : List Cell) : Option (Container × List Cell) :=
  match quoted? cells with
  | some rest => some (⟨.blockQuote, 0, false⟩, rest)
  | none =>
    match listItem? interrupts cells with
    | some found => some found
    | none => footnote? cells

/-! ## What a start leaves -/

theorem length_unindented?_le {cells line : List Cell} (h : Cell.unindented? cells = some line) :
    line.length ≤ cells.length := by
  simp only [Cell.unindented?] at h
  split at h
  · cases h; simp
  · simp at h

theorem length_quoted?_lt {cells rest : List Cell} (h : quoted? cells = some rest) :
    rest.length < cells.length := by
  simp only [quoted?] at h
  split at h
  · rename_i tail heq
    have hle := length_unindented?_le heq
    cases h
    simp only [Cell.dropSpaces, List.length_drop, List.length_cons] at *
    omega
  · simp at h

theorem listMarker?_pos {interrupts : Bool} {line : List Cell} {n : Nat}
    (h : listMarker? interrupts line = some n) : 0 < n ∧ 0 < line.length := by
  cases line with
  | nil => simp [listMarker?] at h
  | cons cell others =>
    refine ⟨?_, by simp⟩
    simp only [listMarker?] at h
    split at h
    · cases h; decide
    · split at h
      · simp at h
      · cases h; decide
    · split at h
      · simp at h
      · cases h; decide
    · split at h
      · simp at h
      · split at h
        · simp at h
        · cases h; omega

theorem length_listItem?_lt {interrupts : Bool} {cells rest : List Cell} {item : Container}
    (h : listItem? interrupts cells = some (item, rest)) : rest.length < cells.length := by
  simp only [listItem?, Option.bind_eq_bind, Option.bind_eq_some_iff] at h
  obtain ⟨line, hline, marker, hmarker, h⟩ := h
  have hle := length_unindented?_le hline
  obtain ⟨hpos, hlen⟩ := listMarker?_pos hmarker
  split at h
  · split at h
    · simp at h
    · cases h
      simp only [List.length_drop]
      omega
  · split at h
    · simp at h
    · cases h
      simp only [List.length_drop]
      omega

theorem length_footnote?_lt {cells rest : List Cell} {note : Container}
    (h : footnote? cells = some (note, rest)) : rest.length < cells.length := by
  simp only [footnote?, Option.bind_eq_bind, Option.bind_eq_some_iff] at h
  obtain ⟨line, hline, h⟩ := h
  have hle := length_unindented?_le hline
  split at h
  · rename_i tail
    simp only [Option.bind_eq_some_iff] at h
    obtain ⟨after, _, h⟩ := h
    split at h
    · cases h
      refine Nat.lt_of_le_of_lt (List.dropWhile_sublist _).length_le ?_
      simp only [List.length_drop, List.length_cons] at *
      omega
    · simp at h
  · simp at h

/-- A start takes at least one cell of the line. -/
theorem length_start?_lt {interrupts : Bool} {cells rest : List Cell} {container : Container}
    (h : start? interrupts cells = some (container, rest)) : rest.length < cells.length := by
  unfold start? at h
  split at h
  · rename_i tail htail
    cases h
    exact length_quoted?_lt htail
  · split at h
    · rename_i found hitem
      cases h
      exact length_listItem?_lt hitem
    · exact length_footnote?_lt h

end Container

end LiterateCheck.Markup
