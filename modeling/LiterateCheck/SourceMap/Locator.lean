import LiterateCheck.Text.Number

/-!
# Locators in a text

After the name of a file a tool writes a line, often a column, and sometimes the end of a range:
`line[:column[-line:column]]`. The longest such text is read.
-/

namespace LiterateCheck

/-- A locator after a file name. -/
structure Locator where
  line : Nat
  column? : Option Nat
  /-- The line and column of the range's end. -/
  stop? : Option (Nat × Nat)
  /-- The number of characters that the locator takes. -/
  consumed : Nat
  deriving DecidableEq, Repr

namespace Locator

/-- The number after a mark. -/
def numberAfter? (mark : Char) : List Char → Option Text.Leading
  | c :: rest => if c == mark then Text.leadingNumber? rest else none
  | [] => none

/-- The end of a range, and the number of characters that it takes. -/
def rangeEnd? (text : List Char) : Option ((Nat × Nat) × Nat) := do
  let line ← numberAfter? '-' text
  let column ← numberAfter? ':' (text.drop (line.width + 1))
  some ((line.value, column.value), line.width + column.width + 2)

/-- The locator that a text starts with. -/
def read? (text : List Char) : Option Locator := do
  let line ← Text.leadingNumber? text
  match numberAfter? ':' (text.drop line.width) with
  | none => some ⟨line.value, none, none, line.width⟩
  | some column =>
    let taken := line.width + 1 + column.width
    match rangeEnd? (text.drop taken) with
    | none => some ⟨line.value, some column.value, none, taken⟩
    | some (stop, width) => some ⟨line.value, some column.value, some stop, taken + width⟩

end Locator

end LiterateCheck
