/-!
# Decimal numbers

A number in a text is its whole leading run of ASCII digits. A run that does not fit in 64 bits is
not a number.
-/

namespace LiterateCheck.Text

/-- The largest number that a text can name. -/
def maxNumber : Nat := UInt64.size - 1

/-- The value of a run of digits, most significant first. -/
def digitsValue (digits : List Char) : Nat :=
  digits.foldl (fun value c => 10 * value + (c.toNat - '0'.toNat)) 0

/-- A number at the start of a text. -/
structure Leading where
  value : Nat
  /-- The number of digits it was written with. -/
  width : Nat
  deriving DecidableEq, Repr

/-- The number that a text starts with, if it starts with one. -/
def leadingNumber? (text : List Char) : Option Leading :=
  let digits := text.takeWhile Char.isDigit
  if digits.isEmpty then none
  else if digitsValue digits ≤ maxNumber then some ⟨digitsValue digits, digits.length⟩
  else none

end LiterateCheck.Text
