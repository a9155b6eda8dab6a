/-!
# White space and words

A character is blank when it has the Unicode property `White_Space`. Text is handled as a list of
characters: trimming drops blanks at both ends, and the words of a text are its longest runs
without a blank.
-/

namespace LiterateCheck.Text

/-- The characters with the Unicode property `White_Space`. -/
def isBlank (c : Char) : Bool :=
  let n := c.toNat
  (0x9 ≤ n && n ≤ 0xD) || n == 0x20 || n == 0x85 || n == 0xA0 || n == 0x1680 ||
    (0x2000 ≤ n && n ≤ 0x200A) || n == 0x2028 || n == 0x2029 || n == 0x202F || n == 0x205F ||
    n == 0x3000

/-- The longest runs without a blank. -/
def words (text : List Char) : List (List Char) :=
  (text.splitOnP isBlank).filter fun piece => !piece.isEmpty

/-- Drops the characters at the end that satisfy `p`. -/
def dropEndWhile (p : Char → Bool) (text : List Char) : List Char :=
  (text.reverse.dropWhile p).reverse

/-- Drops the blanks at both ends. -/
def trim (text : List Char) : List Char :=
  dropEndWhile isBlank (text.dropWhile isBlank)

/-- The ASCII letter in lower case; every other character is kept. -/
def lowerAscii (text : List Char) : List Char :=
  text.map Char.toLower

end LiterateCheck.Text
