import LiterateCheck.Toml.Scalar

/-!
# Quoted strings

A string stands between double quotes, in which a backslash escapes, or between single quotes, in
which it does not. Three quotes open a string that may go over several lines; the line ending right
after them does not count, and up to two quotes may stand before the closing three.
-/

namespace LiterateCheck.Toml

/-- The characters that may stand in a string or a comment: the tab, and all but the controls. -/
def isPlain (c : Char) : Bool :=
  c == '\t' || (0x20 ≤ c.toNat && c.toNat != 0x7F)

def isInlineSpace (c : Char) : Bool := c == ' ' || c == '\t'

/-- The text after a line ending. -/
def afterNewline? : List Char → Option (List Char)
  | '\n' :: rest => some rest
  | '\r' :: '\n' :: rest => some rest
  | _ => none

namespace Quoted

def hexValue (c : Char) : Nat :=
  if c.isDigit then c.toNat - '0'.toNat
  else if 'a' ≤ c then c.toNat - 'a'.toNat + 10
  else c.toNat - 'A'.toNat + 10

/-- The character with a code point of exactly `count` hexadecimal digits. -/
def codePoint? (count : Nat) (text : List Char) : Option (Char × Nat) :=
  let digits := text.take count
  if digits.length == count && digits.all Scalar.isHex then
    let n := digits.foldl (fun n c => 16 * n + hexValue c) 0
    if n < 0xD800 || (0xDFFF < n && n ≤ 0x10FFFF) then some (Char.ofNat n, count) else none
  else none

/-- The character that an escape stands for, given what follows the backslash, and the number of
characters after the letter that belong to it. -/
def escape? (letter : Char) (rest : List Char) : Option (Char × Nat) :=
  match letter with
  | 'b' => some ('\x08', 0)
  | 't' => some ('\t', 0)
  | 'n' => some ('\n', 0)
  | 'f' => some ('\x0c', 0)
  | 'r' => some ('\r', 0)
  | 'e' => some ('\x1b', 0)
  | '"' => some ('"', 0)
  | '\\' => some ('\\', 0)
  | 'x' => codePoint? 2 rest
  | 'u' => codePoint? 4 rest
  | 'U' => codePoint? 8 rest
  | _ => none

/-- Adds a character to a text that was read. -/
def withChar (c : Char) : Option (List Char × List Char) → Option (List Char × List Char) :=
  Option.map fun (text, rest) => (c :: text, rest)

/-- Reads a string on one line up to its closing quote; `mark` is the quote. -/
def readLine (mark : Char) : List Char → Option (List Char × List Char)
  | [] => none
  | c :: rest =>
    if c == mark then some ([], rest)
    else if c == '\\' && mark == '"' then
      match rest with
      | [] => none
      | letter :: tail =>
        match escape? letter tail with
        | none => none
        | some (meant, width) => withChar meant (readLine mark (tail.drop width))
    else if isPlain c then withChar c (readLine mark rest)
    else none
  termination_by text => text.length
  decreasing_by all_goals simp only [List.length_cons, List.length_drop]; omega

/-- Blanks and line endings, of which an escaped line ending drops all that follow. A carriage return
counts only in a line ending. -/
def dropMargin : List Char → List Char
  | [] => []
  | '\r' :: '\n' :: rest => dropMargin rest
  | c :: rest => if isInlineSpace c || c == '\n' then dropMargin rest else c :: rest

theorem length_dropMargin_le (text : List Char) : (dropMargin text).length ≤ text.length := by
  fun_induction dropMargin text <;> simp_all <;> omega

/-- Reads a string over several lines up to its closing quotes. -/
def readLines (mark : Char) : List Char → Option (List Char × List Char)
  | [] => none
  | c :: rest =>
    if c == mark && rest.take 2 == [mark, mark] then
      let extra := min 2 ((rest.drop 2).takeWhile (· == mark)).length
      some (List.replicate extra mark, rest.drop (2 + extra))
    else if c == '\\' && mark == '"' then
      match rest with
      | [] => none
      | letter :: tail =>
        if (afterNewline? ((letter :: tail).dropWhile isInlineSpace)).isSome then
          have := length_dropMargin_le (letter :: tail)
          readLines mark (dropMargin (letter :: tail))
        else
          match escape? letter tail with
          | none => none
          | some (meant, width) => withChar meant (readLines mark (tail.drop width))
    else if c == '\r' then
      match rest with
      | '\n' :: tail => withChar '\n' (readLines mark tail)
      | _ => none
    else if isPlain c || c == '\n' then withChar c (readLines mark rest)
    else none
  termination_by text => text.length
  decreasing_by all_goals simp only [List.length_cons, List.length_drop] at *; omega

/-- The string that a text starts with, and the text after it. Only values go over several lines. -/
def read? (multiline : Bool) : List Char → Option (List Char × List Char)
  | mark :: rest =>
    if mark != '"' && mark != '\x27' then none
    else if multiline && rest.take 2 == [mark, mark] then
      let inner := rest.drop 2
      readLines mark ((afterNewline? inner).getD inner)
    else readLine mark rest
  | [] => none

end Quoted

end LiterateCheck.Toml
