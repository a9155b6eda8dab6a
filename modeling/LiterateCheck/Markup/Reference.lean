import LiterateCheck.Markup.ReferenceTable

/-!
# Character references and escapes

In an info string a character reference stands for the characters it names, and a backslash before
ASCII punctuation stands for that punctuation alone. Everything else stands for itself.
-/

namespace LiterateCheck.Markup

/-- The character for a numeric reference. Numbers of control characters, of surrogates and above
the last code point give U+FFFD. -/
def numericCharacter (n : Nat) : Char :=
  if n ≤ 0x08 || n == 0x0B || (0x0E ≤ n && n ≤ 0x1F) || (0x7F ≤ n && n ≤ 0x9F) ||
      (0xD800 ≤ n && n ≤ 0xDFFF) || 0x10FFFF < n then
    '\uFFFD'
  else Char.ofNat n

/-- The value of a digit in base sixteen, either case. -/
def hexDigit? (c : Char) : Option Nat :=
  if c.isDigit then some (c.toNat - '0'.toNat)
  else if 'a' ≤ c && c ≤ 'f' then some (c.toNat - 'a'.toNat + 10)
  else if 'A' ≤ c && c ≤ 'F' then some (c.toNat - 'A'.toNat + 10)
  else none

/-- The number written by digits of a base. -/
def numberOf (base : Nat) (digits : List Char) : Nat :=
  digits.foldl (fun value c => base * value + (hexDigit? c).getD 0) 0

/-- What a reference stands for, and how many characters it takes after the ampersand. -/
structure Reference where
  meaning : List Char
  width : Nat
  deriving DecidableEq, Repr

/-- The reference whose body is the longest run of characters in `class`, which has at most `most`
of them and is closed by a semicolon. `before` is what stands between ampersand and body. -/
def bodyReference? (inClass : Char → Bool) (most before : Nat)
    (meaning? : List Char → Option (List Char)) (text : List Char) : Option Reference :=
  let body := text.takeWhile inClass
  if body.isEmpty || most < body.length || text[body.length]? != some ';' then none
  else (meaning? body).map fun meaning => ⟨meaning, before + body.length + 1⟩

/-- The reference that follows an ampersand. -/
def reference? : List Char → Option Reference
  | '#' :: 'x' :: rest | '#' :: 'X' :: rest =>
    bodyReference? (fun c => (hexDigit? c).isSome) 6 2
      (fun body => some [numericCharacter (numberOf 16 body)]) rest
  | '#' :: rest =>
    bodyReference? Char.isDigit 7 1 (fun body => some [numericCharacter (numberOf 10 body)]) rest
  | text =>
    bodyReference? Char.isAlphanum 31 0 (fun body => namedReference? (String.ofList body)) text

/-- ASCII punctuation, which a backslash can escape. -/
def isPunctuation (c : Char) : Bool :=
  let n := c.toNat
  (0x21 ≤ n && n ≤ 0x2F) || (0x3A ≤ n && n ≤ 0x40) || (0x5B ≤ n && n ≤ 0x60) ||
    (0x7B ≤ n && n ≤ 0x7E)

/-- The text that a part of an info string stands for. -/
def decode : List Char → List Char
  | [] => []
  | '\\' :: c :: rest =>
    if isPunctuation c then c :: decode rest else '\\' :: decode (c :: rest)
  | '&' :: rest =>
    match reference? rest with
    | some reference => reference.meaning ++ decode (rest.drop reference.width)
    | none => '&' :: decode rest
  | c :: rest => c :: decode rest
  termination_by text => text.length
  decreasing_by all_goals simp only [List.length_cons, List.length_drop]; omega

end LiterateCheck.Markup
