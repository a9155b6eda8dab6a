/-!
# Numbers and dates

A value without quotes is a truth value, a number or a date. Only truth values are used; for the
others it matters whether they are well formed.
-/

namespace LiterateCheck.Toml

/-- A value written without quotes. -/
inductive Scalar where
  | boolean (value : Bool)
  | number
  | date
  deriving DecidableEq, Repr

namespace Scalar

/-- The characters that a value without quotes may hold. -/
def isPart (c : Char) : Bool :=
  c.isAlphanum || c == '_' || c == '+' || c == '-' || c == '.' || c == ':'

/-- Whether a text is a row of digits, in which single underscores may stand between two digits. -/
def isDigits (isDigit : Char → Bool) (text : List Char) : Bool :=
  (text.splitOn '_').all fun group => !group.isEmpty && group.all isDigit

def isHex (c : Char) : Bool :=
  c.isDigit || ('a' ≤ c && c ≤ 'f') || ('A' ≤ c && c ≤ 'F')

def dropSign (text : List Char) : List Char :=
  match text with
  | '+' :: rest | '-' :: rest => rest
  | _ => text

/-- Whether a text is a decimal integer without a sign: no zero stands before other digits. -/
def isDecimal (text : List Char) : Bool :=
  isDigits Char.isDigit text && (text.length == 1 || text.head? != some '0')

/-- Whether a text is the exponent of a number, after its mark. -/
def isExponent (text : List Char) : Bool :=
  isDigits Char.isDigit (dropSign text)

/-- Whether a text is a number with a fraction or an exponent, without a sign. -/
def isFloat (text : List Char) : Bool :=
  let isMark (c : Char) : Bool := c == 'e' || c == 'E'
  let mantissa := text.takeWhile fun c => !isMark c
  let exponent := text.drop mantissa.length
  let whole := mantissa.takeWhile (· != '.')
  let fraction := mantissa.drop whole.length
  isDecimal whole && (fraction.isEmpty || isDigits Char.isDigit fraction.tail) &&
    (exponent.isEmpty || isExponent exponent.tail) && !(fraction.isEmpty && exponent.isEmpty)

def isNumber (text : List Char) : Bool :=
  match text with
  | '0' :: 'x' :: rest => isDigits isHex rest
  | '0' :: 'o' :: rest => isDigits (fun c => '0' ≤ c && c ≤ '7') rest
  | '0' :: 'b' :: rest => isDigits (fun c => c == '0' || c == '1') rest
  | _ =>
    let text := dropSign text
    isDecimal text || isFloat text || text == "inf".toList || text == "nan".toList

/-! ## Dates and times -/

/-- The number of exactly `count` digits. -/
def fixed? (count : Nat) (text : List Char) : Option (Nat × List Char) :=
  let digits := text.take count
  if digits.length == count && digits.all Char.isDigit then
    some (digits.foldl (fun n c => 10 * n + (c.toNat - '0'.toNat)) 0, text.drop count)
  else none

/-- The text after a mark. -/
def after? (mark : Char) : List Char → Option (List Char)
  | c :: rest => if c == mark then some rest else none
  | [] => none

def isLeapYear (year : Nat) : Bool :=
  (year % 4 == 0 && year % 100 != 0) || year % 400 == 0

def daysIn (year month : Nat) : Nat :=
  if month == 2 then (if isLeapYear year then 29 else 28)
  else if month == 4 || month == 6 || month == 9 || month == 11 then 30
  else 31

/-- The text after a date. -/
def afterDate? (text : List Char) : Option (List Char) := do
  let (year, rest) ← fixed? 4 text
  let (month, rest) ← fixed? 2 (← after? '-' rest)
  let (day, rest) ← fixed? 2 (← after? '-' rest)
  if 1 ≤ month && month ≤ 12 && 1 ≤ day && day ≤ daysIn year month then some rest else none

/-- The text after a fraction of a second, when one stands there. -/
def afterFraction? (text : List Char) : Option (List Char) :=
  match text with
  | '.' :: rest =>
    let digits := rest.takeWhile Char.isDigit
    if digits.isEmpty then none else some (rest.drop digits.length)
  | _ => some text

/-- The text after a time of day. Seconds may be left out. -/
def afterTime? (text : List Char) : Option (List Char) := do
  let (hour, rest) ← fixed? 2 text
  let (minute, rest) ← fixed? 2 (← after? ':' rest)
  if !(hour ≤ 23 && minute ≤ 59) then none
  else
    match rest with
    | ':' :: rest =>
      let (second, rest) ← fixed? 2 rest
      if second ≤ 60 then afterFraction? rest else none
    | _ => some rest

/-- The text after an offset from universal time, when one stands there. -/
def afterOffset? (text : List Char) : Option (List Char) :=
  match text with
  | 'Z' :: rest | 'z' :: rest => some rest
  | '+' :: rest | '-' :: rest => do
    let (hour, rest) ← fixed? 2 rest
    let (minute, rest) ← fixed? 2 (← after? ':' rest)
    if hour ≤ 23 && minute ≤ 59 then some rest else none
  | _ => some text

/-- Whether a text is a date, a time, or both. -/
def isDate (text : List Char) : Bool :=
  match afterDate? text with
  | some [] => true
  | some (mark :: rest) =>
    (mark == 'T' || mark == 't' || mark == ' ') &&
      ((afterTime? rest).bind afterOffset?) == some []
  | none => afterTime? text == some []

/-- The value that a text without quotes spells. -/
def parse? (text : List Char) : Option Scalar :=
  if text == "true".toList then some (boolean true)
  else if text == "false".toList then some (boolean false)
  else if isNumber text then some number
  else if isDate text then some date
  else none

/-- The text of a value without quotes at the start of a text. A blank belongs to it when a date
stands before and a time after it. -/
def taken (text : List Char) : List Char :=
  let first := text.takeWhile isPart
  match text.drop first.length with
  | ' ' :: c :: rest =>
    if c.isDigit && (afterDate? first == some []) then
      first ++ ' ' :: (c :: rest).takeWhile isPart
    else first
  | _ => first

end Scalar

end LiterateCheck.Toml
