/-!
# JSON strings

A string in JSON stands between double quotes. Quotes, backslashes and control characters are
escaped, with a letter where JSON has one; all other characters stand for themselves.
-/

namespace LiterateCheck.Text

/-- The digit of a number below sixteen, in lower case. -/
def hexDigit (n : Nat) : Char :=
  if n < 10 then Char.ofNat ('0'.toNat + n) else Char.ofNat ('a'.toNat + (n - 10))

/-- What is written for a character of a JSON string. -/
def jsonEscape (c : Char) : List Char :=
  match c with
  | '"' => ['\\', '"']
  | '\\' => ['\\', '\\']
  | '\n' => ['\\', 'n']
  | '\r' => ['\\', 'r']
  | '\t' => ['\\', 't']
  | '\x08' => ['\\', 'b']
  | '\x0c' => ['\\', 'f']
  | _ =>
    if c.toNat < 0x20 then ['\\', 'u', '0', '0', hexDigit (c.toNat / 16), hexDigit (c.toNat % 16)]
    else [c]

/-- A string as JSON writes it. -/
def jsonString (text : String) : String :=
  "\"" ++ String.ofList (text.toList.flatMap jsonEscape) ++ "\""

/-- An object with string fields, one field a line. -/
def jsonObject (fields : List (String × String)) : String :=
  let rows := fields.map fun (key, value) => "  " ++ jsonString key ++ ": " ++ jsonString value
  "\x7b\n" ++ ",\n".intercalate rows ++ "\n\x7d"

end LiterateCheck.Text
