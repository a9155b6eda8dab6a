import LiterateCheck.Text.Stray

/-!
# Glob patterns

A pattern is a row of tokens. `?` and `*` stand for one byte and for any bytes, `**` between
separators for any directories, `[…]` for a byte of a class, `{…}` for one of its alternatives, and
a backslash takes the next character as it is. Matching goes over the bytes of a whole path.
-/

namespace LiterateCheck

/-- Why a pattern is refused. -/
inductive GlobFault where
  | unclosedClass
  /-- A class has a range whose second end is before its first. -/
  | invalidRange (first last : Char)
  | unclosedAlternates
  | unopenedAlternates
  | danglingEscape
  deriving DecidableEq, Repr

def GlobFault.message : GlobFault → String
  | unclosedClass => "unclosed character class; missing ']'"
  | invalidRange first last =>
    "invalid range; '" ++ first.toString ++ "' > '" ++ last.toString ++ "'"
  | unclosedAlternates =>
    "unclosed alternate group; missing '\x7d' (maybe escape '\x7b' with '[\x7b]'?)"
  | unopenedAlternates =>
    "unopened alternate group; missing '\x7b' (maybe escape '\x7d' with '[\x7d]'?)"
  | danglingEscape => "dangling '\\'"

/-- A part of a pattern. -/
inductive GlobToken where
  | literal (bytes : List UInt8)
  /-- One byte. -/
  | one
  /-- Any bytes. -/
  | many
  /-- Nothing or any directories, at the start of a pattern or an alternative. -/
  | anyPrefix
  /-- Everything inside a directory. -/
  | anySuffix
  /-- A separator with any directories after it. -/
  | anyBetween
  /-- A byte that lies in one of the ranges, or in none of them. -/
  | class (negated : Bool) (ranges : List (UInt8 × UInt8))
  /-- One of some patterns. -/
  | alternatives (patterns : List (List GlobToken))
  deriving Repr

namespace GlobToken

/-- The separator of directories. -/
def separator : UInt8 := 0x2F

def utf8 (c : Char) : List UInt8 :=
  c.toString.toUTF8.toList

mutual

/-- Whether a token takes no bytes because it offers no alternative. -/
def isVoid : GlobToken → Bool
  | alternatives patterns => allVoid patterns
  | _ => false

/-- Whether all tokens are void. -/
def isVoidPattern : List GlobToken → Bool
  | [] => true
  | token :: others => token.isVoid && isVoidPattern others

/-- Whether all patterns are void. -/
def allVoid : List (List GlobToken) → Bool
  | [] => true
  | pattern :: others => isVoidPattern pattern && allVoid others

end

/-- Whether `rest` holds of the text, or of what is left of it after some bytes that satisfy `p`. -/
def afterSome (p : UInt8 → Bool) (rest : List UInt8 → Bool) : List UInt8 → Bool
  | [] => rest []
  | b :: tail => rest (b :: tail) || (p b && afterSome p rest tail)

/-- Whether `rest` holds of what follows some separator of the text. -/
def afterSeparator (rest : List UInt8 → Bool) : List UInt8 → Bool
  | [] => false
  | b :: tail => (b == separator && rest tail) || afterSeparator rest tail

/-- What `rest` says of the text after a separator at its start. -/
def pastSeparator (rest : List UInt8 → Bool) : List UInt8 → Bool
  | b :: tail => b == separator && rest tail
  | [] => false

mutual

/-- Whether a token takes a first part of the text so that `rest` holds of what is left. With
`bounded`, `?` and `*` take no separator. -/
def accepts (bounded : Bool) (rest : List UInt8 → Bool) : GlobToken → List UInt8 → Bool
  | literal bytes, text => bytes.isPrefixOf text && rest (text.drop bytes.length)
  | one, b :: tail => !(bounded && b == separator) && rest tail
  | one, [] => false
  | many, text => afterSome (fun b => !(bounded && b == separator)) rest text
  | anyPrefix, text => rest text || pastSeparator rest text || afterSeparator rest text
  | anySuffix, text => pastSeparator (afterSome (fun _ => true) rest) text
  | anyBetween, text => pastSeparator (fun tail => rest tail || afterSeparator rest tail) text
  | .class negated ranges, b :: tail =>
    (ranges.any fun (low, high) => low ≤ b && b ≤ high) != negated && rest tail
  | .class _ _, [] => false
  | alternatives patterns, text =>
    if allVoid patterns then rest text else acceptsAny bounded rest patterns text

/-- Whether the tokens, one after the other, take a first part of the text so that `rest` holds of
what is left. -/
def acceptsAll (bounded : Bool) (rest : List UInt8 → Bool) :
    List GlobToken → List UInt8 → Bool
  | [], text => rest text
  | token :: others, text => token.accepts bounded (acceptsAll bounded rest others) text

/-- Whether one of the patterns that are not void does. -/
def acceptsAny (bounded : Bool) (rest : List UInt8 → Bool) :
    List (List GlobToken) → List UInt8 → Bool
  | [], _ => false
  | pattern :: others, text =>
    (!isVoidPattern pattern && acceptsAll bounded rest pattern text) ||
      acceptsAny bounded rest others text

end

end GlobToken

/-- A pattern. -/
structure Glob where
  tokens : List GlobToken
  /-- Whether `?` and `*` stay inside a directory. -/
  bounded : Bool
  deriving Repr

namespace Glob

/-- Whether a pattern matches a whole text. The pattern `**` matches every text. -/
def isMatch (glob : Glob) (text : String) : Bool :=
  match glob.tokens with
  | [.anyPrefix] => true
  | tokens => GlobToken.acceptsAll glob.bounded List.isEmpty tokens (Text.rawBytes text)

/-! ## Reading patterns -/

/-- How patterns are read. -/
structure Style where
  bounded : Bool
  /-- Whether a class that is not closed makes its bracket, and all later ones, plain characters. -/
  allowsUnclosedClass : Bool

/-- The state of reading. Groups of alternatives are open one inside the other; the innermost
pattern is the one being read. Tokens and patterns are kept latest first. -/
structure Reading where
  tokens : List GlobToken
  /-- For each open group, the innermost first: its finished patterns, and the tokens before it. -/
  groups : List (List (List GlobToken) × List GlobToken)
  plainBrackets : Bool

namespace Reading

def push (reading : Reading) (token : GlobToken) : Reading :=
  { reading with tokens := token :: reading.tokens }

def pushChar (reading : Reading) (c : Char) : Reading :=
  reading.push (.literal (GlobToken.utf8 c))

/-- Two stars that stand for no directories. -/
def pushStars (reading : Reading) : Reading :=
  (reading.push .many).push .many

def openGroup (reading : Reading) : Reading :=
  { reading with tokens := [], groups := ([], reading.tokens) :: reading.groups }

def closeGroup? (reading : Reading) : Option Reading :=
  match reading.groups with
  | [] => none
  | (patterns, before) :: outer =>
    let patterns := (reading.tokens.reverse :: patterns).reverse
    some { reading with tokens := .alternatives patterns :: before, groups := outer }

def nextPattern (reading : Reading) : Reading :=
  match reading.groups with
  | [] => reading.pushChar ','
  | (patterns, before) :: outer =>
    { reading with
        tokens := [], groups := (reading.tokens.reverse :: patterns, before) :: outer }

/-- Puts a token for directories after what stands before it. Directories at the start take up what
follows, and so does everything inside a directory. -/
def pushDirectories (reading : Reading) (token : GlobToken) : Reading :=
  match reading.tokens with
  | .anyPrefix :: _ => reading
  | .anySuffix :: _ => reading
  | _ :: others => { reading with tokens := token :: others }
  | [] => reading.push token

/-- Takes two stars, given the character before them and the text after them. Gives the text that is
left. -/
def takeStars (reading : Reading) (before? : Option Char) (after : List Char) :
    Reading × Option Char × List Char :=
  let next? := after.head?
  let inGroup := !reading.groups.isEmpty
  if reading.tokens.isEmpty then
    match after with
    | [] => (reading.push .anyPrefix, some '*', [])
    | '/' :: rest => (reading.push .anyPrefix, some '/', rest)
    | _ => (reading.pushStars, some '*', after)
  else if before? != some '/' && !(inGroup && (before? == some ',' || before? == some '\x7b')) then
    (reading.pushStars, some '*', after)
  else if next? == none || (inGroup && (next? == some ',' || next? == some '\x7d')) then
    (reading.pushDirectories .anySuffix, some '*', after)
  else
    match after with
    | '/' :: rest => (reading.pushDirectories .anyBetween, some '/', rest)
    | _ => (reading.pushStars, some '*', after)

end Reading

/-- The state of reading a class: its ranges so far, the latest first. -/
structure ClassReading where
  ranges : List (Char × Char)
  first : Bool
  inRange : Bool

/-- Takes a character of a class that does not close it. -/
def ClassReading.take (reading : ClassReading) (c : Char) : Except GlobFault ClassReading :=
  if c == '-' && !reading.first && !reading.inRange then .ok { reading with inRange := true }
  else if reading.inRange then
    match reading.ranges with
    | (low, _) :: others =>
      if c < low then .error (.invalidRange low c) else .ok ⟨(low, c) :: others, false, false⟩
    | [] => .ok ⟨[(c, c)], false, false⟩
  else .ok ⟨(c, c) :: reading.ranges, false, false⟩

/-- The bytes that a range of characters stands for: the bytes of both ends, and the range from the
last byte of the first to the first byte of the second. -/
def byteRanges (range : Char × Char) : List (UInt8 × UInt8) :=
  let single (b : UInt8) := (b, b)
  let first := GlobToken.utf8 range.1
  let last := GlobToken.utf8 range.2
  if range.1 == range.2 then first.map single
  else
    (first.dropLast.map single) ++ [(first.getLast?.getD 0, last.head?.getD 0)] ++
      (last.drop 1).map single

/-- The ranges of a class from its first character on, and the text after its closing bracket. There
is none when the class is not closed. -/
def readClass (reading : ClassReading) :
    List Char → Except GlobFault (Option (List (Char × Char) × List Char))
  | [] => .ok none
  | c :: rest =>
    if c == ']' && !reading.first then
      let ranges := if reading.inRange then ('-', '-') :: reading.ranges else reading.ranges
      .ok (some (ranges.reverse, rest))
    else
      match reading.take c with
      | .error fault => .error fault
      | .ok reading => readClass reading rest

/-- A class after its opening bracket: the token and the text after it. -/
def classToken? (text : List Char) : Except GlobFault (Option (GlobToken × List Char)) := do
  let negated := text.head? == some '!' || text.head? == some '^'
  match ← readClass ⟨[], true, false⟩ (if negated then text.tail else text) with
  | none => .ok none
  | some (ranges, rest) => .ok (some (.class negated (ranges.flatMap byteRanges), rest))

/-- Reads a pattern from a state on; `fuel` bounds the characters left. -/
def readTokens (style : Style) :
    Nat → Reading → Option Char → List Char → Except GlobFault Reading
  | 0, reading, _, _ => .ok reading
  | _ + 1, reading, _, [] => .ok reading
  | fuel + 1, reading, before?, c :: rest =>
    match c with
    | '?' => readTokens style fuel (reading.push .one) (some c) rest
    | '*' =>
      match rest with
      | '*' :: after =>
        let (reading, last?, left) := reading.takeStars before? after
        readTokens style fuel reading last? left
      | _ => readTokens style fuel (reading.push .many) (some c) rest
    | '[' =>
      if reading.plainBrackets then readTokens style fuel (reading.pushChar c) (some c) rest
      else
        match classToken? rest with
        | .error fault => .error fault
        | .ok (some (token, left)) => readTokens style fuel (reading.push token) (some ']') left
        | .ok none =>
          if style.allowsUnclosedClass then
            readTokens style fuel { reading.pushChar c with plainBrackets := true } (some c) rest
          else .error .unclosedClass
    | '\x7b' => readTokens style fuel reading.openGroup (some c) rest
    | '\x7d' =>
      match reading.closeGroup? with
      | some reading => readTokens style fuel reading (some c) rest
      | none => .error .unopenedAlternates
    | ',' => readTokens style fuel reading.nextPattern (some c) rest
    | '\\' =>
      match rest with
      | [] => .error .danglingEscape
      | d :: left => readTokens style fuel (reading.pushChar d) (some d) left
    | _ => readTokens style fuel (reading.pushChar c) (some c) rest

/-- The pattern that a text spells. -/
def parse (style : Style) (text : String) : Except GlobFault Glob :=
  let chars := text.toList
  match readTokens style chars.length ⟨[], [], false⟩ none chars with
  | .error fault => .error fault
  | .ok reading =>
    if reading.groups.isEmpty then .ok ⟨reading.tokens.reverse, style.bounded⟩
    else .error .unclosedAlternates

end Glob

end LiterateCheck
