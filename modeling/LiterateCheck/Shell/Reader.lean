import LiterateCheck.Shell.Syntax

/-!
# Reading scripts

A script is read from the front. Every reader gives what it read and the text after it, or nothing
where the text is no script. A bound on the number of steps, above what the length of the text
allows, makes the readers end.
-/

namespace LiterateCheck.Shell

/-- Reads something from the front of a text. -/
abbrev Reader (α : Type) := List Char → Option (α × List Char)

/-- Blanks between words. -/
def isSpace (c : Char) : Bool :=
  c == ' ' || c == '\t'

/-- The characters that end a word. -/
def endsWord (c : Char) : Bool :=
  isSpace c || ['\n', ';', '&', '|', '<', '>', '(', ')'].contains c

def startsName (c : Char) : Bool :=
  c.isAlpha || c == '_'

def isNameChar (c : Char) : Bool :=
  c.isAlphanum || c == '_'

/-- The words that shape commands. They are no names of commands. -/
def reservedWords : List String :=
  ["if", "then", "elif", "else", "fi", "while", "until", "for", "in", "do", "done", "case", "esac",
    "\x7b", "\x7d", "!"]

/-- Drops blanks, continued lines and a comment. -/
def dropSpace : List Char → List Char
  | '\\' :: '\n' :: rest => dropSpace rest
  | c :: rest =>
    if isSpace c then dropSpace rest
    else if c == '#' then rest.dropWhile (· != '\n')
    else c :: rest
  | [] => []

/-- Drops blanks, comments and line ends; `fuel` is the length of the text. -/
def dropLinesWith : Nat → List Char → List Char
  | 0, text => text
  | fuel + 1, text =>
    match dropSpace text with
    | '\n' :: rest => dropLinesWith fuel rest
    | rest => rest

def dropLines (text : List Char) : List Char :=
  dropLinesWith text.length text

/-- The word at the front of a text, as it is written. -/
def peekWord (text : List Char) : String :=
  String.ofList ((dropSpace text).takeWhile fun c => !endsWord c)

/-- Drops a word that was peeked at. -/
def dropWord (text : List Char) : List Char :=
  (dropSpace text).dropWhile fun c => !endsWord c

/-- Drops a reserved word that must stand here. -/
def expect (word : String) (text : List Char) : Option (List Char) :=
  if peekWord (dropLines text) = word then some (dropWord (dropLines text)) else none

/-- The line on which a text goes on, given the number of line ends of the whole. -/
def lineOf (total : Nat) (text : List Char) : Nat :=
  total - text.count '\n' + 1

/-- The inside of back quotes and what follows them. -/
def backQuoted : List Char → Option (List Char × List Char)
  | [] => none
  | '\x60' :: rest => some ([], rest)
  | '\\' :: c :: rest =>
    (backQuoted rest).map fun (inside, after) =>
      (if c == '\x60' || c == '\\' || c == '$' then c :: inside else '\\' :: c :: inside, after)
  | c :: rest => (backQuoted rest).map fun (inside, after) => (c :: inside, after)

/-- Splits an assignment's name off a word: what stands before the first `=`. -/
def assignment? (text : List Char) : Option (String × List Char) :=
  match text.takeWhile isNameChar, text.dropWhile isNameChar with
  | c :: name, '=' :: rest => if startsName c then some (String.ofList (c :: name), rest) else none
  | _, _ => none

/-- The operators of a braced parameter. -/
def trim? : List Char → Option (Trim × List Char)
  | '#' :: '#' :: rest => some (.longestFront, rest)
  | '#' :: rest => some (.shortestFront, rest)
  | '%' :: '%' :: rest => some (.longestBack, rest)
  | '%' :: rest => some (.shortestBack, rest)
  | _ => none

/-- The lines of a text that stands in a script, up to the line that ends it, and what follows. -/
def hereLines (delimiter : List Char) : List (List Char) → List (List Char) × List (List Char)
  | [] => ([], [])
  | row :: rows =>
    if row = delimiter then ([], rows)
    else ((row :: (hereLines delimiter rows).1), (hereLines delimiter rows).2)

/-- Takes a text that stands below the current line out of a script. -/
def takeHere (delimiter : String) (text : List Char) : List Char × List Char :=
  let line := text.takeWhile (· != '\n')
  let below := (text.dropWhile (· != '\n')).drop 1
  let (rows, after) := hereLines delimiter.toList (below.splitOn '\n')
  (rows.flatMap (· ++ ['\n']), line ++ '\n' :: ['\n'].intercalate after)

/-- A redirection before its target: the stream, if one is named, and the operator. -/
def redirector? (text : List Char) : Option (Option Stream × List Char) :=
  match text with
  | '1' :: '>' :: _ => some (some .output, text.drop 1)
  | '2' :: '>' :: _ => some (some .errors, text.drop 1)
  | '0' :: '<' :: _ => some (none, text.drop 1)
  | '>' :: _ => some (some .output, text)
  | '<' :: _ => some (none, text)
  | _ => none

def stream? : Char → Option Stream
  | '1' => some .output
  | '2' => some .errors
  | _ => none

mutual

/-- Reads a word, up to a character that ends it. -/
def readWord (total : Nat) : Nat → Reader Word
  | 0, _ => none
  | _, [] => some ([], [])
  | fuel + 1, c :: rest =>
    if endsWord c then some ([], c :: rest)
    else do
      let (part, rest) ←
        match c, rest with
        | '\x27', rest =>
          if rest.contains '\x27' then
            some ([Part.quoted (String.ofList (rest.takeWhile (· != '\x27')))],
              (rest.dropWhile (· != '\x27')).drop 1)
          else none
        | '"', rest =>
          (readQuoted total fuel true rest).map fun (parts, rest) => (.quoted "" :: parts, rest)
        | '\\', '\n' :: rest => some ([], rest)
        | '\\', d :: rest => some ([.quoted d.toString], rest)
        | '$', rest => (readDollar total fuel false rest).map fun (part, rest) => ([part], rest)
        | '\x60', rest =>
          (readBackQuoted total fuel false rest).map fun (part, rest) => ([part], rest)
        | c, rest => some ([.plain c], rest)
      let (parts, rest) ← readWord total fuel rest
      some (part ++ parts, rest)

/-- Reads parts between double quotes or, when no quote ends it, of a whole text. -/
def readQuoted (total : Nat) : Nat → Bool → Reader Word
  | 0, _, _ => none
  | _, inQuotes, [] => if inQuotes then none else some ([], [])
  | fuel + 1, inQuotes, c :: rest =>
    if inQuotes && c == '"' then some ([], rest)
    else do
      let (part, rest) ←
        match c, rest with
        | '\\', '\n' :: rest => some ([], rest)
        | '\\', d :: rest =>
          if d == '$' || d == '\x60' || d == '\\' || (inQuotes && d == '"') then
            some ([Part.quoted d.toString], rest)
          else some ([.quoted "\\"], d :: rest)
        | '$', rest => (readDollar total fuel true rest).map fun (part, rest) => ([part], rest)
        | '\x60', rest =>
          (readBackQuoted total fuel true rest).map fun (part, rest) => ([part], rest)
        | c, rest => some ([.quoted c.toString], rest)
      let (parts, rest) ← readQuoted total fuel inQuotes rest
      some (part ++ parts, rest)

/-- Reads what a dollar sign begins. -/
def readDollar (total : Nat) : Nat → Bool → Reader Part
  | 0, _, _ => none
  | _, _, [] => some (.quoted "$", [])
  | fuel + 1, isQuoted, '(' :: rest => do
    let (script, rest) ← readScript total fuel rest
    match dropLines rest with
    | ')' :: rest => some (.captured isQuoted script, rest)
    | _ => none
  | fuel + 1, isQuoted, '\x7b' :: rest => do
    let (name, rest) :=
      match rest with
      | c :: rest =>
        if startsName c then (c :: rest.takeWhile isNameChar, rest.dropWhile isNameChar)
        else ([c], rest)
      | [] => ([], [])
    let name := String.ofList name
    match rest with
    | '\x7d' :: rest => some (.parameter isQuoted name, rest)
    | ':' :: '-' :: rest =>
      let (word, rest) ← readBraced total fuel rest
      some (.fallback isQuoted name true word, rest)
    | '-' :: rest =>
      let (word, rest) ← readBraced total fuel rest
      some (.fallback isQuoted name false word, rest)
    | rest =>
      let (trim, rest) ← trim? rest
      let (word, rest) ← readBraced total fuel rest
      some (.trimmed isQuoted name trim word, rest)
  | _ + 1, isQuoted, c :: rest =>
    if startsName c then
      some (.parameter isQuoted (String.ofList (c :: rest.takeWhile isNameChar)),
        rest.dropWhile isNameChar)
    else if c.isDigit || ['@', '*', '#', '?', '$', '!', '-'].contains c then
      some (.parameter isQuoted c.toString, rest)
    else some (.quoted "$", c :: rest)

/-- Reads a word up to a closing brace. -/
def readBraced (total : Nat) : Nat → Reader Word
  | 0, _ => none
  | _, [] => none
  | fuel + 1, c :: rest =>
    if c == '\x7d' then some ([], rest)
    else do
      let (part, rest) ←
        match c, rest with
        | '"', rest => readQuoted total fuel true rest
        | '\\', d :: rest => some ([.quoted d.toString], rest)
        | '$', rest => (readDollar total fuel false rest).map fun (part, rest) => ([part], rest)
        | c, rest => some ([.plain c], rest)
      let (parts, rest) ← readBraced total fuel rest
      some (part ++ parts, rest)

/-- Reads a script between back quotes. -/
def readBackQuoted (total : Nat) : Nat → Bool → Reader Part
  | 0, _, _ => none
  | fuel + 1, isQuoted, text => do
    let (inside, rest) ← backQuoted text
    let (script, left) ← readScript total fuel inside
    if (dropLines left).isEmpty then some (.captured isQuoted script, rest) else none

/-- Reads commands up to the end of a text or to what ends a list. -/
def readScript (total : Nat) : Nat → Reader Command
  | 0, _ => none
  | fuel + 1, text =>
    let text := dropLines text
    match text with
    | [] => some (.skip, [])
    | ')' :: _ | ';' :: ';' :: _ => some (.skip, text)
    | _ =>
      if ["then", "elif", "else", "fi", "do", "done", "esac", "\x7d"].contains (peekWord text) then
        some (.skip, text)
      else do
        let (first, rest) ← readAndOr total fuel text
        let (second, rest) ←
          match dropSpace rest with
          | ';' :: ';' :: _ => some (.skip, rest)
          | ';' :: rest | '&' :: rest | '\n' :: rest => readScript total fuel rest
          | rest => some (.skip, rest)
        some (.sequence first second, rest)

/-- Reads pipes joined by `&&` and `||`, which bind alike and to the left. -/
def readAndOr (total : Nat) : Nat → Reader Command
  | 0, _ => none
  | fuel + 1, text => do
    let (first, rest) ← readPipe total fuel text
    readAndOrAfter total fuel first rest

/-- Reads the pipes that follow the first. -/
def readAndOrAfter (total : Nat) : Nat → Command → Reader Command
  | 0, _, _ => none
  | fuel + 1, first, text =>
    match dropSpace text with
    | '&' :: '&' :: rest => do
      let (second, rest) ← readPipe total fuel (dropLines rest)
      readAndOrAfter total fuel (.both first second) rest
    | '|' :: '|' :: rest => do
      let (second, rest) ← readPipe total fuel (dropLines rest)
      readAndOrAfter total fuel (.either first second) rest
    | rest => some (first, rest)

/-- Reads commands joined by pipes. -/
def readPipe (total : Nat) : Nat → Reader Command
  | 0, _ => none
  | fuel + 1, text =>
    if peekWord text = "!" then do
      let (body, rest) ← readPipe total fuel (dropWord text)
      some (.negation body, rest)
    else do
      let (left, rest) ← readCommand total fuel (dropSpace text)
      match dropSpace rest with
      | '|' :: '|' :: _ => some (left, rest)
      | '|' :: rest =>
        let (right, rest) ← readPipe total fuel (dropLines rest)
        some (.pipe left right, rest)
      | rest => some (left, rest)

/-- Reads one command with its redirections. -/
def readCommand (total : Nat) : Nat → Reader Command
  | 0, _ => none
  | fuel + 1, text => do
    let compound (read : Option (Command × List Char)) : Option (Command × List Char) := do
      let (body, rest) ← read
      let (redirections, rest) ← readRedirections total fuel rest
      some (redirections.foldr (.redirected (lineOf total text)) body, rest)
    match text with
    | '(' :: rest =>
      compound do
        let (body, rest) ← readScript total fuel rest
        match dropLines rest with
        | ')' :: rest => some (.subshell body, rest)
        | _ => none
    | _ =>
      match peekWord text with
      | "\x7b" =>
        compound do
          let (body, rest) ← readScript total fuel (dropWord text)
          some (body, ← expect "\x7d" rest)
      | "if" => compound (readBranch total fuel (dropWord text))
      | "while" => compound (readLoop total fuel true (dropWord text))
      | "until" => compound (readLoop total fuel false (dropWord text))
      | "for" =>
        compound do
          let name := peekWord (dropWord text)
          let rest := dropWord (dropWord text)
          let (words, rest) ←
            if peekWord (dropLines rest) = "in" then
              readWords total fuel (dropWord (dropLines rest))
            else some ([[.parameter true "@"]], rest)
          let rest :=
            match dropSpace rest with
            | ';' :: rest => rest
            | rest => rest
          let (body, rest) ← readScript total fuel (← expect "do" rest)
          some (.each name words body, ← expect "done" rest)
      | "case" =>
        compound do
          let (subject, rest) ← readWord total fuel (dropSpace (dropWord text))
          let (cases, rest) ← readCases total fuel (← expect "in" rest)
          some (.choice subject cases, rest)
      | word =>
        if reservedWords.contains word then none
        else
          let (assignments, words, redirections, rest) ← readSimple total fuel text
          if assignments.isEmpty && words.isEmpty && redirections.isEmpty then none
          else
            some
              (redirections.foldr (.redirected (lineOf total text))
                (.simple (lineOf total text) assignments words), rest)

/-- Reads what follows `if` or `elif`. -/
def readBranch (total : Nat) : Nat → Reader Command
  | 0, _ => none
  | fuel + 1, text => do
    let (condition, rest) ← readScript total fuel text
    let (body, rest) ← readScript total fuel (← expect "then" rest)
    match peekWord (dropLines rest) with
    | "elif" =>
      let (otherwise, rest) ← readBranch total fuel (dropWord (dropLines rest))
      some (.branch condition body otherwise, rest)
    | "else" =>
      let (otherwise, rest) ← readScript total fuel (dropWord (dropLines rest))
      some (.branch condition body otherwise, ← expect "fi" rest)
    | _ => some (.branch condition body .skip, ← expect "fi" rest)

/-- Reads what follows `while` or `until`. -/
def readLoop (total : Nat) : Nat → Bool → Reader Command
  | 0, _, _ => none
  | fuel + 1, expected, text => do
    let (condition, rest) ← readScript total fuel text
    let (body, rest) ← readScript total fuel (← expect "do" rest)
    some (.loop expected condition body, ← expect "done" rest)

/-- Reads the cases of a choice, up to its end. -/
def readCases (total : Nat) : Nat → Reader (List (List Word × Command))
  | 0, _ => none
  | fuel + 1, text =>
    let text := dropLines text
    if peekWord text = "esac" then some ([], dropWord text)
    else do
      let text := if text.head? == some '(' then text.drop 1 else text
      let (patterns, rest) ← readPatterns total fuel text
      let (body, rest) ← readScript total fuel rest
      let rest :=
        match dropLines rest with
        | ';' :: ';' :: rest => rest
        | rest => rest
      let (cases, rest) ← readCases total fuel rest
      some ((patterns, body) :: cases, rest)

/-- Reads the patterns of a case. -/
def readPatterns (total : Nat) : Nat → Reader (List Word)
  | 0, _ => none
  | fuel + 1, text => do
    let (word, rest) ← readWord total fuel (dropSpace text)
    match dropSpace rest with
    | '|' :: rest =>
      let (words, rest) ← readPatterns total fuel rest
      some (word :: words, rest)
    | ')' :: rest => some ([word], rest)
    | _ => none

/-- Reads words up to what ends a command. -/
def readWords (total : Nat) : Nat → Reader (List Word)
  | 0, _ => none
  | fuel + 1, text =>
    match dropSpace text with
    | [] => some ([], [])
    | c :: rest =>
      if endsWord c then some ([], c :: rest)
      else do
        let (word, rest) ← readWord total fuel (c :: rest)
        let (words, rest) ← readWords total fuel rest
        some (word :: words, rest)

/-- Reads the assignments, the words and the redirections of a simple command. -/
def readSimple (total : Nat) :
    Nat → List Char →
      Option (List (String × Word) × List Word × List Redirection × List Char)
  | 0, _ => none
  | fuel + 1, text =>
    let text := dropSpace text
    match redirector? text with
    | some _ => do
      let (redirection, rest) ← readRedirection total fuel text
      let (assignments, words, redirections, rest) ← readSimple total fuel rest
      some (assignments, words, redirection :: redirections, rest)
    | none =>
      match text with
      | [] => some ([], [], [], [])
      | c :: _ =>
        if endsWord c then some ([], [], [], text)
        else
          match assignment? text with
          | some (name, rest) => do
            let (value, rest) ← readWord total fuel rest
            let (assignments, words, redirections, rest) ← readSimple total fuel rest
            some ((name, value) :: assignments, words, redirections, rest)
          | none => do
            let (words, redirections, rest) ← readArguments total fuel text
            some ([], words, redirections, rest)

/-- Reads words and redirections in any order. -/
def readArguments (total : Nat) :
    Nat → List Char → Option (List Word × List Redirection × List Char)
  | 0, _ => none
  | fuel + 1, text =>
    let text := dropSpace text
    match redirector? text with
    | some _ => do
      let (redirection, rest) ← readRedirection total fuel text
      let (words, redirections, rest) ← readArguments total fuel rest
      some (words, redirection :: redirections, rest)
    | none =>
      match text with
      | [] => some ([], [], [])
      | c :: _ =>
        if endsWord c then some ([], [], text)
        else do
          let (word, rest) ← readWord total fuel text
          let (words, redirections, rest) ← readArguments total fuel rest
          some (word :: words, redirections, rest)

/-- Reads redirections alone. -/
def readRedirections (total : Nat) : Nat → Reader (List Redirection)
  | 0, _ => none
  | fuel + 1, text =>
    match redirector? (dropSpace text) with
    | none => some ([], text)
    | some _ => do
      let (redirection, rest) ← readRedirection total fuel (dropSpace text)
      let (redirections, rest) ← readRedirections total fuel rest
      some (redirection :: redirections, rest)

/-- Reads one redirection. -/
def readRedirection (total : Nat) : Nat → Reader Redirection
  | 0, _ => none
  | fuel + 1, text => do
    let (stream, operator) ← redirector? text
    let stream := stream.getD .output
    match operator with
    | '>' :: '&' :: c :: rest => some (.toStream stream (← stream? c), rest)
    | '>' :: '>' :: rest =>
      let (target, rest) ← readWord total fuel (dropSpace rest)
      some (.toFile stream true target, rest)
    | '>' :: '|' :: rest | '>' :: rest =>
      let (target, rest) ← readWord total fuel (dropSpace rest)
      some (.toFile stream false target, rest)
    | '<' :: '<' :: rest =>
      let written := peekWord rest
      let isQuoted := written.toList.any fun c => c == '\x27' || c == '"' || c == '\\'
      let delimiter :=
        String.ofList (written.toList.filter fun c => c != '\x27' && c != '"' && c != '\\')
      let (body, rest) := takeHere delimiter (dropWord rest)
      if isQuoted then some (.fromText [.quoted (String.ofList body)], rest)
      else
        let (parts, _) ← readQuoted total fuel false body
        some (.fromText parts, rest)
    | '<' :: rest =>
      let (source, rest) ← readWord total fuel (dropSpace rest)
      some (.fromFile source, rest)
    | _ => none

end

/-- The command that a script spells. -/
def Command.ofScript? (script : String) : Option Command := do
  let text := script.toList
  let (command, rest) ← readScript (text.count '\n') (8 * text.length + 16) text
  if (dropLines rest).isEmpty then some command else none

end LiterateCheck.Shell
