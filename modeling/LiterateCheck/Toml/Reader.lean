import LiterateCheck.Toml.Quoted
import LiterateCheck.Toml.Table

/-!
# Reading a document

A document is a row of lines: a table header, a key with its value, or nothing, each with a comment
at most after it. A reader gives what it read from the start of a text and the text after it, or
nothing where the text is wrong. Values nest, so their readers carry a depth that the length of the
text bounds.
-/

namespace LiterateCheck.Toml

def dropSpaces (text : List Char) : List Char :=
  text.dropWhile isInlineSpace

/-- The text after a comment, when one stands there. A comment goes up to the end of its line. -/
def afterComment (text : List Char) : List Char :=
  match text with
  | '#' :: rest => rest.dropWhile isPlain
  | _ => text

/-- The text after the end of a line, before which blanks and a comment may stand. -/
def afterLine? (text : List Char) : Option (List Char) :=
  match afterComment (dropSpaces text) with
  | [] => some []
  | rest => afterNewline? rest

/-- The text after blanks, comments and line endings. -/
def dropLayout : Nat → List Char → List Char
  | 0, text => text
  | fuel + 1, text =>
    let rest := dropSpaces text
    match rest with
    | [] => []
    | _ =>
      match afterLine? rest with
      | some next => dropLayout fuel next
      | none => rest

/-! ## Keys -/

def isBareKey (c : Char) : Bool :=
  c.isAlphanum || c == '_' || c == '-'

/-- One part of a key. -/
def readKeyPart (text : List Char) : Option (String × List Char) :=
  match text with
  | [] => none
  | c :: _ =>
    if isBareKey c then
      let name := text.takeWhile isBareKey
      some (String.ofList name, text.drop name.length)
    else (Quoted.read? false text).map fun (name, rest) => (String.ofList name, rest)

/-- The parts of a key, with points between them. -/
def readKey : Nat → List Char → Option (List String × List Char)
  | 0, _ => none
  | fuel + 1, text => do
    let (part, rest) ← readKeyPart (dropSpaces text)
    match dropSpaces rest with
    | '.' :: rest =>
      let (parts, rest) ← readKey fuel rest
      some (part :: parts, rest)
    | rest => some ([part], rest)

/-- The last part of a key, and the parts before it. -/
def splitKey (parts : List String) : List String × String :=
  (parts.dropLast, parts.getLast?.getD "")

/-! ## Values -/

mutual

/-- Reads a value. -/
def readValue : Nat → List Char → Option (Value × List Char)
  | 0, _ => none
  | depth + 1, text =>
    match text with
    | '[' :: rest => do
      let (items, rest) ← readItems depth rest
      some (.list false items, rest)
    | '\x7b' :: rest => do
      let (fields, rest) ← readFields depth [] rest
      some (.table .inline fields, rest)
    | c :: _ =>
      if c == '"' || c == '\x27' then
        (Quoted.read? true text).map fun (value, rest) => (.text (String.ofList value), rest)
      else
        let taken := Scalar.taken text
        match Scalar.parse? taken with
        | some (.boolean value) => some (.boolean value, text.drop taken.length)
        | some _ => some (.other, text.drop taken.length)
        | none => none
    | [] => none

/-- Reads the items of a list up to its closing bracket. -/
def readItems : Nat → List Char → Option (List Value × List Char)
  | 0, _ => none
  | depth + 1, text =>
    match dropLayout text.length text with
    | ']' :: rest => some ([], rest)
    | start => do
      let (item, rest) ← readValue depth start
      match dropLayout rest.length rest with
      | ',' :: rest =>
        let (items, rest) ← readItems depth rest
        some (item :: items, rest)
      | ']' :: rest => some ([item], rest)
      | _ => none

/-- Reads the fields of a table up to its closing brace, after some that were read. -/
def readFields : Nat → Fields → List Char → Option (Fields × List Char)
  | 0, _, _ => none
  | depth + 1, fields, text =>
    match dropLayout text.length text with
    | '\x7d' :: rest => some (fields, rest)
    | start => do
      let (parts, rest) ← readKey start.length start
      match rest with
      | '=' :: rest =>
        let (value, rest) ← readValue depth (dropSpaces rest)
        let (path, key) := splitKey parts
        let fields ← fields.define? path key value
        match dropLayout rest.length rest with
        | ',' :: rest => readFields depth fields rest
        | '\x7d' :: rest => some (fields, rest)
        | _ => none
      | _ => none

end

/-! ## Lines -/

/-- A line of a document. -/
inductive Line where
  | blank
  | tableHeader (key : List String)
  | itemHeader (key : List String)
  | field (key : List String) (value : Value)

/-- Reads one line, with its end. -/
def readLine (text : List Char) : Option (Line × List Char) :=
  let start := dropSpaces text
  match start with
  | [] => some (.blank, [])
  | '#' :: _ | '\n' :: _ | '\r' :: _ => do some (.blank, ← afterLine? start)
  | '[' :: '[' :: rest => do
    let (key, rest) ← readKey rest.length rest
    match rest with
    | ']' :: ']' :: rest => some (.itemHeader key, ← afterLine? rest)
    | _ => none
  | '[' :: rest => do
    let (key, rest) ← readKey rest.length rest
    match rest with
    | ']' :: rest => some (.tableHeader key, ← afterLine? rest)
    | _ => none
  | _ => do
    let (key, rest) ← readKey start.length start
    match rest with
    | '=' :: rest =>
      let (value, rest) ← readValue (2 * rest.length + 2) (dropSpaces rest)
      some (.field key value, ← afterLine? rest)
    | _ => none

/-- Takes a line into a document, after the header that is in force. -/
def takeLine (header : List String) (document : Fields) : Line → Option (List String × Fields)
  | .blank => some (header, document)
  | .tableHeader parts => do
    let (path, key) := splitKey parts
    some (parts, ← document.openTable? path key)
  | .itemHeader parts => do
    let (path, key) := splitKey parts
    some (parts, ← document.openItem? path key)
  | .field parts value => do
    let (path, key) := splitKey parts
    let document ←
      Fields.modifyAt? false (fun _ fields => fields.define? path key value) header .header document
    some (header, document)

/-- Reads the lines of a document, of which `fuel` bounds the number. -/
def readDocument : Nat → List String → Fields → List Char → Option Fields
  | _, _, document, [] => some document
  | 0, _, _, _ => none
  | fuel + 1, header, document, text => do
    let (line, rest) ← readLine text
    let (header, document) ← takeLine header document line
    readDocument fuel header document rest

/-- The fields of a document. A byte order mark at its start does not count. -/
def parse? (text : String) : Option Fields :=
  let chars := text.toList
  let chars := if chars.head? == some '\uFEFF' then chars.tail else chars
  readDocument (chars.length + 1) [] [] chars

end LiterateCheck.Toml
