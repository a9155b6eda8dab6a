/-!
# Raw markup blocks

A line that starts with a tag, a comment, a declaration, an instruction or a character data section
opens a block in which nothing else is recognised. The kind of its start decides where it ends: at
a closing mark, which ends the block with its line, or before a blank line.
-/

namespace LiterateCheck.Markup

/-- The kinds of raw markup. -/
inductive RawMarkup where
  /-- Text elements, which end with the closing tag of any of them. -/
  | textElement
  | comment
  | instruction
  | declaration
  | characterData
  /-- A tag of a block element, which ends before a blank line. -/
  | blockElement
  /-- Any other complete tag on a line of its own, which ends before a blank line. -/
  | loneTag
  deriving DecidableEq, Repr

namespace RawMarkup

/-- The elements whose content is taken as it stands. -/
def textElements : List String := ["pre", "script", "style", "textarea"]

/-- The elements that make blocks. -/
def blockElements : List String :=
  ["address", "article", "aside", "base", "basefont", "blockquote", "body", "caption", "center",
   "col", "colgroup", "dd", "details", "dialog", "dir", "div", "dl", "dt", "fieldset",
   "figcaption", "figure", "footer", "form", "frame", "frameset", "h1", "h2", "h3", "h4", "h5",
   "h6", "head", "header", "hr", "html", "iframe", "legend", "li", "link", "main", "menu",
   "menuitem", "nav", "noframes", "ol", "optgroup", "option", "p", "param", "search", "section",
   "summary", "table", "tbody", "td", "tfoot", "th", "thead", "title", "tr", "track", "ul"]

/-- Whether `mark` stands anywhere in a text. -/
def holds (mark : List Char) : List Char → Bool
  | [] => mark.isEmpty
  | c :: rest => mark.isPrefixOf (c :: rest) || holds mark rest

/-- Whether the closing tag of a text element stands in a text. -/
def holdsTextElementEnd : List Char → Bool
  | [] => false
  | c :: rest =>
    (match c, rest with
      | '<', '/' :: tail =>
        let name := tail.takeWhile Char.isAlpha
        textElements.contains (String.ofList (name.map Char.toLower)) &&
          tail[name.length]? == some '>'
      | _, _ => false) || holdsTextElementEnd rest

/-- Whether two closing brackets and an angle bracket stand in a text, the brackets being paired
from the left. -/
def holdsCharacterDataEnd : List Char → Bool
  | ']' :: ']' :: '>' :: _ => true
  | ']' :: ']' :: rest => holdsCharacterDataEnd rest
  | _ :: rest => holdsCharacterDataEnd rest
  | [] => false

/-- Whether a line holds the mark that ends a block of this kind. -/
def endsIn (kind : RawMarkup) (line : List Char) : Bool :=
  match kind with
  | textElement => holdsTextElementEnd line
  | comment => holds ['-', '-', '>'] line
  | instruction => holds ['?', '>'] line
  | declaration => holds ['>'] line
  | characterData => holdsCharacterDataEnd line
  | blockElement | loneTag => false

/-- Whether a block of this kind ends before a blank line. -/
def endsBeforeBlank : RawMarkup → Bool
  | blockElement | loneTag => true
  | _ => false

/-! ## Complete tags -/

/-- Where a reader stands in a tag after its name. -/
inductive TagState where
  | beforeName
  | name
  | afterName
  | beforeValue
  | unquoted
  | quoted (mark : Char)
  | afterQuoted
  /-- In a closing tag, after the name. -/
  | closing
  /-- Only the angle bracket may follow. -/
  | slash
  /-- The tag is complete, and only blanks may follow. -/
  | complete
  deriving DecidableEq, Repr

namespace TagState

def isTagSpace (c : Char) : Bool := c == ' ' || c == '\t'

def startsAttribute (c : Char) : Bool := c.isAlphanum || c == ':' || c == '_'

def continuesAttribute (c : Char) : Bool := startsAttribute c || c == '-' || c == '.'

/-- A character where an attribute, a slash or the end of the tag may stand. -/
def stepBefore (c : Char) : Option TagState :=
  if isTagSpace c then some beforeName
  else if c == '/' then some slash
  else if startsAttribute c then some name
  else if c == '>' then some complete
  else none

/-- A character after an attribute's name, where its value may be announced. -/
def stepAfter (c : Char) : Option TagState :=
  if isTagSpace c then some afterName
  else if c == '=' then some beforeValue
  else stepBefore c

/-- The characters that end a value without quotes. -/
def endsUnquoted (c : Char) : Bool :=
  isTagSpace c || "\"'/<=>`".toList.contains c

/-- One character further. -/
def step (state : TagState) (c : Char) : Option TagState :=
  match state with
  | beforeName => stepBefore c
  | name => if continuesAttribute c then some name else stepAfter c
  | afterName => stepAfter c
  | beforeValue =>
    if "<=>`".toList.contains c then none
    else if isTagSpace c then some beforeValue
    else if "\"'".toList.contains c then some (quoted c)
    else if endsUnquoted c then stepAfter c
    else some unquoted
  | unquoted => if endsUnquoted c then stepAfter c else some unquoted
  | quoted mark => if c == mark then some afterQuoted else some (quoted mark)
  | afterQuoted => if isTagSpace c || c == '/' || c == '>' then stepBefore c else none
  | closing => if isTagSpace c then some closing else if c == '>' then some complete else none
  | slash => if c == '>' then some complete else none
  | complete => if isTagSpace c then some complete else none

end TagState

/-- Whether what follows a tag's name completes the tag and leaves only blanks after it. -/
def completesTag (isClosing : Bool) (rest : List Char) : Bool :=
  rest.foldlM TagState.step (if isClosing then .closing else .beforeName) == some .complete

/-! ## Starts -/

/-- The kind of block that a tag opens. `text` starts with the tag's name. A lone tag may not
interrupt a paragraph. -/
def ofTag? (isClosing interrupts : Bool) (text : List Char) : Option (RawMarkup × List Char) :=
  match text with
  | first :: _ =>
    if !first.isAlpha then none
    else
      let name := text.takeWhile fun c => c.isAlphanum || c == '-'
      let rest := text.drop name.length
      let lower := String.ofList (name.map Char.toLower)
      let ends :=
        match rest with
        | [] => true
        | c :: _ => TagState.isTagSpace c || c == '/' || c == '>'
      let slashed := rest.head? == some '/'
      if !ends then none
      else if !slashed && !isClosing && textElements.contains lower then some (textElement, rest)
      else if blockElements.contains lower then
        if !slashed then some (blockElement, rest)
        else if rest[1]? == some '>' then some (blockElement, rest.drop 2)
        else none
      else if interrupts then none
      else if completesTag isClosing rest then some (loneTag, [])
      else none
  | [] => none

/-- The kind of block that a line opens, with the part of the line in which its end may stand. -/
def start? (interrupts : Bool) : List Char → Option (RawMarkup × List Char)
  | '<' :: '!' :: '-' :: '-' :: rest => some (comment, '-' :: '-' :: rest)
  | '<' :: '!' :: '[' :: 'C' :: 'D' :: 'A' :: 'T' :: 'A' :: '[' :: rest =>
    some (characterData, rest)
  | '<' :: '!' :: c :: rest => if c.isAlpha then some (declaration, rest) else none
  | '<' :: '?' :: rest => some (instruction, '?' :: rest)
  | '<' :: '/' :: rest => ofTag? true interrupts rest
  | '<' :: rest => ofTag? false interrupts rest
  | _ => none

end RawMarkup

end LiterateCheck.Markup
