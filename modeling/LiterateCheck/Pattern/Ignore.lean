import LiterateCheck.Path
import LiterateCheck.Pattern.Glob
import LiterateCheck.Text.Blank

/-!
# Ignore rules

Each line of an ignore file is a rule: a glob, perhaps negated, perhaps for directories only. A
pattern with an inner separator is matched against the whole path below the root, any other against
the name at any depth. Of all rules that match, the last decides.
-/

namespace LiterateCheck

/-- One line of an ignore file. -/
structure IgnoreRule where
  glob : Glob
  /-- The line takes back what earlier lines ignore. -/
  negated : Bool
  directoriesOnly : Bool
  deriving Repr

namespace IgnoreRule

/-- `?` and `*` stay inside a directory, and a bracket that is not closed is a plain character. -/
def style : Glob.Style := ⟨true, true⟩

/-- Drops what stands before the pattern: a negation, an escaped mark, a leading separator. Gives
the pattern, whether it is negated, and whether it holds from the root on. -/
def parseHead (line : List Char) : List Char × Bool × Bool :=
  match line with
  | '\\' :: '!' :: _ | '\\' :: '#' :: _ => (line.tail, false, false)
  | '!' :: '/' :: rest => (rest, true, true)
  | '!' :: rest => (rest, true, false)
  | '/' :: rest => (rest, false, true)
  | _ => (line, false, false)

/-- Drops a separator at the end, with a backslash before it. -/
def parseEnd (pattern : List Char) : List Char × Bool :=
  if pattern.getLast? == some '/' then
    let left := pattern.dropLast
    (if left.getLast? == some '\\' then left.dropLast else left, true)
  else (pattern, false)

/-- The glob for the whole path: a pattern without a separator holds at any depth, and one that
asks for everything inside a directory does not hold for the directory. -/
def globText (anchored : Bool) (pattern : List Char) : List Char :=
  let anyDepth := "**/".toList
  let whole :=
    if anchored || pattern.contains '/' || pattern == "**".toList then pattern
    else anyDepth ++ pattern
  if "/**".toList.isSuffixOf whole then whole ++ "/*".toList else whole

/-- The rule of a line. Empty lines and comments hold none. Blanks at the end do not count, unless
the last is escaped. -/
def parse (line : String) : Except GlobFault (Option IgnoreRule) :=
  let chars := line.toList
  if chars.head? == some '#' then .ok none
  else
    let chars :=
      if "\\ ".toList.isSuffixOf chars then chars else Text.dropEndWhile Text.isBlank chars
    if chars.isEmpty then .ok none
    else
      let (pattern, negated, anchored) := parseHead chars
      let (pattern, directoriesOnly) := parseEnd pattern
      match Glob.parse style (String.ofList (globText anchored pattern)) with
      | .error fault => .error fault
      | .ok glob => .ok (some ⟨glob, negated, directoriesOnly⟩)

/-- The line as a report of its fault quotes it. -/
def quoted (line : String) : String :=
  let chars := line.toList
  if "\\ ".toList.isSuffixOf chars then line
  else String.ofList (Text.dropEndWhile Text.isBlank chars)

/-- Whether a rule speaks of a path below the root. -/
def holds (rule : IgnoreRule) (path : String) (isDirectory : Bool) : Bool :=
  (!rule.directoriesOnly || isDirectory) && rule.glob.isMatch path

end IgnoreRule

/-- The rules for the paths below a root. -/
structure IgnoreRules where
  root : Path
  rules : List IgnoreRule
  deriving Repr

namespace IgnoreRules

/-- A text without a first part, when it has that part. -/
def dropStart (start text : List Char) : List Char :=
  if start.isPrefixOf text then text.drop start.length else text

/-- A path as it is seen from the root. -/
def relativeText (root path : Path) : String :=
  let here := "./".toList
  let root := dropStart here root.text.toList
  let path := dropStart here path.text.toList
  String.ofList <|
    if root == ['.'] || !path.contains '/' || !root.isPrefixOf path then path
    else dropStart ['/'] (dropStart root path)

/-- Whether the last rule that speaks of a path ignores it. -/
def ignores (rules : IgnoreRules) (path : Path) (isDirectory : Bool) : Bool :=
  let text := relativeText rules.root path
  match rules.rules.reverse.find? fun rule => rule.holds text isDirectory with
  | some rule => !rule.negated
  | none => false

/-- The lines of an ignore file up to the first that is not text. A carriage return before a line
ending belongs to that ending. -/
def fileLines (content : ByteArray) : List String :=
  let rows := content.toList.splitOn 0x0A
  let ended := rows.dropLast.map fun row => if row.getLast? == some 0x0D then row.dropLast else row
  let rows := ended ++ rows.getLast?.toList.filter fun row => !row.isEmpty
  let texts := rows.map fun row => String.fromUTF8? ⟨row.toArray⟩
  (texts.takeWhile Option.isSome).filterMap id

/-- The first line without the byte order marks before it. -/
def dropMarks : List String → List String
  | [] => []
  | first :: others => String.ofList (first.toList.dropWhile (· == '\uFEFF')) :: others

/-- The rules of an ignore file. Lines with a fault hold none. -/
def ofFile (root : Path) (content : ByteArray) : IgnoreRules :=
  ⟨root, (dropMarks (fileLines content)).filterMap fun line =>
    match IgnoreRule.parse line with
    | .ok rule? => rule?
    | .error _ => none⟩

/-- The rules of a list of patterns, or the first pattern with a fault. -/
def ofPatterns (root : Path) (patterns : List String) :
    Except (String × GlobFault) IgnoreRules := do
  let rules ← patterns.mapM fun pattern =>
    match IgnoreRule.parse pattern with
    | .ok rule? => .ok rule?
    | .error fault => .error (pattern, fault)
  .ok ⟨root, rules.filterMap id⟩

end IgnoreRules

end LiterateCheck
