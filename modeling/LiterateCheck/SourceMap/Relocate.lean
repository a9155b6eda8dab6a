import LiterateCheck.SourceMap.Basic
import LiterateCheck.SourceMap.Locator
import LiterateCheck.Text.Blank

/-!
# Relocating diagnostics

In the output of a tool, every location in a generated file is replaced by the place in the document
that it came from. A location starts with a path that ends in the suffix of generated files and a
colon; the path reaches back to the last delimiter. Locations without an image stay as they are.
-/

namespace LiterateCheck

/-- The suffix of generated files. -/
def generatedSuffix : String := ".md.mbt"

namespace SourceMap

/-- What announces a location: the suffix of a generated file and a colon. -/
def marker : List Char := generatedSuffix.toList ++ [':']

/-- A text parted at the first occurrence of a mark: what stands before and after it. -/
def splitAtMark? (mark : List Char) : List Char → Option (List Char × List Char)
  | [] => if mark.isEmpty then some ([], []) else none
  | c :: rest =>
    if mark.isPrefixOf (c :: rest) then some ([], (c :: rest).drop mark.length)
    else (splitAtMark? mark rest).map fun (before, after) => (c :: before, after)

theorem eq_of_splitAtMark? {mark text before after : List Char}
    (h : splitAtMark? mark text = some (before, after)) : text = before ++ mark ++ after := by
  induction text generalizing before with
  | nil =>
    simp only [splitAtMark?] at h
    split at h <;> simp_all
  | cons c rest ih =>
    simp only [splitAtMark?] at h
    split at h
    · rename_i hp
      obtain ⟨tail, htail⟩ := List.isPrefixOf_iff_prefix.1 hp
      cases h
      simp [← htail]
    · obtain ⟨⟨b, a⟩, hb, heq⟩ := Option.map_eq_some_iff.1 h
      cases heq
      simp [ih hb]

/-- The characters at which a path in a diagnostic begins anew. -/
def isDelimiter (c : Char) : Bool :=
  Text.isBlank c || "[(<\"'`".toList.contains c

/-- A text parted after its last delimiter. -/
def splitAtDelimiter (text : List Char) : List Char × List Char :=
  let path := (text.reverse.takeWhile fun c => !isDelimiter c).reverse
  (text.take (text.length - path.length), path)

/-- The last directory and the file name of a path, which may use either separator. -/
def pathEnd (path : List Char) : String × String :=
  let parts := (path.map fun c => if c == '\\' then '/' else c).splitOn '/'
  (String.ofList (parts.dropLast.getLast?.getD []), String.ofList (parts.getLast?.getD []))

/-- The group of a generated file in a directory. The directory named like the output root stands
for the empty key, unless a group of that name holds the line. -/
def groupOf (map : SourceMap) (directory fileName : String) (line : Nat) : String :=
  if map.rootName? == some directory && (map.segment? directory fileName line).isNone then ""
  else directory

/-- The text of a range's end. It stays as it is when it has no image. -/
def rangeEndText (map : SourceMap) (group fileName : String) (stop : Nat × Nat) : String :=
  let (line, column) :=
    match map.resolve group fileName stop.1 stop.2 with
    | some position => (position.line, position.column)
    | none => stop
  "-" ++ toString line ++ ":" ++ toString column

/-- What is written in place of a path and the locator after it, when the position has an image. -/
def replacement? (map : SourceMap) (path : List Char) (locator : Locator) : Option String := do
  let (directory, fileName) := pathEnd path
  let group := map.groupOf directory fileName locator.line
  let position ← map.resolve group fileName locator.line (locator.column?.getD 1)
  let start := position.document.shown ++ ":" ++ toString position.line
  let column :=
    match locator.column? with
    | some _ => ":" ++ toString position.column
    | none => ""
  let stop :=
    match locator.stop? with
    | some stop => map.rangeEndText group fileName stop
    | none => ""
  some (start ++ column ++ stop)

/-- Relocates the locations of a text from its first marker on. -/
def relocateChars (map : SourceMap) (text : List Char) : List Char :=
  match _split : splitAtMark? marker text with
  | none => text
  | some (before, after) =>
    let (left, stem) := splitAtDelimiter before
    match Locator.read? after with
    | none => before ++ marker ++ relocateChars map after
    | some locator =>
      let relocated :=
        match map.replacement? (stem ++ generatedSuffix.toList) locator with
        | some replacement => left ++ replacement.toList
        | none => before ++ marker ++ after.take locator.consumed
      relocated ++ relocateChars map (after.drop locator.consumed)
  termination_by text.length
  decreasing_by
    all_goals
      have h := congrArg List.length (eq_of_splitAtMark? _split)
      have hm : 0 < marker.length := by decide
      simp only [List.length_append, List.length_drop] at h ⊢
      omega

/-- Leads every location of a text back to its document. A map without segments leaves every text as
it is. -/
def relocate (map : SourceMap) (text : String) : String :=
  if map.segments.isEmpty then text else String.ofList (map.relocateChars text.toList)

end SourceMap

end LiterateCheck
