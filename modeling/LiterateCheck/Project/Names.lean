import LiterateCheck.Document
import LiterateCheck.SourceMap.Relocate

/-!
# Names in a generated project

A document gives its name to the file that its blocks are written to; a supplementary source gives
its stem to the group it is copied into. The suffixes keep the two kinds of files apart.
-/

namespace LiterateCheck

/-- The extension of sources. -/
def sourceExtension : String := "mbt"

/-- The description of a package, in each group's directory. -/
def packageFile : Path := ⟨"moon.pkg.json"⟩

/-- The description of the module, in the output root. -/
def moduleFile : Path := ⟨"moon.mod.json"⟩

/-- A text without a suffix, when it ends in it. -/
def dropSuffix? (suffix text : String) : Option String :=
  if suffix.toList.isSuffixOf text.toList then
    some (String.ofList (text.toList.take (text.toList.length - suffix.toList.length)))
  else none

/-- The file that a document's blocks are written to. -/
def generatedFileName (document : Path) : String :=
  let name := (document.fileName?.map Text.shown).getD ""
  (dropSuffix? literateSuffix name).getD name ++ generatedSuffix

/-- The key of the group that a supplementary source is copied into. -/
def supplementaryStem? (file : Path) : Option String :=
  (file.fileName?.map Text.shown).bind (dropSuffix? ("." ++ sourceExtension))

end LiterateCheck
