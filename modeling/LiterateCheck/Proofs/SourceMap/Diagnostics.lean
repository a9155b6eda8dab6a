import LiterateCheck.Proofs.Project.Resolving
import LiterateCheck.Proofs.SourceMap.Locating

/-!
# Diagnostics come home

A location that a tool reports in a generated file is led back to the document, whatever directories
stand before the group's and whatever text surrounds the location (`relocate_diagnostic`).
-/

namespace LiterateCheck

open Run (Gives)

/-- A line and column of a file, as tools write them. -/
def locationText (path : Path) (line column : Nat) : String :=
  path.text ++ ":" ++ toString line ++ ":" ++ toString column

/-- A position as it is shown. -/
def Position.text (position : Position) : String :=
  locationText ⟨position.document.shown⟩ position.line position.column

namespace SourceMap

/-- A location is replaced by the position that its line has in the group that its directory stands
for. -/
theorem relocated_eq (map : SourceMap) {path : List Char} {directory name : String}
    (hend : pathEnd path = (directory, name)) (line column : Nat) :
    map.relocated path line column =
      match map.resolve (map.groupOf directory name line) name line column with
      | some position => position.text.toList
      | none => path ++ ':' :: locatorText line column := by
  unfold relocated replacement?
  rw [hend]
  dsimp only
  rw [Option.getD_some]
  cases map.resolve (map.groupOf directory name line) name line column with
  | none => rfl
  | some position =>
    simp [Position.text, locationText]

theorem groupOf_of_ne {map : SourceMap} {directory : String} (h : map.rootName? ≠ some directory)
    (name : String) (line : Nat) : map.groupOf directory name line = directory := by
  unfold groupOf
  rw [if_neg (by simp [h])]

/-- A location in a file whose name has the suffix of generated files, behind a delimiter and under
any directories, is replaced by the position of its line. -/
theorem relocate_location {map : SourceMap} {key name : String}
    (hkey : ∀ c ∈ key.toList, c ≠ '/' ∧ c ≠ '\\' ∧ isDelimiter c = false)
    (hroot : map.rootName? ≠ some key)
    (hname : ∀ c ∈ name.toList, c ≠ '/' ∧ c ≠ '\\' ∧ isDelimiter c = false)
    (hgenerated : IsGenerated name)
    {directories : String} (hdirectories : EndsWith (· = '/') directories.toList)
    (hplain : ∀ c ∈ directories.toList, isDelimiter c = false)
    (hmarker : ¬ marker <:+: (directories ++ key ++ "/" ++ name).toList)
    {front : String} (hfront : EndsWith (isDelimiter · = true) front.toList)
    (hfrontMarker : ¬ marker <:+: front.toList)
    {rest : String} (hdigit : Text.NoDigitAhead rest.toList) (hrange : rest.toList.head? ≠ some '-')
    {line column : Nat} (hline : line ≤ Text.maxNumber) (hcolumn : column ≤ Text.maxNumber)
    {position : Position} (hposition : map.resolve key name line column = some position) :
    map.relocate (front ++ directories ++ key ++ "/" ++ name ++ ":" ++ toString line ++ ":" ++
        toString column ++ rest) =
      front ++ position.text ++ map.relocate rest := by
  have hpath : (directories ++ key ++ "/" ++ name).toList =
      directories.toList ++ key.toList ++ '/' :: name.toList := by simp
  have hdelimiter : ∀ c ∈ (directories ++ key ++ "/" ++ name).toList, isDelimiter c = false := by
    intro c hc
    rw [hpath, List.mem_append, List.mem_append, List.mem_cons] at hc
    rcases hc with (hc | hc) | rfl | hc
    · exact hplain c hc
    · exact (hkey c hc).2.2
    · decide
    · exact (hname c hc).2.2
  have hsuffix : generatedSuffix.toList <:+ (directories ++ key ++ "/" ++ name).toList := by
    rw [String.toList_append]
    exact List.IsSuffix.trans hgenerated (List.suffix_append ..)
  have hend : pathEnd (directories ++ key ++ "/" ++ name).toList = (key, name) := by
    rw [hpath, pathEnd_append hdirectories (fun c hc => ⟨(hkey c hc).1, (hkey c hc).2.1⟩)
      fun c hc => ⟨(hname c hc).1, (hname c hc).2.1⟩]
    simp
  have hreplaced : map.relocated (directories ++ key ++ "/" ++ name).toList line column =
      position.text.toList := by
    rw [relocated_eq map hend, groupOf_of_ne hroot, hposition]
  have hsegments : map.segments.isEmpty = false := by
    cases hempty : map.segments with
    | nil =>
      unfold resolve segment? at hposition
      rw [hempty] at hposition
      cases hposition
    | cons => rfl
  have htext : (front ++ directories ++ key ++ "/" ++ name ++ ":" ++ toString line ++ ":" ++
      toString column ++ rest).toList = front.toList ++
        ((directories ++ key ++ "/" ++ name).toList ++ ':' ::
          (locatorText line column ++ rest.toList)) := by
    simp [locatorText]
  unfold relocate
  rw [hsegments, if_neg Bool.false_ne_true, if_neg Bool.false_ne_true, htext,
    relocateChars_append map hfront hdelimiter hsuffix hfrontMarker hmarker hline hcolumn hdigit
      hrange, hreplaced]
  simp [String.append_assoc]

end SourceMap

variable {cwd : Location} {root : Path} {table : GroupTable} {options : ProjectOptions}
  {before after : World} {tree : ProjectTree}

/-- **Diagnostics come home.** A location in a line of code of a written project, reported under any
directory and behind any text, is replaced by its position in the document. What stands before it
stays, and what follows is relocated as if it stood alone. -/
theorem relocate_diagnostic
    (h : Gives (writeProject cwd table root options) before tree after)
    {key name : String} (hkey : key ∈ table.keys)
    (hkeyChars : ∀ c ∈ key.toList, c ≠ '/' ∧ c ≠ '\\' ∧ SourceMap.isDelimiter c = false)
    (hroot : tree.sourceMap.rootName? ≠ some key)
    (hnameChars : ∀ c ∈ name.toList, c ≠ '\\' ∧ SourceMap.isDelimiter c = false)
    {directories : String} (hdirectories : EndsWith (· = '/') directories.toList)
    (hdirectoriesChars : ∀ c ∈ directories.toList, SourceMap.isDelimiter c = false)
    (hmarker : ¬ SourceMap.marker <:+: (directories ++ key ++ "/" ++ name).toList)
    {front : String} (hfront : EndsWith (SourceMap.isDelimiter · = true) front.toList)
    (hfrontMarker : ¬ SourceMap.marker <:+: front.toList)
    {rest : String} (hrest : Text.NoDigitAhead rest.toList) (hrange : rest.toList.head? ≠ some '-')
    {n i column : Nat} {block : CodeBlock}
    (hrow : (generatedRows (table.effective key) name)[n]? = some (Row.code block i))
    (hspan : block.span?.isSome = true)
    (hline : n + 1 ≤ Text.maxNumber) (hcolumn : column ≤ Text.maxNumber) :
    ∃ position, tree.sourceMap.resolve key name (n + 1) column = some position ∧
      tree.sourceMap.relocate (front ++ directories ++ key ++ "/" ++ name ++ ":" ++
          toString (n + 1) ++ ":" ++ toString column ++ rest) =
        front ++ position.document.shown ++ ":" ++ toString position.line ++ ":" ++
          toString position.column ++ tree.sourceMap.relocate rest := by
  obtain ⟨-, rfl, -⟩ := mem_of_code_row hrow
  obtain ⟨groups, written, -, -, rfl⟩ := gives_writeProject.1 h
  obtain ⟨position, hposition⟩ : ∃ position, SourceMap.resolve
      ⟨table.segments, outputName? before.disk cwd root⟩ key (generatedFileName block.source)
        (n + 1) column = some position := by
    rw [resolve_segments hkey, hrow]
    exact Option.isSome_iff_exists.1 ((isSome_position?_code block i column).trans hspan)
  refine ⟨position, hposition, ?_⟩
  have hnoSeparator := (isFileName_generatedFileName block.source).noSeparator
  rw [SourceMap.relocate_location hkeyChars hroot (fun c hc => ⟨?_, hnameChars c hc⟩)
    (isGenerated_generatedFileName block.source) hdirectories hdirectoriesChars hmarker hfront
    hfrontMarker hrest hrange hline hcolumn hposition]
  · unfold Position.text locationText
    simp [String.append_assoc]
  · rintro rfl
    exact hnoSeparator hc

theorem relocate_diagnostic_outer : ∃ tree after,
    Gives (writeProject [] nestedTable ⟨"/"⟩ .default) ⟨.empty, []⟩ tree after ∧
      tree.sourceMap.relocate ("error at " ++ "/out/" ++ "a" ++ "/" ++ "x.md.mbt" ++ ":" ++
          toString 2 ++ ":" ++ toString 3 ++ " in a test") =
        "error at x.mbt.md:11:3" ++ tree.sourceMap.relocate " in a test" := by
  obtain ⟨groups, after, h⟩ := gives_writeProject_nestedTable
  have hrow : (generatedRows (nestedTable.effective "a") "x.md.mbt")[1]? =
      some (Row.code outerBlock 0) := by decide
  have hdirectories : EndsWith (· = '/') "/out/".toList := by decide
  have hfront : EndsWith (SourceMap.isDelimiter · = true) "error at ".toList := by decide
  have hrest : Text.NoDigitAhead " in a test".toList := by decide
  have hcolumn : 3 ≤ Text.maxNumber := by decide
  have hroot : (none : Option String) ≠ some "a" := by decide
  have hknown : SourceMap.resolve ⟨nestedTable.segments, none⟩ "a" "x.md.mbt" (1 + 1) 3 =
      some ⟨⟨"x.mbt.md"⟩, 11, 3⟩ := by decide
  obtain ⟨position, hposition, hrelocate⟩ := relocate_diagnostic h (by decide)
    (List.all_iff_forall_prop.1 (by decide)) hroot (List.all_iff_forall_prop.1 (by decide))
    hdirectories (List.all_iff_forall_prop.1 (by decide)) (by decide +kernel) hfront
    (by decide +kernel) hrest (by decide) hrow (by decide) (by decide) hcolumn
  obtain rfl := Option.some.inj (hknown.symm.trans hposition)
  have hprinted : "error at " ++ (Path.mk "x.mbt.md").shown ++ ":" ++ toString 11 ++ ":" ++
      toString 3 = "error at x.mbt.md:11:3" := by decide
  exact ⟨_, after, h, hrelocate.trans (congrArg (· ++ _) hprinted)⟩

end LiterateCheck
