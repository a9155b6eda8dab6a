import LiterateCheck.Proofs.Project.Resolving
import LiterateCheck.Proofs.SourceMap.Pieces

/-!
# Ranges

The two ends of a range are led back one after the other. The first decides whether the range is
replaced, and in which document. The second can stand on any line of the file: of code, of a
comment, on an empty line or behind the last one.

A range that is replaced starts in a line that a segment holds, and is printed with the segment's
document. Its second end is printed as its image when a segment of the same file and the same
document holds it, and as it was written when no segment of the file does (`relocated_range`).
-/

namespace LiterateCheck

open Run (Gives)
open Text (digitsValue)

theorem exists_segment_of_resolve {map : SourceMap} {key name : String} {line column : Nat}
    {position : Position} (h : map.resolve key name line column = some position) :
    ∃ segment ∈ map.segments, segment.contains key name line = true ∧
      position = segment.position line column := by
  obtain ⟨segment, hsegment, rfl⟩ := Option.map_eq_some_iff.1 h
  unfold SourceMap.segment? at hsegment
  have hcontains := List.find?_some hsegment
  exact ⟨segment, List.mem_of_find?_eq_some hsegment, hcontains, rfl⟩

/-- A line that no segment holds has no image. -/
theorem resolve_eq_none {map : SourceMap} {key name : String} {line : Nat}
    (h : ∀ segment ∈ map.segments, segment.contains key name line = false) (column : Nat) :
    map.resolve key name line column = none := by
  cases hresolve : map.resolve key name line column with
  | none => rfl
  | some position =>
    obtain ⟨segment, hsegment, hcontains, -⟩ := exists_segment_of_resolve hresolve
    exact absurd hcontains (by rw [h segment hsegment]; decide)

variable {cwd : Location} {root : Path} {table : GroupTable} {options : ProjectOptions}
  {before after : World} {tree : ProjectTree}

/-- **The second end of a range.** A range is replaced when a segment holds the line of its first
end, and it is then printed with the segment's document. A second end on a line that a segment of
the same group, file and document holds is printed as its image under that segment. One on a line
that no segment of the group's file holds is printed with the numbers that were written. -/
theorem relocated_range (h : Gives (writeProject cwd table root options) before tree after)
    {text : String} {pieces : List Piece} (hpieces : tree.sourceMap.Reads text.toList pieces)
    {path replacement d e f g : List Char}
    (hmem : .replaced path (.range d e f g) replacement ∈ pieces) :
    ∃ (key name : String), ∃ first ∈ tree.sourceMap.segments, ∃ (line column : Nat),
      first.contains key name (digitsValue d) = true ∧
      tree.sourceMap.LeadsTo path (.range d e f g) key name
        (first.position (digitsValue d) (digitsValue e)) ∧
      replacement = first.source.shown.toList ++
        ':' :: (locatorText (first.sourceLine (digitsValue d))
          (first.sourceColumn (digitsValue e)) ++ '-' :: locatorText line column) ∧
      (∀ segment ∈ tree.sourceMap.segments,
        segment.contains key name (digitsValue f) = true → segment.source = first.source →
          line = segment.sourceLine (digitsValue f) ∧
          column = segment.sourceColumn (digitsValue g)) ∧
      ((∀ segment ∈ tree.sourceMap.segments,
          segment.contains key name (digitsValue f) = false) →
        line = digitsValue f ∧ column = digitsValue g) := by
  obtain ⟨key, name, position, hleads, rfl⟩ := SourceMap.replaces_of_mem_reads hpieces hmem
  obtain ⟨groups, written, -, -, rfl⟩ := gives_writeProject.1 h
  have hstart : SourceMap.resolve ⟨table.segments, outputName? before.disk cwd root⟩ key name
      (digitsValue d) (digitsValue e) = some position := by
    obtain ⟨directory, file, -, -, -, hposition⟩ := hleads
    exact hposition
  obtain ⟨first, hfirst, hholds, rfl⟩ := exists_segment_of_resolve hstart
  refine ⟨key, name, first, hfirst, _, _, hholds, hleads, rfl, ?_, ?_⟩
  · intro segment hsegment hcontains _
    unfold SourceMap.stopPosition
    rw [resolve_of_mem_segments hsegment hcontains]
    exact ⟨rfl, rfl⟩
  · intro hnone
    unfold SourceMap.stopPosition
    rw [resolve_eq_none hnone]
    exact ⟨rfl, rfl⟩

/-- A range inside the outer group's line of code: both ends come home. -/
theorem relocated_range_outer : ∃ tree after,
    Gives (writeProject [] nestedTable ⟨"/"⟩ .default) ⟨.empty, []⟩ tree after ∧
      ∃ (key name : String), ∃ first ∈ tree.sourceMap.segments, ∃ (line column : Nat),
        first.contains key name 2 = true ∧
        "x.mbt.md:11:1-11:3".toList = first.source.shown.toList ++
          ':' :: (locatorText (first.sourceLine 2) (first.sourceColumn 1) ++
            '-' :: locatorText line column) ∧
        ∀ segment ∈ tree.sourceMap.segments,
          segment.contains key name 2 = true → segment.source = first.source →
            line = segment.sourceLine 2 ∧ column = segment.sourceColumn 3 := by
  obtain ⟨groups, after, h⟩ := gives_writeProject_nestedTable
  have hreplacement : SourceMap.replacement? ⟨nestedTable.segments, none⟩ "a/x.md.mbt".toList
      (WrittenLocator.range "2".toList "1".toList "2".toList "3".toList).locator =
        some "x.mbt.md:11:1-11:3" := by decide
  have hreads := SourceMap.reads_of_location "a/x".toList
    (show SourceMap.splitAtMark? SourceMap.marker "a/x.md.mbt:2:1-2:3".toList = _ from rfl)
    (List.all_iff_forall_prop.1 (by decide)) (List.all_iff_forall_prop.1 (by decide))
    (SourceMap.replaces_of_replacement? hreplacement)
  obtain ⟨key, name, first, hfirst, line, column, hholds, -, hprinted, hend, -⟩ :=
    relocated_range h hreads (List.mem_cons_of_mem _ (List.mem_cons_self ..))
  exact ⟨_, after, h, key, name, first, hfirst, line, column, hholds, hprinted, hend⟩

/-- A range whose second end stands on the empty line below the code: the number of that line in the
generated file is printed behind the place in the document. -/
theorem relocate_range_blank : ∃ tree after,
    Gives (writeProject [] nestedTable ⟨"/"⟩ .default) ⟨.empty, []⟩ tree after ∧
      Disk.empty.LeadsToEmpty [] ⟨"/"⟩ ∧
      (∀ segment ∈ tree.sourceMap.segments, segment.contains "a" "x.md.mbt" 3 = false) ∧
      tree.sourceMap.relocate "a/x.md.mbt:2:1-3:1" = "x.mbt.md:11:1-3:1" := by
  obtain ⟨groups, after, h⟩ := gives_writeProject_nestedTable
  have hnone : ∀ segment ∈ nestedTable.segments, segment.contains "a" "x.md.mbt" 3 = false := by
    decide
  refine ⟨_, after, h, leadsToEmpty_empty, hnone, ?_⟩
  exact SourceMap.relocate_of_location ⟨nestedTable.segments, none⟩ "a/x".toList
    (show SourceMap.splitAtMark? SourceMap.marker _ = some (_, (WrittenLocator.range "2".toList
      "1".toList "3".toList "1".toList).text) from rfl) (List.all_iff_forall_prop.1 (by decide))
      (List.all_iff_forall_prop.1 (by decide)) (by decide)

end LiterateCheck
