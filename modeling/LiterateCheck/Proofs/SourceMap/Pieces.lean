import LiterateCheck.Proofs.SourceMap.Occurrences
import LiterateCheck.Proofs.SourceMap.WrittenLocator

/-!
# Relocation, piece by piece

What relocation does to a text is said here without a loop over what is left of it. The places of
the marker in the whole text are taken from left to right. At each place the text from where the
last one ended up to the end of the marker, or of the locator behind it, becomes one or two pieces
(`ReadsAt`): it is kept, or the path and the locator at its end are replaced by where they lead.

1. Where a path and a locator lead is looked up by the last directory and the file name of the path
   (`LeadsTo`, `replacement?_eq`).
2. The loop has three exits at a marker: no locator follows, it leads nowhere, or it is replaced
   (`relocateChars_of_unnumbered`, `relocateChars_of_numbered`).
3. So one turn of the loop writes what is said of its place (`ReadsAt.result`), and the loop what is
   said of all of them (`ReadsFrom.result`).
4. Every text can be read in pieces, the pieces are together the text, and what is written for
   them is what relocation gives (`relocate_reads`).
-/

namespace LiterateCheck

open Text (digitsValue)

/-- The line and the column of a locator's start. A column that is missing counts as the first. -/
def WrittenLocator.start : WrittenLocator → Nat × Nat
  | line d => (digitsValue d, 1)
  | position d e | range d e _ _ => (digitsValue d, digitsValue e)

/-- A stretch of a text: it is kept, or it is a path with a locator and replaced. -/
inductive Piece where
  | kept (text : List Char)
  | replaced (path : List Char) (locator : WrittenLocator) (replacement : List Char)
  deriving DecidableEq, Repr

namespace Piece

/-- What stands in the text. -/
def source : Piece → List Char
  | kept text => text
  | replaced path locator _ => path ++ ':' :: locator.text

/-- What is written. -/
def result : Piece → List Char
  | kept text => text
  | replaced _ _ replacement => replacement

end Piece

namespace SourceMap

/-! ## Where a location leads -/

/-- The group that a directory is read as. The name of the output root stands for the empty key,
unless a segment is recorded under that name for the line. -/
def groupRead (map : SourceMap) (directory name : String) (line : Nat) : String :=
  if map.rootName? = some directory ∧ ∀ segment ∈ map.segments,
      ¬ (segment.group = directory ∧ segment.fileName = name ∧
        segment.outputStart ≤ line ∧ line ≤ segment.outputEnd) then ""
  else directory

/-- A path with a locator leads to a position: the one that the locator's start has in the file
and the group that the path ends in. -/
def LeadsTo (map : SourceMap) (path : List Char) (written : WrittenLocator) (group name : String)
    (position : Position) : Prop :=
  ∃ directory file, PathEnds path directory file ∧ name = String.ofList file ∧
    group = map.groupRead (String.ofList directory) name written.start.1 ∧
      map.resolve group name written.start.1 written.start.2 = some position

/-- The line and column of a range's end: those of its image, or those that were written when it
has none. -/
def stopPosition (map : SourceMap) (group name : String) (line column : Nat) : Nat × Nat :=
  match map.resolve group name line column with
  | some image => (image.line, image.column)
  | none => (line, column)

/-- What is written for a locator whose start stands at a position. -/
def imageText (map : SourceMap) (group name : String) (position : Position) :
    WrittenLocator → List Char
  | .line _ => position.document.shown.toList ++ ':' :: (toString position.line).toList
  | .position _ _ =>
    position.document.shown.toList ++ ':' :: locatorText position.line position.column
  | .range _ _ f g =>
    let stop := map.stopPosition group name (digitsValue f) (digitsValue g)
    position.document.shown.toList ++ ':' ::
      (locatorText position.line position.column ++ '-' :: locatorText stop.1 stop.2)

/-- A path with a locator is replaced by where it leads. -/
def Replaces (map : SourceMap) (path : List Char) (written : WrittenLocator)
    (replacement : List Char) : Prop :=
  ∃ group name position, map.LeadsTo path written group name position ∧
    replacement = map.imageText group name position written

theorem groupOf_eq_groupRead (map : SourceMap) (directory name : String) (line : Nat) :
    map.groupOf directory name line = map.groupRead directory name line := by
  have hnone : (map.segment? directory name line).isNone = true ↔ ∀ segment ∈ map.segments,
      ¬ (segment.group = directory ∧ segment.fileName = name ∧
        segment.outputStart ≤ line ∧ line ≤ segment.outputEnd) := by
    unfold segment? Segment.contains
    rw [Option.isNone_iff_eq_none, List.find?_eq_none]
    simp only [Bool.and_eq_true, beq_iff_eq, decide_eq_true_eq, and_assoc]
  have hroot : (map.rootName? == some directory) = true ↔ map.rootName? = some directory :=
    beq_iff_eq
  unfold groupOf groupRead
  simp only [Bool.and_eq_true, hroot, hnone]

/-- What replaces a path and a locator, by the end of the path. -/
theorem replacement?_eq (map : SourceMap) {path directory file : List Char}
    (hends : PathEnds path directory file) (written : WrittenLocator) :
    map.replacement? path written.locator =
      (map.resolve (map.groupRead (String.ofList directory) (String.ofList file) written.start.1)
        (String.ofList file) written.start.1 written.start.2).map fun position =>
          String.ofList (map.imageText
            (map.groupRead (String.ofList directory) (String.ofList file) written.start.1)
            (String.ofList file) position written) := by
  have hline : written.locator.line = written.start.1 := by cases written <;> rfl
  have hcolumn : written.locator.column?.getD 1 = written.start.2 := by cases written <;> rfl
  unfold replacement?
  rw [pathEnd_of_pathEnds hends]
  dsimp only
  rw [groupOf_eq_groupRead, hline, hcolumn]
  generalize map.groupRead (String.ofList directory) (String.ofList file) written.start.1 = group
  cases map.resolve group (String.ofList file) written.start.1 written.start.2 with
  | none => rfl
  | some position =>
    refine congrArg some (String.toList_inj.1 ?_)
    rw [String.toList_ofList]
    cases written with
    | line d => simp [WrittenLocator.locator, imageText]
    | position d e => simp [WrittenLocator.locator, imageText, locatorText]
    | range d e f g =>
      simp only [WrittenLocator.locator, imageText, rangeEndText, stopPosition, locatorText]
      cases map.resolve group (String.ofList file) (digitsValue f) (digitsValue g) <;> simp

theorem replacement?_of_replaces {map : SourceMap} {path replacement : List Char}
    {written : WrittenLocator} (h : map.Replaces path written replacement) :
    map.replacement? path written.locator = some (String.ofList replacement) := by
  obtain ⟨_, _, position, ⟨directory, file, hends, rfl, rfl, hposition⟩, rfl⟩ := h
  rw [replacement?_eq map hends, hposition]
  rfl

theorem replaces_of_replacement? {map : SourceMap} {path : List Char} {written : WrittenLocator}
    {replacement : String} (h : map.replacement? path written.locator = some replacement) :
    map.Replaces path written replacement.toList := by
  obtain ⟨directory, file, hends⟩ := exists_pathEnds path
  rw [replacement?_eq map hends] at h
  obtain ⟨position, hposition, rfl⟩ := Option.map_eq_some_iff.1 h
  exact ⟨_, _, position, ⟨directory, file, hends, rfl, rfl, hposition⟩, String.toList_ofList⟩

theorem replacement?_eq_none_iff {map : SourceMap} {path : List Char}
    {written : WrittenLocator} :
    map.replacement? path written.locator = none ↔
      ∀ replacement, ¬ map.Replaces path written replacement := by
  constructor
  · intro h replacement hreplaces
    rw [replacement?_of_replaces hreplaces] at h
    cases h
  · intro h
    cases hreplacement : map.replacement? path written.locator with
    | none => rfl
    | some replacement => exact absurd (replaces_of_replacement? hreplacement) (h _)

/-! ## Reading a text in pieces -/

/-- How a text is read at a place of the marker, from where the reading has come to: up to where
it goes, and in which pieces. -/
inductive ReadsAt (map : SourceMap) (text : List Char) (low place : Nat) :
    Nat → List Piece → Prop
  /-- No number follows the marker. -/
  | unnumbered
      (hnone : ∀ written : WrittenLocator, ¬ written.Starts (text.drop (place + marker.length))) :
      ReadsAt map text low place (place + marker.length)
        [.kept (text.extract low (place + marker.length))]
  /-- The location leads nowhere. -/
  | unresolved {written : WrittenLocator} {start : Nat}
      (hlongest : written.IsLongest (text.drop (place + marker.length)))
      (hstart : IsPathStart text low place start)
      (hnone : ∀ replacement, ¬ map.Replaces
        (text.extract start (place + generatedSuffix.length)) written replacement) :
      ReadsAt map text low place (place + marker.length + written.text.length)
        [.kept (text.extract low (place + marker.length + written.text.length))]
  /-- The location is replaced. -/
  | resolved {written : WrittenLocator} {start : Nat} {replacement : List Char}
      (hlongest : written.IsLongest (text.drop (place + marker.length)))
      (hstart : IsPathStart text low place start)
      (hreplaces : map.Replaces
        (text.extract start (place + generatedSuffix.length)) written replacement) :
      ReadsAt map text low place (place + marker.length + written.text.length)
        [.kept (text.extract low start),
          .replaced (text.extract start (place + generatedSuffix.length)) written replacement]

/-- How a text is read at some places of the marker, from where the reading has come to. -/
inductive ReadsFrom (map : SourceMap) (text : List Char) : Nat → List Nat → List Piece → Prop
  | rest (low : Nat) : ReadsFrom map text low [] [.kept (text.drop low)]
  | next {low place stop : Nat} {places : List Nat} {here there : List Piece}
      (hhere : ReadsAt map text low place stop here)
      (hthere : ReadsFrom map text stop places there) :
      ReadsFrom map text low (place :: places) (here ++ there)

/-- The pieces in which a text is read. -/
def Reads (map : SourceMap) (text : List Char) (pieces : List Piece) : Prop :=
  map.ReadsFrom text 0 (markerPlaces text) pieces

theorem replaces_of_mem_reads {map : SourceMap} {text : List Char} {low : Nat}
    {places : List Nat} {pieces : List Piece} (h : map.ReadsFrom text low places pieces)
    {path replacement : List Char} {written : WrittenLocator}
    (hmem : .replaced path written replacement ∈ pieces) :
    map.Replaces path written replacement := by
  induction h with
  | rest low => simp at hmem
  | next hhere hthere ih =>
    rcases List.mem_append.1 hmem with hmem | hmem
    · cases hhere with
      | unnumbered => simp at hmem
      | unresolved => simp at hmem
      | resolved hlongest hstart hreplaces =>
        simp only [List.mem_cons, reduceCtorEq, Piece.replaced.injEq, List.not_mem_nil, false_or,
          or_false] at hmem
        obtain ⟨rfl, rfl, rfl⟩ := hmem
        exact hreplaces
    · exact ih hmem

/-! ## The loop -/

theorem relocateChars_of_unmarked (map : SourceMap) {text : List Char}
    (h : splitAtMark? marker text = none) : map.relocateChars text = text := by
  rw [relocateChars]
  split
  · rfl
  · rename_i hsome
    rw [h] at hsome
    cases hsome

theorem relocateChars_of_unnumbered (map : SourceMap) {text before after : List Char}
    (h : splitAtMark? marker text = some (before, after)) (hread : Locator.read? after = none) :
    map.relocateChars text = before ++ marker ++ map.relocateChars after := by
  rw [relocateChars]
  split
  · rename_i hnone
    rw [h] at hnone
    cases hnone
  · rename_i before' after' hsome
    rw [h] at hsome
    cases hsome
    rw [hread]

theorem relocateChars_of_numbered (map : SourceMap) {text left stem after : List Char}
    (h : splitAtMark? marker text = some (left ++ stem, after))
    (hleft : EndsWith (isDelimiter · = true) left) (hstem : ∀ c ∈ stem, isDelimiter c = false)
    {locator : Locator} (hread : Locator.read? after = some locator) :
    map.relocateChars text =
      (map.replacement? (stem ++ generatedSuffix.toList) locator).elim
        (left ++ stem ++ marker ++ after.take locator.consumed) (left ++ String.toList ·) ++
      map.relocateChars (after.drop locator.consumed) := by
  rw [relocateChars]
  split
  · rename_i hnone
    rw [h] at hnone
    cases hnone
  · rename_i before' after' hsome
    rw [h] at hsome
    cases hsome
    simp only [splitAtDelimiter_append hleft hstem, hread]
    cases map.replacement? (stem ++ generatedSuffix.toList) locator with
    | none => rfl
    | some replacement => rfl

/-! ## The two agree -/

theorem toList_generatedSuffix_append (rest : List Char) :
    marker ++ rest = generatedSuffix.toList ++ ':' :: rest := by
  simp [marker]

/-- A text with a first marker, seen from where the reading has come to. -/
structure Parts (text done left stem after : List Char) : Prop where
  text_eq : text = done ++ (left ++ (stem ++ (marker ++ after)))
  left_ends : EndsWith (isDelimiter · = true) left
  stem_plain : ∀ c ∈ stem, isDelimiter c = false

namespace Parts

variable {text done left stem after : List Char} (h : Parts text done left stem after)

include h

theorem drop_marker :
    text.drop (done.length + (left ++ stem).length + marker.length) = after := by
  rw [h.text_eq, show done ++ (left ++ (stem ++ (marker ++ after))) =
    (done ++ (left ++ stem) ++ marker) ++ after by simp]
  exact List.drop_left' (by simp [Nat.add_assoc])

theorem extract_path :
    text.extract (done.length + left.length)
      (done.length + (left ++ stem).length + generatedSuffix.length) =
        stem ++ generatedSuffix.toList := by
  have hmiddle := extract_append (done ++ left) (stem ++ generatedSuffix.toList) (':' :: after)
  have hlength : generatedSuffix.length = generatedSuffix.toList.length := rfl
  rw [h.text_eq, toList_generatedSuffix_append, hlength]
  simpa [Nat.add_assoc] using hmiddle

theorem text_eq_after (taken : List Char) {rest : List Char} (hafter : after = taken ++ rest) :
    text = done ++ (left ++ stem) ++ marker ++ taken ++ rest := by
  rw [h.text_eq, hafter]
  simp

theorem extract_left : text.extract done.length (done.length + left.length) = left := by
  rw [h.text_eq]
  exact extract_append ..

theorem extract_taken (taken : List Char) {rest : List Char} (hafter : after = taken ++ rest) :
    text.extract done.length
      (done.length + (left ++ stem).length + marker.length + taken.length) =
        left ++ stem ++ marker ++ taken := by
  have hmiddle := extract_append done (left ++ stem ++ marker ++ taken) rest
  rw [h.text_eq, hafter]
  simpa [Nat.add_assoc] using hmiddle

theorem isPathStart {start : Nat} :
    IsPathStart text done.length (done.length + (left ++ stem).length) start ↔
      start = done.length + left.length := by
  have hplace := isPathStart_append done (marker ++ after) h.left_ends h.stem_plain
  rw [← h.text_eq, Nat.add_assoc, ← List.length_append] at hplace
  constructor
  · intro hstart
    exact hstart.unique hplace
  · rintro rfl
    exact hplace

end Parts

theorem exists_parts {text done rest before after : List Char} (htext : text = done ++ rest)
    (h : splitAtMark? marker rest = some (before, after)) :
    ∃ left stem, before = left ++ stem ∧ Parts text done left stem after := by
  obtain ⟨left, stem, rfl, hleft, hstem⟩ := exists_parted isDelimiter before
  refine ⟨left, stem, rfl, ?_, hleft, hstem⟩
  rw [htext, eq_of_splitAtMark? h]
  simp

theorem length_lt_of_splitAtMark? {text before after : List Char}
    (h : splitAtMark? marker text = some (before, after)) : after.length < text.length := by
  have hlength := congrArg List.length (eq_of_splitAtMark? h)
  have hmarker : 0 < marker.length := by decide
  rw [List.length_append, List.length_append] at hlength
  omega

theorem point_not_mem_text {written : WrittenLocator} {text : List Char}
    (h : written.Starts text) : '.' ∉ written.text := by
  intro hmem
  rcases WrittenLocator.of_mem_text h hmem with hdigit | hcolon | hdash
  · exact absurd hdigit (by decide)
  · exact absurd hcolon (by decide)
  · exact absurd hdash (by decide)

/-- The places of the marker in what is left, as places in the whole text: the first one, and those
behind what is read there. -/
theorem places_of_splitAtMark? {rest before after taken tail : List Char}
    (hsplit : splitAtMark? marker rest = some (before, after)) (hafter : after = taken ++ tail)
    (hpoint : '.' ∉ taken) (low : Nat) :
    (markerPlaces rest).map (low + ·) = (low + before.length) ::
      (markerPlaces tail).map (low + before.length + marker.length + taken.length + ·) := by
  rw [markerPlaces_of_splitAtMark?_eq_some hsplit, hafter, markerPlaces_append_of_not_mem hpoint]
  simp [Function.comp_def, Nat.add_assoc]

theorem exists_readsAt (map : SourceMap) {text done left stem after : List Char}
    (hparts : Parts text done left stem after) :
    ∃ taken tail here, after = taken ++ tail ∧ '.' ∉ taken ∧
      map.ReadsAt text done.length (done.length + (left ++ stem).length)
        (done.length + (left ++ stem).length + marker.length + taken.length) here := by
  have hdrop := hparts.drop_marker
  cases hread : Locator.read? after with
  | none =>
    have hnone := Locator.read?_eq_none_iff.1 hread
    rw [← hdrop] at hnone
    exact ⟨[], after, _, rfl, List.not_mem_nil, .unnumbered hnone⟩
  | some locator =>
    obtain ⟨written, hlongest, rfl⟩ := Locator.read?_eq_some_iff.1 hread
    obtain ⟨tail, htail, -⟩ := hlongest.starts.ahead
    have hpoint := point_not_mem_text hlongest.starts
    have hstart := hparts.isPathStart.2 rfl
    rw [← hdrop] at hlongest
    by_cases hreplaces : ∃ replacement, map.Replaces (text.extract (done.length + left.length)
        (done.length + (left ++ stem).length + generatedSuffix.length)) written replacement
    · obtain ⟨replacement, hreplaces⟩ := hreplaces
      exact ⟨_, tail, _, htail, hpoint, .resolved hlongest hstart hreplaces⟩
    · have hnone := fun replacement hreplaced => hreplaces ⟨replacement, hreplaced⟩
      exact ⟨_, tail, _, htail, hpoint, .unresolved hlongest hstart hnone⟩

/-- The pieces at a place of the marker are together the text up to where the reading goes, and one
turn of the loop writes for them what it writes before it goes on. -/
theorem ReadsAt.result {map : SourceMap} {text done rest left stem after : List Char}
    (hparts : Parts text done left stem after)
    (hsplit : splitAtMark? marker rest = some (left ++ stem, after)) {stop : Nat}
    {here : List Piece}
    (h : map.ReadsAt text done.length (done.length + (left ++ stem).length) stop here) :
    ∃ taken tail, after = taken ++ tail ∧ '.' ∉ taken ∧
      stop = done.length + (left ++ stem).length + marker.length + taken.length ∧
      here.flatMap Piece.source = left ++ stem ++ marker ++ taken ∧
      map.relocateChars rest = here.flatMap Piece.result ++ map.relocateChars tail := by
  cases h with
  | unnumbered hnone =>
    rw [hparts.drop_marker] at hnone
    have hkept := hparts.extract_taken [] rfl
    rw [List.length_nil, Nat.add_zero] at hkept
    refine ⟨[], after, rfl, List.not_mem_nil, rfl, ?_, ?_⟩
    · rw [List.flatMap_singleton, Piece.source, hkept]
    · rw [relocateChars_of_unnumbered map hsplit (Locator.read?_eq_none_iff.2 hnone),
        List.flatMap_singleton, Piece.result, hkept, List.append_nil]
  | unresolved hlongest hstart hnone =>
    rename_i written start
    rw [hparts.drop_marker] at hlongest
    obtain ⟨tail, htail, -⟩ := hlongest.starts.ahead
    have hkept := hparts.extract_taken written.text htail
    obtain rfl := hparts.isPathStart.1 hstart
    rw [hparts.extract_path, ← replacement?_eq_none_iff] at hnone
    refine ⟨written.text, tail, htail, point_not_mem_text hlongest.starts, rfl, ?_, ?_⟩
    · rw [List.flatMap_singleton, Piece.source, hkept]
    · rw [relocateChars_of_numbered map hsplit hparts.left_ends hparts.stem_plain
        (Locator.read?_of_isLongest hlongest), hnone, WrittenLocator.consumed_locator,
        List.flatMap_singleton, Piece.result, hkept, htail, List.take_left, List.drop_left]
      rfl
  | resolved hlongest hstart hreplaces =>
    rename_i written start replacement
    rw [hparts.drop_marker] at hlongest
    obtain ⟨tail, htail, -⟩ := hlongest.starts.ahead
    obtain rfl := hparts.isPathStart.1 hstart
    rw [hparts.extract_path] at hreplaces
    refine ⟨written.text, tail, htail, point_not_mem_text hlongest.starts, rfl, ?_, ?_⟩
    · simp only [List.flatMap_cons, List.flatMap_nil, Piece.source, hparts.extract_left,
        hparts.extract_path]
      simp [marker]
    · rw [relocateChars_of_numbered map hsplit hparts.left_ends hparts.stem_plain
        (Locator.read?_of_isLongest hlongest), replacement?_of_replaces hreplaces,
        WrittenLocator.consumed_locator, htail, List.drop_left, Option.elim_some]
      simp [Piece.result, hparts.extract_left]

theorem exists_readsFrom (map : SourceMap) {text done rest : List Char}
    (htext : text = done ++ rest) :
    ∃ pieces, map.ReadsFrom text done.length ((markerPlaces rest).map (done.length + ·))
      pieces := by
  induction hroom : rest.length using Nat.strongRecOn generalizing done rest with
  | ind room ih =>
    cases hsplit : splitAtMark? marker rest with
    | none =>
      rw [markerPlaces_of_splitAtMark?_eq_none hsplit]
      exact ⟨_, .rest _⟩
    | some parts =>
      obtain ⟨before, after⟩ := parts
      obtain ⟨left, stem, rfl, hparts⟩ := exists_parts htext hsplit
      obtain ⟨taken, tail, here, hafter, hpoint, hhere⟩ := exists_readsAt map hparts
      have hshorter := length_lt_of_splitAtMark? hsplit
      rw [hafter, List.length_append] at hshorter
      obtain ⟨there, hthere⟩ := ih tail.length (by omega) (hparts.text_eq_after taken hafter) rfl
      rw [List.length_append, List.length_append, List.length_append] at hthere
      rw [places_of_splitAtMark? hsplit hafter hpoint]
      exact ⟨_, .next hhere hthere⟩

/-- The pieces of what is left of a text are together what is left, and what is written for them
is what the loop gives. -/
theorem ReadsFrom.result {map : SourceMap} {text done rest : List Char}
    (htext : text = done ++ rest) {pieces : List Piece}
    (h : map.ReadsFrom text done.length ((markerPlaces rest).map (done.length + ·)) pieces) :
    pieces.flatMap Piece.source = rest ∧
      pieces.flatMap Piece.result = map.relocateChars rest := by
  induction hroom : rest.length using Nat.strongRecOn generalizing done rest pieces with
  | ind room ih =>
    cases hsplit : splitAtMark? marker rest with
    | none =>
      rw [markerPlaces_of_splitAtMark?_eq_none hsplit] at h
      cases h
      rw [relocateChars_of_unmarked map hsplit, htext]
      simp [Piece.source, Piece.result]
    | some parts =>
      obtain ⟨before, after⟩ := parts
      obtain ⟨left, stem, rfl, hparts⟩ := exists_parts htext hsplit
      rw [markerPlaces_of_splitAtMark?_eq_some hsplit, List.map_cons] at h
      cases h with
      | next hhere hthere =>
        rename_i stop here there
        obtain ⟨taken, tail, hafter, hpoint, rfl, hsource, hresult⟩ := hhere.result hparts hsplit
        have hshorter := length_lt_of_splitAtMark? hsplit
        rw [hafter, List.length_append] at hshorter
        -- what is left behind the place is read by the induction hypothesis
        have hplaces := places_of_splitAtMark? hsplit hafter hpoint done.length
        rw [markerPlaces_of_splitAtMark?_eq_some hsplit, List.map_cons, List.cons.injEq]
          at hplaces
        rw [hplaces.2] at hthere
        rw [← List.length_append, ← List.length_append, ← List.length_append] at hthere
        obtain ⟨hnextSource, hnextResult⟩ := ih tail.length (by omega)
          (hparts.text_eq_after taken hafter) hthere rfl
        rw [List.flatMap_append, List.flatMap_append, hsource, hresult, hnextSource, hnextResult,
          eq_of_splitAtMark? hsplit, hafter]
        exact ⟨by simp, rfl⟩

/-- A text can be read in pieces, and what is written for them is what relocation gives. -/
theorem exists_reads (map : SourceMap) (text : List Char) : ∃ pieces, map.Reads text pieces := by
  obtain ⟨pieces, hpieces⟩ := map.exists_readsFrom (List.nil_append text).symm
  exact ⟨pieces, by simpa [Reads] using hpieces⟩

theorem Reads.result {map : SourceMap} {text : List Char} {pieces : List Piece}
    (h : map.Reads text pieces) :
    pieces.flatMap Piece.source = text ∧
      pieces.flatMap Piece.result = map.relocateChars text := by
  refine ReadsFrom.result (List.nil_append text).symm ?_
  simpa [Reads] using h

/-- Without segments no piece is replaced. -/
theorem result_eq_source {map : SourceMap} (hempty : map.segments = []) {text : List Char}
    {pieces : List Piece} (h : map.Reads text pieces) :
    pieces.flatMap Piece.result = pieces.flatMap Piece.source := by
  refine List.flatMap_congr fun piece hpiece => ?_
  cases piece with
  | kept text => rfl
  | replaced path written replacement =>
    obtain ⟨group, name, position, ⟨_, _, -, -, -, hposition⟩, -⟩ :=
      replaces_of_mem_reads h hpiece
    rw [resolve, segment?, hempty, List.find?_nil] at hposition
    cases hposition

theorem relocate_eq (map : SourceMap) (text : String) :
    map.relocate text = String.ofList (map.relocateChars text.toList) := by
  unfold relocate
  split
  · rename_i hempty
    obtain ⟨pieces, hpieces⟩ := map.exists_reads text.toList
    rw [← hpieces.result.2, result_eq_source (List.isEmpty_iff.1 hempty) hpieces,
      hpieces.result.1, String.ofList_toList]
  · rfl

/-- **Relocation, said without a loop.** Every text can be read in pieces. However it is read, the
pieces are together the whole text, and relocation writes the replaced ones anew and the others as
they are. -/
theorem relocate_reads (map : SourceMap) (text : String) :
    (∃ pieces, map.Reads text.toList pieces) ∧
      ∀ pieces, map.Reads text.toList pieces →
        pieces.flatMap Piece.source = text.toList ∧
          map.relocate text = String.ofList (pieces.flatMap Piece.result) := by
  refine ⟨map.exists_reads text.toList, fun pieces hpieces => ?_⟩
  rw [relocate_eq, hpieces.result.2]
  exact ⟨hpieces.result.1, rfl⟩

/-- A text that is one location is read in one piece, between two empty ones. -/
theorem reads_of_location {map : SourceMap} {text replacement : List Char} (stem : List Char)
    {written : WrittenLocator} (hmark : splitAtMark? marker text = some (stem, written.text))
    (hstem : ∀ c ∈ stem, isDelimiter c = false)
    (hnumbers : ∀ digits ∈ written.numbers, Text.IsNumeral digits)
    (hreplaces : map.Replaces (stem ++ generatedSuffix.toList) written replacement) :
    map.Reads text
      [.kept [], .replaced (stem ++ generatedSuffix.toList) written replacement, .kept []] := by
  have hnil : EndsWith (isDelimiter · = true) [] := by
    intro c hc
    cases hc
  have hlongest := WrittenLocator.isLongest_text hnumbers
  have hparts : Parts text [] [] stem written.text :=
    ⟨by rw [eq_of_splitAtMark? hmark]; simp, hnil, hstem⟩
  have hplaces : markerPlaces text = [stem.length] := by
    have hnone := markerPlaces_append_of_not_mem (point_not_mem_text hlongest.starts) []
    rw [List.append_nil] at hnone
    rw [markerPlaces_of_splitAtMark?_eq_some hmark, hnone]
    rfl
  have hstop : stem.length + marker.length + written.text.length = text.length := by
    rw [eq_of_splitAtMark? hmark]
    simp [Nat.add_assoc]
  have hdrop := hparts.drop_marker
  have hpath := hparts.extract_path
  have hleft := hparts.extract_left
  have hstart := hparts.isPathStart.2 rfl
  simp only [List.nil_append, List.length_nil, Nat.zero_add] at hdrop hpath hleft hstart
  have hhere := ReadsAt.resolved (hdrop ▸ hlongest) hstart (hpath ▸ hreplaces)
  rw [hpath, hleft, hstop] at hhere
  unfold Reads
  rw [hplaces]
  have hreads := ReadsFrom.next hhere (.rest text.length)
  rwa [List.drop_length] at hreads

theorem relocate_of_location (map : SourceMap) {text replacement : String} (stem : List Char)
    {written : WrittenLocator} (hmark : splitAtMark? marker text.toList = some (stem, written.text))
    (hstem : ∀ c ∈ stem, isDelimiter c = false)
    (hnumbers : ∀ digits ∈ written.numbers, Text.IsNumeral digits)
    (hreplacement : map.replacement? (stem ++ generatedSuffix.toList) written.locator =
      some replacement) :
    map.relocate text = replacement := by
  have hreads := reads_of_location stem hmark hstem hnumbers
    (replaces_of_replacement? hreplacement)
  rw [relocate_eq, ← hreads.result.2]
  simp [Piece.result]

/-- The numbers of a range's end are printed in decimal when it has no image, not as they were
written: zeros before them are lost. -/
theorem relocate_padded_end :
    let map : SourceMap := ⟨[⟨"a", "x.md.mbt", 2, 2, ⟨"x.mbt.md"⟩, 11, 0⟩], none⟩
    map.segments ≠ [] ∧ map.resolve "a" "x.md.mbt" 2 1 = some ⟨⟨"x.mbt.md"⟩, 11, 1⟩ ∧
      map.resolve "a" "x.md.mbt" 99 5 = none ∧
      map.relocate "a/x.md.mbt:2:1-099:05" = "x.mbt.md:11:1-99:5" := by
  intro map
  refine ⟨List.cons_ne_nil _ _, by decide, by decide, ?_⟩
  exact map.relocate_of_location "a/x".toList
    (show splitAtMark? marker _ = some (_, (WrittenLocator.range "2".toList "1".toList
      "099".toList "05".toList).text) from rfl) (List.all_iff_forall_prop.1 (by decide))
      (List.all_iff_forall_prop.1 (by decide)) (by decide)

end SourceMap

end LiterateCheck
