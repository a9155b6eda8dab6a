import LiterateCheck.Proofs.SourceMap.Diagnostics

/-!
# Reading groups back

A segment keeps the whole key of its group. In a location the group is read back from the last
directory of the path alone, so a key of several steps, or the empty key in a root that is named
like another key, can be taken for the key of another group.

1. The path of a generated file is read up to its marker, when its parts hold no delimiter and no
   marker (`Plain`), and the location is replaced by where its last two steps lead back to
   (`relocate_locationText`).
2. Written locations differ when their parts do (`locationText_inj`), and no document is shown with
   the path of a generated file.
3. So a location stays or comes home exactly when its last two steps lead to nothing that is shown
   otherwise (`relocate_generated_iff`).
-/

namespace LiterateCheck

open Run (Gives)

/-! ## Written locations -/

theorem toList_locationText (path : Path) (line column : Nat) :
    (locationText path line column).toList =
      path.text.toList ++ ':' :: locatorText line column := by
  simp [locationText, locatorText]

theorem append_cons_inj {α : Type} {a : α} {front front' back back' : List α} (hback : a ∉ back)
    (hback' : a ∉ back') (h : front ++ a :: back = front' ++ a :: back') :
    front = front' ∧ back = back' := by
  rcases List.append_eq_append_iff.1 h with ⟨middle, rfl, hmiddle⟩ | ⟨middle, rfl, hmiddle⟩
  · cases middle with
    | nil => exact ⟨(List.append_nil _).symm, (List.cons.inj hmiddle).2⟩
    | cons b middle =>
      obtain ⟨rfl, rfl⟩ := List.cons.inj hmiddle
      exact absurd (List.mem_append_right _ (List.mem_cons_self ..)) hback
  · cases middle with
    | nil => exact ⟨List.append_nil _, (List.cons.inj hmiddle).2.symm⟩
    | cons b middle =>
      obtain ⟨rfl, rfl⟩ := List.cons.inj hmiddle
      exact absurd (List.mem_append_right _ (List.mem_cons_self ..)) hback'

theorem colon_not_mem_toString (n : Nat) : ':' ∉ (toString n).toList := fun h =>
  absurd (Text.isDigit_of_mem_toString h) (by decide)

theorem locationText_inj {path path' : Path} {line line' column column' : Nat} :
    locationText path line column = locationText path' line' column' ↔
      path = path' ∧ line = line' ∧ column = column' := by
  have hnumber {n n' : Nat} (h : (toString n).toList = (toString n').toList) : n = n' := by
    rw [← Text.digitsValue_toString n, h, Text.digitsValue_toString]
  constructor
  · intro h
    have hlist := congrArg String.toList h
    rw [toList_locationText, toList_locationText] at hlist
    unfold locatorText at hlist
    rw [← List.cons_append, ← List.cons_append, ← List.append_assoc, ← List.append_assoc] at hlist
    obtain ⟨hfront, hcolumn⟩ := append_cons_inj (colon_not_mem_toString column)
      (colon_not_mem_toString column') hlist
    obtain ⟨hpath, hline⟩ := append_cons_inj (colon_not_mem_toString line)
      (colon_not_mem_toString line') hfront
    obtain ⟨text⟩ := path
    obtain ⟨text'⟩ := path'
    exact ⟨congrArg Path.mk (String.toList_inj.1 hpath), hnumber hline, hnumber hcolumn⟩
  · rintro ⟨rfl, rfl, rfl⟩
    rfl

/-! ## Plain texts -/

namespace SourceMap

/-- A text in which no path is cut off and no location is announced. -/
structure Plain (text : List Char) : Prop where
  delimiter : ∀ c ∈ text, isDelimiter c = false
  marker : ¬ marker <:+: text

instance (text : List Char) : Decidable (Plain text) :=
  decidable_of_iff (text.all (!isDelimiter ·) = true ∧ ¬ SourceMap.marker <:+: text)
    ⟨fun h => ⟨by simpa using h.1, h.2⟩, fun h => ⟨by simpa using h.delimiter, h.marker⟩⟩

theorem Plain.mono {front text : List Char} (h : Plain text) (hfront : front <+: text) :
    Plain front where
  delimiter c hc := h.delimiter c (hfront.subset hc)
  marker hmarker := h.marker (hmarker.trans hfront.isInfix)

theorem Plain.append_separator {front back : List Char} (hfront : Plain front)
    (hback : Plain back) : Plain (front ++ '/' :: back) where
  delimiter c hc := by
    rw [List.mem_append, List.mem_cons] at hc
    rcases hc with hc | rfl | hc
    · exact hfront.delimiter c hc
    · decide
    · exact hback.delimiter c hc
  marker := not_infix_append_cons (by decide) hfront.marker hback.marker

theorem Plain.join {base path : Path} (hbase : Plain base.text.toList) (hne : base.text ≠ "")
    (hpath : Plain path.text.toList) (hrelative : path.isAbsolute = false) :
    Plain (base.join path).text.toList := by
  obtain ⟨front, hjoin, hfront⟩ := Path.toList_join hne hrelative
  have hprefix : front <+: base.text.toList := by
    rcases hfront with rfl | hfront
    · exact List.prefix_refl _
    · rw [hfront]
      exact List.prefix_append ..
  rw [hjoin]
  exact (hbase.mono hprefix).append_separator hpath

theorem Plain.shown {name : String} (h : Plain name.toList) : Plain (Text.shown name).toList where
  delimiter c hc := by
    rcases Text.mem_shown hc with rfl | hc
    · decide
    · exact h.delimiter c hc
  marker hmarker := h.marker (Text.infix_of_infix_shown (by decide) hmarker)

theorem plain_generatedFileName {document : Path}
    (h : Plain (document.fileName?.getD "").toList) :
    Plain (generatedFileName document).toList := by
  obtain ⟨stem, hname, hstem⟩ := generatedFileName_eq document
  have hshown : Plain ((document.fileName?.map Text.shown).getD "").toList := by
    cases hown : document.fileName? with
    | none => decide
    | some own =>
      rw [hown] at h
      exact h.shown
  have hplain := hshown.mono hstem
  rw [hname, String.toList_append]
  refine ⟨fun c hc => ?_, ?_⟩
  · have hsuffix : ∀ c ∈ generatedSuffix.toList, isDelimiter c = false :=
      List.all_iff_forall_prop.1 (by decide)
    rcases List.mem_append.1 hc with hc | hc
    · exact hplain.delimiter c hc
    · exact hsuffix c hc
  · exact not_infix_append_of_not_mem (by decide) hplain.marker

/-! ## Where a path leads back to -/

/-- Where a line and column stand in the document, for the group and file that the last two steps
of a path name. -/
def readBack (map : SourceMap) (path : List Char) (line column : Nat) : Option Position :=
  map.resolve (map.groupOf (pathEnd path).1 (pathEnd path).2 line) (pathEnd path).2 line column

theorem relocated_eq_readBack (map : SourceMap) (path : List Char) (line column : Nat) :
    map.relocated path line column =
      match map.readBack path line column with
      | some position => position.text.toList
      | none => path ++ ':' :: locatorText line column :=
  relocated_eq map rfl line column

/-- A location with a plain path is replaced by where its path leads back to. -/
theorem relocate_locationText (map : SourceMap) {path : Path} (hpath : Plain path.text.toList)
    (hsuffix : generatedSuffix.toList <:+ path.text.toList) {line column : Nat}
    (hline : line ≤ Text.maxNumber) (hcolumn : column ≤ Text.maxNumber) :
    map.relocate (locationText path line column) =
      match map.readBack path.text.toList line column with
      | some position => position.text
      | none => locationText path line column := by
  have hstart : map.relocateChars (locationText path line column).toList =
      map.relocated path.text.toList line column := by
    have hparted := map.relocateChars_append (show EndsWith _ [] by decide) hpath.delimiter
      hsuffix (show ¬ marker <:+: [] by decide) hpath.marker hline hcolumn
      (show Text.NoDigitAhead [] by decide) (show [].head? ≠ some '-' by decide)
    have hend : map.relocateChars [] = [] := by
      rw [relocateChars]
      rfl
    rw [List.append_nil, hend, List.append_nil] at hparted
    rw [toList_locationText]
    exact hparted
  have hchars : map.relocate (locationText path line column) =
      String.ofList (map.relocated path.text.toList line column) := by
    unfold relocate
    split
    · rename_i hempty
      have hnone : map.readBack path.text.toList line column = none := by
        unfold readBack resolve segment?
        rw [List.isEmpty_iff.1 hempty]
        rfl
      rw [relocated_eq_readBack, hnone]
      dsimp only
      rw [← toList_locationText, String.ofList_toList]
    · rw [hstart]
  rw [hchars, relocated_eq_readBack]
  cases map.readBack path.text.toList line column with
  | some position => exact String.ofList_toList
  | none =>
    dsimp only
    rw [← toList_locationText, String.ofList_toList]

/-- The file name that is read back from a path is not longer than the path's own. -/
theorem length_pathEnd_le (front name : List Char) :
    (pathEnd (front ++ '/' :: name)).2.toList.length ≤ name.length := by
  let slashed := fun c => if c == '\\' then '/' else c
  have hsplit : ((front ++ '/' :: name).map slashed).splitOn '/' =
      (front.map slashed).splitOn '/' ++ (name.map slashed).splitOn '/' := by
    rw [List.map_append, List.map_cons]
    exact List.splitOn_append_cons_self ..
  have hne := List.splitOn_ne_nil '/' (name.map slashed)
  have hlast := Text.length_le_of_mem_splitOn (List.getLast_mem hne)
  rw [List.length_map] at hlast
  show (String.ofList ((((front ++ '/' :: name).map slashed).splitOn '/').getLast?.getD
    [])).toList.length ≤ _
  rw [String.toList_ofList, hsplit, List.getLast?_append, List.getLast?_eq_some_getLast hne]
  exact hlast

/-- Every segment leads to a document that gives its name to the segment's file. -/
theorem fileName_eq_of_mem_segments {table : GroupTable} {segment : Segment}
    (h : segment ∈ table.segments) : segment.fileName = generatedFileName segment.source := by
  obtain ⟨key, -, hkey⟩ := List.mem_flatMap.1 h
  obtain ⟨chunk, hchunk, hsegment⟩ := List.mem_filterMap.1 hkey
  obtain ⟨block, -, hblock⟩ : ∃ block ∈ table.effective key,
      (generatedFileName block.source, block) = (chunk.fileName, chunk.block) := by
    rw [← List.mem_map, ← map_layOut Prod.mk (fun _ => 0)]
    exact List.mem_map_of_mem hchunk
  obtain ⟨hname, rfl⟩ := Prod.mk.inj hblock
  obtain ⟨span, -, rfl⟩ := Option.map_eq_some_iff.1 hsegment
  exact hname.symm

theorem generatedFileName_of_resolve {table : GroupTable} {rootName? : Option String}
    {group fileName : String} {line column : Nat} {position : Position}
    (h : resolve ⟨table.segments, rootName?⟩ group fileName line column = some position) :
    generatedFileName position.document = fileName := by
  obtain ⟨segment, hsegment, rfl⟩ := Option.map_eq_some_iff.1 h
  have hmem := fileName_eq_of_mem_segments (List.mem_of_find?_eq_some hsegment)
  have hholds := List.find?_some hsegment
  rw [contains_eq_true_iff] at hholds
  rw [← hholds.2.1, hmem]

theorem map_shown_fileName? {path : Path} {front : List Char} {name : String}
    (h : path.shown.toList = front ++ '/' :: name.toList) (hname : Path.IsFileName name) :
    path.fileName?.map Text.shown = some name := by
  have hseparator {text : String} (hmem : '/' ∈ (Text.shown text).toList) : '/' ∈ text.toList :=
    (Text.mem_shown hmem).resolve_left (by decide)
  obtain ⟨back, above, htext, hback⟩ := List.eq_append_cons_of_mem
    (List.mem_reverse.2 (hseparator (h ▸ by simp : '/' ∈ path.shown.toList)))
  -- the path, parted at its last separator
  obtain ⟨upper, own, hpath, hown⟩ : ∃ upper own : String,
      path.text = upper ++ "/" ++ own ∧ '/' ∉ own.toList := by
    refine ⟨String.ofList above.reverse, String.ofList back.reverse, ?_, by simpa using hback⟩
    rw [← String.toList_inj, ← List.reverse_inj, htext]
    simp
  have hshown : Text.shown own = name := by
    unfold Path.shown at h
    rw [hpath, Text.shown_append_separator, String.toList_append, String.toList_append,
      show "/".toList = ['/'] from rfl, List.append_assoc, List.singleton_append] at h
    exact String.toList_inj.1
      (append_cons_inj (fun hmem => hown (hseparator hmem)) hname.noSeparator h).2
  have hfileName : Path.IsFileName own := by
    refine ⟨?_, ?_, ?_, hown⟩ <;> rintro rfl
    · exact hname.ne_empty hshown.symm
    · exact hname.ne_here hshown.symm
    · exact hname.ne_up hshown.symm
  have hlist : path.text.toList = upper.toList ++ '/' :: own.toList := by
    rw [hpath]
    simp
  rw [Path.fileName?_of_toList hlist hfileName, Option.map_some, hshown]

/-- A generated file is no document: the file that it would give its name to has a longer one. -/
theorem generatedFileName_of_isGenerated {document : Path} {name : String}
    (hfile : document.fileName?.map Text.shown = some name) (hname : IsGenerated name) :
    generatedFileName document = name ++ generatedSuffix := by
  have hdrop : dropSuffix? literateSuffix name = none := by
    cases hstem : dropSuffix? literateSuffix name with
    | none => rfl
    | some stem =>
      obtain ⟨front, hfront⟩ := hname
      rw [dropSuffix?_eq_some hstem, String.toList_append] at hfront
      have hlast := congrArg List.getLast? hfront
      rw [List.getLast?_append, List.getLast?_append,
        show generatedSuffix.toList.getLast? = some 't' by decide,
        show literateSuffix.toList.getLast? = some 'd' by decide] at hlast
      exact absurd (Option.some.inj hlast) (by decide)
  unfold generatedFileName
  rw [hfile]
  dsimp only [Option.getD_some]
  rw [hdrop]
  rfl

/-- No path of a generated file leads back to a document that is shown like it. -/
theorem document_ne_of_readBack {table : GroupTable} {rootName? : Option String} {path : Path}
    {front : List Char} {name : String} (hpath : path.text.toList = front ++ '/' :: name.toList)
    (hname : Path.IsFileName name) (hgenerated : IsGenerated name) {line column : Nat}
    {position : Position}
    (h : readBack ⟨table.segments, rootName?⟩ path.text.toList line column = some position) :
    position.document.shown ≠ path.text := by
  intro hsame
  have hlong : generatedFileName position.document = name ++ generatedSuffix :=
    generatedFileName_of_isGenerated (map_shown_fileName? (hsame ▸ hpath) hname) hgenerated
  rw [generatedFileName_of_resolve h] at hlong
  have hshort := length_pathEnd_le front name.toList
  rw [← hpath, hlong, String.toList_append, List.length_append] at hshort
  have hsuffix : generatedSuffix.toList.length = 7 := by decide
  omega

end SourceMap

variable {cwd : Location} {root canonical : Path} {table : GroupTable} {options : ProjectOptions}
  {before after : World} {tree : ProjectTree}

theorem canonical_ne_empty {disk : Disk} (h : disk.canonical? cwd root = some canonical) :
    canonical.text ≠ "" := by
  intro hempty
  have habsolute := Disk.isAbsolute_of_canonical? h
  unfold Path.isAbsolute at habsolute
  rw [hempty] at habsolute
  cases habsolute

/-- **When a location comes home or stays.** The location of a line of a generated file, under the
root without links, stays as it is or is replaced by its own position in the document, exactly
when the last two steps of its path lead back to no position that is shown otherwise. -/
theorem relocate_generated_iff
    (h : Gives (writeProject cwd table root options) before tree after)
    (hcanonical : before.disk.canonical? cwd root = some canonical)
    (hroot : SourceMap.Plain canonical.text.toList)
    {key name : String} (hkey : key ∈ table.keys) (hplain : SourceMap.Plain key.toList)
    (hdocuments : ∀ block ∈ table.effective key,
      SourceMap.Plain (block.source.fileName?.getD "").toList)
    (hname : name ∈ generatedNames (table.effective key)) {path : Path}
    (hpath : path = (canonical.join ⟨key⟩).join ⟨name⟩) {line column : Nat}
    (hline : line ≤ Text.maxNumber) (hcolumn : column ≤ Text.maxNumber) :
    (tree.sourceMap.relocate (locationText path line column) = locationText path line column ∨
      ∃ position, tree.sourceMap.resolve key name line column = some position ∧
        tree.sourceMap.relocate (locationText path line column) = position.text) ↔
    ∀ position, tree.sourceMap.readBack path.text.toList line column = some position →
      ∃ own, tree.sourceMap.resolve key name line column = some own ∧
        own.text = position.text := by
  obtain ⟨block, hblock, rfl⟩ := mem_generatedNames.1 hname
  have hfileName := isFileName_generatedFileName block.source
  have hgenerated := isGenerated_generatedFileName block.source
  -- the path is plain and ends in the file's name
  have hrelative : (Path.mk key).isAbsolute = false :=
    (groupDirectory_eq_ok (groupDirectory_of_writeProject h hkey)).2.1
  have hdirectory : (canonical.join ⟨key⟩).text ≠ "" :=
    Path.text_join_ne_empty (canonical_ne_empty hcanonical) hrelative
  obtain ⟨front, hfront, -⟩ := Path.toList_join hdirectory hfileName.isAbsolute
  have hplainPath : SourceMap.Plain path.text.toList := by
    rw [hpath]
    exact (hroot.join (canonical_ne_empty hcanonical) hplain hrelative).join hdirectory
      (SourceMap.plain_generatedFileName (hdocuments block hblock)) hfileName.isAbsolute
  rw [← hpath] at hfront
  have hsuffix : generatedSuffix.toList <:+ path.text.toList := by
    rw [hfront]
    exact List.IsSuffix.trans hgenerated ((List.suffix_cons ..).trans (List.suffix_append ..))
  have hrelocate := SourceMap.relocate_locationText tree.sourceMap hplainPath hsuffix hline hcolumn
  obtain ⟨groups, written, -, -, rfl⟩ := gives_writeProject.1 h
  cases hback : SourceMap.readBack ⟨table.segments, outputName? before.disk cwd root⟩
      path.text.toList line column with
  | none =>
    rw [hback] at hrelocate
    constructor
    · intro _ position hposition
      cases hposition
    · intro _
      exact .inl hrelocate
  | some found =>
    rw [hback] at hrelocate
    constructor
    · rintro (hsame | ⟨position, hposition, htext⟩) other hother
      · have hdocument := (locationText_inj.1 (hrelocate.symm.trans hsame)).1
        exact absurd (congrArg Path.text hdocument)
          (SourceMap.document_ne_of_readBack hfront hfileName hgenerated hback)
      · obtain rfl := Option.some.inj hother
        exact ⟨position, hposition, htext.symm.trans hrelocate⟩
    · intro hall
      obtain ⟨own, hown, htext⟩ := hall found rfl
      exact .inr ⟨own, hown, hrelocate.trans htext.symm⟩

/-- The outer group's key is read back whole, so its lines come home. -/
theorem relocate_generated_outer : ∃ tree after,
    Gives (writeProject [] nestedTable ⟨"/"⟩ .default) ⟨.empty, []⟩ tree after ∧
      (tree.sourceMap.relocate (locationText ⟨"/a/x.md.mbt"⟩ 2 1) =
          locationText ⟨"/a/x.md.mbt"⟩ 2 1 ∨
        ∃ position, tree.sourceMap.resolve "a" "x.md.mbt" 2 1 = some position ∧
          tree.sourceMap.relocate (locationText ⟨"/a/x.md.mbt"⟩ 2 1) = position.text) := by
  obtain ⟨groups, after, h⟩ := gives_writeProject_nestedTable
  have hcanonical := Disk.empty.canonical?_root []
  have hdocuments : ∀ block ∈ nestedTable.effective "a",
      SourceMap.Plain (block.source.fileName?.getD "").toList := by decide +kernel
  have hpath : Path.mk "/a/x.md.mbt" = ((Path.mk "/").join ⟨"a"⟩).join ⟨"x.md.mbt"⟩ := by decide
  have hback : SourceMap.readBack ⟨nestedTable.segments, none⟩ "/a/x.md.mbt".toList 2 1 =
      some ⟨⟨"x.mbt.md"⟩, 11, 1⟩ := by decide
  have hown : SourceMap.resolve ⟨nestedTable.segments, none⟩ "a" "x.md.mbt" 2 1 =
      some ⟨⟨"x.mbt.md"⟩, 11, 1⟩ := by decide
  refine ⟨_, after, h, (relocate_generated_iff h hcanonical (by decide +kernel)
    (show "a" ∈ nestedTable.keys by decide) (by decide +kernel) hdocuments (by decide) hpath
    (by decide) (by decide)).2 fun position hposition => ⟨_, hown, ?_⟩⟩
  rw [Option.some.inj (hback.symm.trans hposition)]

/-- The inner group's key ends like the outer's, and its lines are taken for the outer group's. -/
theorem relocate_generated_inner : ∃ tree after,
    Gives (writeProject [] nestedTable ⟨"/"⟩ .default) ⟨.empty, []⟩ tree after ∧
      Disk.empty.LeadsToEmpty [] ⟨"/"⟩ ∧ "a/a" ∈ nestedTable.keys ∧
      "x.md.mbt" ∈ generatedNames (nestedTable.effective "a/a") ∧
      tree.sourceMap.resolve "a/a" "x.md.mbt" 2 1 = some ⟨⟨"x.mbt.md"⟩, 21, 1⟩ ∧
      tree.sourceMap.relocate "/a/a/x.md.mbt:2:1" = "x.mbt.md:11:1" := by
  obtain ⟨groups, after, h⟩ := gives_writeProject_nestedTable
  have hown : SourceMap.resolve ⟨nestedTable.segments, none⟩ "a/a" "x.md.mbt" 2 1 =
      some ⟨⟨"x.mbt.md"⟩, 21, 1⟩ := by decide
  refine ⟨_, after, h, leadsToEmpty_empty, by decide, by decide, hown, ?_⟩
  have hback : SourceMap.readBack ⟨nestedTable.segments, none⟩ "/a/a/x.md.mbt".toList 2 1 =
      some ⟨⟨"x.mbt.md"⟩, 11, 1⟩ := by decide
  have hrelocate := SourceMap.relocate_locationText ⟨nestedTable.segments, none⟩
    (show SourceMap.Plain (Path.mk "/a/a/x.md.mbt").text.toList by decide +kernel) (by decide)
    (show 2 ≤ Text.maxNumber by decide) (show 1 ≤ Text.maxNumber by decide)
  rw [hback] at hrelocate
  rw [show "/a/a/x.md.mbt:2:1" = locationText ⟨"/a/a/x.md.mbt"⟩ 2 1 by decide]
  exact hrelocate.trans (by decide)

end LiterateCheck
