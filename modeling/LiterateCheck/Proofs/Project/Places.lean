import LiterateCheck.Project.Write
import LiterateCheck.Proofs.Directive
import LiterateCheck.Proofs.Disk.Hosting
import LiterateCheck.Proofs.Path.Components

/-!
# Where the files of a project stand

A group's directory is the one that the names of its key spell below the root, and everything
written for the group is a file directly in it (`location_of_file`). Generated files are told from
the others by their suffix.
-/

namespace LiterateCheck

/-! ## Where things are -/

/-- The names that a key leads through below the root. -/
def keyNames (key : String) : List String :=
  (Path.mk key).names.filter (· ≠ ".")

theorem groupDirectory_eq_ok_iff {root directory : Path} {key : String} :
    groupDirectory root key = .ok directory ↔ directory = root.join ⟨key⟩ ∧
      ∀ component ∈ (Path.mk key).components, ∃ text, component = .name text := by
  unfold groupDirectory
  dsimp only
  split
  · rename_i hinside
    rw [List.all_eq_true] at hinside
    have hnames : ∀ component ∈ (Path.mk key).components, ∃ text, component = .name text := by
      intro component hmem
      have hname := hinside component hmem
      cases component with
      | name text => exact ⟨text, rfl⟩
      | root | here | up => cases hname
    exact ⟨fun h => ⟨(Except.ok.inj h).symm, hnames⟩, fun h => congrArg Except.ok h.1.symm⟩
  · rename_i hinside
    rw [List.all_eq_true] at hinside
    refine iff_of_false (by simp) fun h => hinside fun component hmem => ?_
    obtain ⟨text, rfl⟩ := h.2 component hmem
    rfl

theorem groupDirectory_eq_ok {root directory : Path} {key : String}
    (h : groupDirectory root key = .ok directory) :
    directory = root.join ⟨key⟩ ∧ (Path.mk key).isAbsolute = false ∧
      ".." ∉ (Path.mk key).names ∧ (Path.mk key).components = (keyNames key).map .name := by
  obtain ⟨hdirectory, hnames⟩ := groupDirectory_eq_ok_iff.1 h
  exact ⟨hdirectory, Path.of_components_names hnames⟩

/-- Which keys stay inside the root: relative ones that do not start with a `.` and never go up. A
`.` further inside is taken. -/
theorem exists_groupDirectory_iff (root : Path) (key : String) :
    (∃ directory, groupDirectory root key = .ok directory) ↔
      (Path.mk key).isAbsolute = false ∧ (Path.mk key).parts.head? ≠ some "." ∧
        ".." ∉ (Path.mk key).parts := by
  simp only [groupDirectory_eq_ok_iff, exists_eq_left, Path.components_names_iff]

/-- The location of a file in the directory of a key. -/
def filePlace (base : Location) (key name : String) : Location :=
  base ++ keyNames key ++ [name]

/-- A generated file's name, by its suffix. -/
def IsGenerated (name : String) : Prop :=
  generatedSuffix.toList <:+ name.toList

theorem location_of_file {disk : Disk} {cwd base : Location} {root directory : Path}
    {key name : String} (hosts : disk.Hosts cwd root base)
    (hdirectory : groupDirectory root key = .ok directory) (hname : Path.IsFileName name)
    {found : Found} (hlocate : disk.locate cwd (directory.join ⟨name⟩) = .ok found) :
    found.location = filePlace base key name := by
  obtain ⟨rfl, habsolute, hup, -⟩ := groupDirectory_eq_ok hdirectory
  have hgoes := ((Path.GoesOn.refl root).join habsolute).join hname.isAbsolute
  rw [hname.names, List.nil_append] at hgoes
  have hup' : ".." ∉ (Path.mk key).names ++ [name] := by
    rw [List.mem_append, List.mem_singleton, not_or]
    exact ⟨hup, hname.ne_up.symm⟩
  rw [hosts.location_eq hgoes hup' hlocate, List.filter_append,
    List.filter_cons_of_pos (by simpa using hname.ne_here), List.filter_nil, ← List.append_assoc]
  rfl

theorem dropSuffix?_eq_some {suffix text stem : String} (h : dropSuffix? suffix text = some stem) :
    text = stem ++ suffix := by
  unfold dropSuffix? at h
  split at h
  · rename_i hsuffix
    cases h
    obtain ⟨front, hfront⟩ := List.isSuffixOf_iff_suffix.1 hsuffix
    rw [← String.toList_inj, String.toList_append, String.toList_ofList, ← hfront]
    simp
  · cases h

theorem dropSuffix?_append (stem suffix : String) :
    dropSuffix? suffix (stem ++ suffix) = some stem := by
  unfold dropSuffix?
  rw [if_pos (by simp), String.toList_append, List.length_append, Nat.add_sub_cancel,
    List.take_left, String.ofList_toList]

theorem isPlainEnd_sourceSuffix : Text.IsPlainEnd ".mbt" :=
  ⟨by decide, by decide, by decide, by decide⟩

theorem supplementaryStem?_eq_some_iff {file : Path} {stem : String} :
    supplementaryStem? file = some stem ↔
      ∃ name, file.fileName? = some name ∧ Text.shown name = stem ++ ".mbt" := by
  unfold supplementaryStem?
  rw [Option.bind_eq_some_iff]
  constructor
  · rintro ⟨text, htext, hstem⟩
    obtain ⟨name, hname, rfl⟩ := Option.map_eq_some_iff.1 htext
    exact ⟨name, hname, dropSuffix?_eq_some hstem⟩
  · rintro ⟨name, hname, hshown⟩
    exact ⟨_, Option.map_eq_some_iff.2 ⟨name, hname, hshown⟩, dropSuffix?_append stem ".mbt"⟩

theorem suffix_of_shown_eq {name stem : String} (h : Text.shown name = stem ++ ".mbt") :
    ".mbt".toList <:+ name.toList := by
  obtain ⟨own, rfl, -⟩ := isPlainEnd_sourceSuffix.shown_eq_append_iff.1 h
  rw [String.toList_append]
  exact List.suffix_append ..

theorem getD_dropSuffix?_prefix (suffix text : String) :
    ((dropSuffix? suffix text).getD text).toList <+: text.toList := by
  cases h : dropSuffix? suffix text with
  | none => exact List.prefix_refl _
  | some stem =>
    rw [Option.getD_some, dropSuffix?_eq_some h, String.toList_append]
    exact List.prefix_append ..

theorem generatedFileName_eq (document : Path) :
    ∃ stem, generatedFileName document = stem ++ generatedSuffix ∧
      stem.toList <+: ((document.fileName?.map Text.shown).getD "").toList := by
  unfold generatedFileName
  exact ⟨_, rfl, getD_dropSuffix?_prefix ..⟩

theorem isGenerated_generatedFileName (document : Path) :
    IsGenerated (generatedFileName document) := by
  obtain ⟨stem, hname, -⟩ := generatedFileName_eq document
  unfold IsGenerated
  rw [hname, String.toList_append]
  exact List.suffix_append ..

theorem isUtf8_generatedFileName (document : Path) :
    Text.isUtf8 (generatedFileName document) = true := by
  have hliterate : Text.IsPlainEnd literateSuffix := ⟨by decide, by decide, by decide, by decide⟩
  have hgenerated : Text.IsPlainEnd generatedSuffix := ⟨by decide, by decide, by decide, by decide⟩
  unfold generatedFileName
  extract_lets name
  have hname : Text.isUtf8 name = true := by
    unfold name
    cases document.fileName? with
    | none => rfl
    | some own => exact Text.isUtf8_shown own
  rw [hgenerated.isUtf8_append]
  cases hstem : dropSuffix? literateSuffix name with
  | none => exact hname
  | some stem =>
    rwa [dropSuffix?_eq_some hstem, hliterate.isUtf8_append] at hname

theorem separator_not_mem_fileName (document : Path) :
    '/' ∉ ((document.fileName?.map Text.shown).getD "").toList := by
  cases h : document.fileName? with
  | none => exact List.not_mem_nil
  | some name =>
    exact fun hmem => (Text.mem_shown hmem).elim (by decide)
      (Path.isFileName_of_fileName? h).noSeparator

theorem isFileName_generatedFileName (document : Path) :
    Path.IsFileName (generatedFileName document) := by
  obtain ⟨stem, hname, hstem⟩ := generatedFileName_eq document
  have hlength : 7 ≤ (generatedFileName document).toList.length := by
    rw [hname, String.toList_append, List.length_append]
    exact Nat.le_add_left 7 _
  have hne {short : String} (hshort : short.toList.length < 7) :
      generatedFileName document ≠ short := by
    rintro rfl
    omega
  refine ⟨hne (by decide), hne (by decide), hne (by decide), ?_⟩
  · rw [hname, String.toList_append, List.mem_append, not_or]
    exact ⟨fun hmem => separator_not_mem_fileName document (hstem.subset hmem), by decide⟩

/-- The name of a file that a project is made of: a source or a description. -/
def IsWritten (name : String) : Prop :=
  ("." ++ sourceExtension).toList <:+ name.toList ∨ ".json".toList <:+ name.toList

theorem isWritten_generatedFileName (document : Path) : IsWritten (generatedFileName document) :=
  .inl (List.IsSuffix.trans ⟨".md".toList, by decide⟩ (isGenerated_generatedFileName document))

theorem mem_generatedNames {blocks : List CodeBlock} {name : String} :
    name ∈ generatedNames blocks ↔ ∃ block ∈ blocks, generatedFileName block.source = name := by
  unfold generatedNames
  rw [mem_distinctNames, List.mem_map]

end LiterateCheck
