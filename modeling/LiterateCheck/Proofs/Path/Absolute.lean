import LiterateCheck.Proofs.Path.Parents
import Mathlib.Data.List.Infix

/-!
# Absolute paths

The components of an absolute path are the root and its way, `..` among them. So one absolute path
starts with another when its way does (`startsWith_iff`), and its parent goes all its way but for
the last name (`exists_parent?_iff`).

Every path but the empty one has an absolute form, which spells the working directory, if the path
starts there, and the way of the path (`exists_absolute?`).
-/

namespace LiterateCheck

theorem isAbsolute_path (location : Location) : location.path.isAbsolute = true := by
  unfold Location.path Path.isAbsolute
  rw [String.toList_append]
  rfl

namespace Path

/-! ## Ways from the root -/

section Absolute

variable {path other : Path} (habsolute : path.isAbsolute = true)

include habsolute

theorem components_of_absolute : path.components = .root :: path.way.map .ofName := by
  unfold components way
  rw [if_pos habsolute, filterMap_component?_eq]

theorem components_eq_iff (hother : other.isAbsolute = true) :
    path.components = other.components ↔ path.way = other.way := by
  rw [components_of_absolute habsolute, components_of_absolute hother, List.cons_inj_right,
    (List.map_injective_iff.2 Component.ofName_injective).eq_iff]

theorem startsWith_iff (hother : other.isAbsolute = true) :
    path.startsWith other = true ↔ other.way <+: path.way := by
  unfold startsWith
  rw [List.isPrefixOf_iff_prefix, components_of_absolute habsolute, components_of_absolute hother,
    List.prefix_cons_inj, List.prefix_map_iff_of_injective Component.ofName_injective]

theorem exists_parent? (hway : path.way ≠ []) : ∃ parent, path.parent? = some parent := by
  have hlast : path.components.getLast? =
      some (Component.ofName (path.way.getLast hway)) := by
    rw [components_of_absolute habsolute, List.getLast?_cons,
      List.getLast?_map, List.getLast?_eq_some_getLast hway]
    rfl
  unfold parent?
  rw [hlast]
  unfold Component.ofName
  split
  · rename_i heq
    cases heq
  · rename_i heq
    split at heq <;> cases heq
  · dsimp only
    split <;> exact ⟨_, rfl⟩

theorem exists_parent?_iff {names : List String} :
    (∃ parent, path.parent? = some parent ∧ parent.way = names) ↔
      ∃ name, path.way = names ++ [name] := by
  constructor
  · rintro ⟨parent, hparent, rfl⟩
    exact way_of_parent? habsolute hparent
  · rintro ⟨name, hway⟩
    obtain ⟨parent, hparent⟩ := exists_parent? habsolute (by simp [hway])
    obtain ⟨name', hway'⟩ := way_of_parent? habsolute hparent
    exact ⟨parent, hparent, (List.append_inj' (hway'.symm.trans hway) rfl).1⟩

end Absolute

/-- Only the root of an absolute path is a root, and it comes first. -/
theorem isAbsolute_iff_head? {path : Path} :
    path.isAbsolute = true ↔ path.components.head? = some .root := by
  refine ⟨fun habsolute => by rw [components_of_absolute habsolute]; rfl, fun hhead => ?_⟩
  by_contra hrelative
  have hparts (parts : List String) : (parts.filterMap component?).head? ≠ some .root := by
    rw [filterMap_component?_eq]
    intro hroot
    obtain ⟨name, -, hname⟩ := List.mem_map.1 (List.mem_of_head? hroot)
    unfold Component.ofName at hname
    split at hname <;> cases hname
  rw [components_eq_componentsOf] at hhead
  unfold componentsOf at hhead
  rw [if_neg hrelative] at hhead
  split at hhead
  · cases hhead
  · exact hparts _ hhead

theorem components_ne_nil {path : Path} (htext : path.text ≠ "") : path.components ≠ [] := by
  obtain ⟨first, rest, htext'⟩ : ∃ first rest, path.text.toList = first :: rest :=
    List.exists_cons_of_ne_nil (by simpa using htext)
  cases habsolute : path.isAbsolute with
  | true => simp [components_of_absolute habsolute]
  | false =>
    have hfirst : first ≠ '/' := by
      rintro rfl
      unfold isAbsolute at habsolute
      simp [htext'] at habsolute
    obtain ⟨part, others, hparts, hpart⟩ : ∃ part others, path.parts = part :: others ∧
        part ≠ "" := by
      unfold parts
      rw [htext', List.splitOn_cons_eq_if_modifyHead, if_neg (by simpa using hfirst)]
      obtain ⟨piece, pieces, hpieces⟩ := List.exists_cons_of_ne_nil (List.splitOn_ne_nil '/' rest)
      rw [hpieces]
      exact ⟨_, _, rfl, by simp⟩
    rw [components_eq_componentsOf, habsolute, hparts]
    by_cases hhere : part = "."
    · subst hhere
      simp [componentsOf]
    · rw [componentsOf_cons hhere, filterMap_component?_eq]
      simp [counting, hpart, hhere]
/-! ## The absolute form -/

/-- The names from the root down by which a path goes: those of the working directory first, unless
the path is absolute. -/
def spelled (cwd : Location) (path : Path) : List String :=
  (if path.isAbsolute then [] else cwd) ++ path.way

theorem spelled_of_absolute {path : Path} (habsolute : path.isAbsolute = true) (cwd : Location) :
    path.spelled cwd = path.way := by
  unfold spelled
  rw [if_pos habsolute, List.nil_append]

theorem names_path {location : Location} (hnames : ∀ name ∈ location, IsFileName name) :
    location.path.names = location := by
  cases location with
  | nil => rfl
  | cons first others =>
    have hparts : (Location.path (first :: others)).parts = "" :: first :: others := by
      have htext : Location.path (first :: others) =
          ⟨"/".intercalate ("" :: first :: others)⟩ := by
        unfold Location.path
        rw [String.intercalate_cons_cons, String.empty_append]
      rw [htext]
      refine parts_intercalate (by simp) (List.forall_mem_cons.2 ⟨by simp, ?_⟩)
      exact fun name hname => (hnames name hname).noSeparator
    unfold names
    rw [hparts, List.filter_cons_of_neg (by simp), List.filter_eq_self]
    intro name hname
    simpa using (hnames name hname).ne_empty

theorem way_path {location : Location} (hnames : ∀ name ∈ location, IsFileName name) :
    location.path.way = location := by
  change location.path.names.filter (· ≠ ".") = location
  rw [names_path hnames, List.filter_eq_self]
  intro name hname
  simpa using (hnames name hname).ne_here

theorem components_path {location : Location} (hnames : ∀ name ∈ location, IsFileName name) :
    location.path.components = .root :: location.map .name := by
  rw [components_of_absolute (isAbsolute_path location), way_path hnames]
  exact congrArg _ (List.map_congr_left fun name hname => if_neg (hnames name hname).ne_up)

/-- Besides a root or a leading `.`, the components of a path are those of its way. -/
theorem filter_components (path : Path) :
    path.components.filter (fun step => step != .here && step != .root) =
      path.way.map .ofName := by
  have hway : (path.way.map Component.ofName).filter
      (fun step => step != .here && step != .root) = path.way.map .ofName := by
    rw [List.filter_eq_self]
    intro step hstep
    obtain ⟨name, -, rfl⟩ := List.mem_map.1 hstep
    unfold Component.ofName
    split <;> rfl
  rw [components_eq_componentsOf]
  unfold componentsOf
  split
  · rw [List.filter_cons_of_neg (by decide), filterMap_component?_eq]
    exact hway
  split
  · rename_i others hparts
    have hothers : path.way = counting others := by
      unfold way counting
      rw [hparts, List.filter_cons_of_pos (by decide), List.filter_cons_of_neg (by decide)]
    rw [List.filter_cons_of_neg (by decide), filterMap_component?_eq, ← hothers]
    exact hway
  · rw [filterMap_component?_eq]
    exact hway

theorem isStep_of_mem_way {path : Path} {name : String} (h : name ∈ path.way) : IsStep name :=
  isStep_of_mem_names (List.mem_filter.1 h).1

/-- From where it starts, a path is made absolute name by name. -/
theorem goesOn_filter_components (start path : Path) :
    start.GoesOn path.way
      ((path.components.filter fun step => step != .here && step != .root).foldl
        (fun base step => base.join ⟨step.text⟩) start) := by
  rw [filter_components, List.foldl_map]
  simp only [Component.text_ofName]
  exact goesOn_under start fun name hname => isStep_of_mem_way hname

theorem way_goesOn {base path : Path} {more : List String} (h : base.GoesOn more path) :
    path.way = base.way ++ more.filter (· ≠ ".") := by
  change path.names.filter _ = base.names.filter _ ++ _
  rw [h.names_eq, List.filter_append]

/-- The absolute form of a path is spelled as the path is. -/
theorem exists_absolute? {cwd : Location} (hcwd : ∀ name ∈ cwd, IsFileName name) {path : Path}
    (hpath : path.text ≠ "") :
    ∃ whole, absolute? cwd.path path = some whole ∧ whole.isAbsolute = true ∧
      whole.way = path.spelled cwd := by
  have hnonempty : ¬path.isEmpty = true := by
    unfold isEmpty
    simpa using hpath
  -- it starts at the root, which one separator or two may stand for, or at the working directory
  obtain ⟨start, hstart, hway, heq⟩ : ∃ start : Path, start.isAbsolute = true ∧
      start.way = (if path.isAbsolute then [] else cwd) ∧
      absolute? cwd.path path =
        let whole := (path.components.filter fun step => step != .here && step != .root).foldl
          (fun base step => base.join ⟨step.text⟩) start
        if path.text.toList.getLast? == some '/' then some (whole.join ⟨""⟩) else some whole := by
    unfold absolute?
    rw [if_neg hnonempty]
    cases path.isAbsolute with
    | false => exact ⟨cwd.path, isAbsolute_path cwd, way_path hcwd, rfl⟩
    | true =>
      refine ⟨_, ?_, ?_, rfl⟩
      all_goals
        rw [if_pos rfl]
        split
        · split <;> rfl
        · rfl
  obtain ⟨whole, hwhole, hgoes⟩ : ∃ whole, absolute? cwd.path path = some whole ∧
      start.GoesOn path.way whole := by
    have hgoes := goesOn_filter_components start path
    rw [heq]
    dsimp only
    split
    · refine ⟨_, rfl, ?_⟩
      have hend := @GoesOn.join start _ ⟨""⟩ _ hgoes rfl
      rwa [show (Path.mk "").names = [] from rfl, List.append_nil] at hend
    · exact ⟨_, rfl, hgoes⟩
  have hself : path.way.filter (· ≠ ".") = path.way :=
    List.filter_eq_self.2 fun name hname => (List.mem_filter.1 hname).2
  refine ⟨whole, hwhole, hgoes.isAbsolute_eq.trans hstart, ?_⟩
  rw [way_goesOn hgoes, hway, hself]
  rfl

end Path

end LiterateCheck
