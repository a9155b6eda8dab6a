import LiterateCheck.Proofs.Path.Joining

/-!
# Components of a path

Only the first part of a path can stand for a `.` among its components, and empty parts for none. So
a name that is joined to a path is one component more (`components_join`), and names one below the
other lead to a path of their own (`under_inj`). A path has names only as components when it is
relative, does not start with a `.` and never goes up (`components_names_iff`).
-/

namespace LiterateCheck

/-- The component that a name stands for. -/
def Component.ofName (name : String) : Component :=
  if name = ".." then .up else .name name

theorem Component.text_ofName (name : String) : (ofName name).text = name := by
  unfold ofName
  split
  · rename_i hup
    exact hup.symm
  · rfl

theorem Component.ofName_injective : Function.Injective ofName :=
  Function.LeftInverse.injective text_ofName

theorem Component.name_injective : Function.Injective name :=
  fun _ _ h => name.inj h

namespace Path

/-! ## Parts and components -/

theorem component?_eq_some_name {part text : String} (h : component? part = some (.name text)) :
    part = text ∧ text ≠ "" ∧ text ≠ "." ∧ text ≠ ".." := by
  unfold component? at h
  split at h
  · cases h
  rename_i hidle
  split at h
  · cases h
  rename_i hup
  cases h
  exact ⟨rfl, fun h => hidle (.inl h), fun h => hidle (.inr h), hup⟩

theorem IsFileName.component? {name : String} (h : IsFileName name) :
    component? name = some (.name name) := by
  unfold Path.component?
  rw [if_neg (not_or.2 ⟨h.ne_empty, h.ne_here⟩), if_neg h.ne_up]

theorem isFileName_of_mem_components {path : Path} {name : String}
    (h : Component.name name ∈ path.components) : IsFileName name := by
  have hparts : ∃ part ∈ path.parts, component? part = some (.name name) := by
    unfold components at h
    split at h
    · rcases List.mem_cons.1 h with h | h
      · cases h
      · exact List.mem_filterMap.1 h
    split at h
    · rename_i others heq
      rcases List.mem_cons.1 h with h | h
      · cases h
      · obtain ⟨part, hmem, hpart⟩ := List.mem_filterMap.1 h
        exact ⟨part, heq ▸ List.mem_cons_of_mem _ hmem, hpart⟩
    · exact List.mem_filterMap.1 h
  obtain ⟨part, hmem, hpart⟩ := hparts
  obtain ⟨rfl, hempty, hhere, hup⟩ := component?_eq_some_name hpart
  exact ⟨hempty, hhere, hup, separator_not_mem_of_mem_parts hmem⟩

theorem isFileName_of_fileName? {path : Path} {name : String} (h : path.fileName? = some name) :
    IsFileName name := by
  unfold fileName? at h
  split at h
  · rename_i text hlast
    cases h
    exact isFileName_of_mem_components (List.mem_of_getLast? hlast)
  · cases h

/-- The components that the parts of a path stand for. -/
def componentsOf (absolute : Bool) (parts : List String) : List Component :=
  if absolute then .root :: parts.filterMap component?
  else
    match parts with
    | "." :: others => .here :: others.filterMap component?
    | parts => parts.filterMap component?

theorem components_eq_componentsOf (path : Path) :
    path.components = componentsOf path.isAbsolute path.parts := rfl

theorem componentsOf_cons {first : String} (hfirst : first ≠ ".") (others : List String) :
    componentsOf false (first :: others) = (first :: others).filterMap component? := by
  unfold componentsOf
  rw [if_neg Bool.false_ne_true]
  split
  · rename_i heq
    exact absurd (List.cons.inj heq).1 hfirst
  · rfl

theorem componentsOf_append (absolute : Bool) {front : List String} (hfront : front ≠ [])
    (back : List String) :
    componentsOf absolute (front ++ back) =
      componentsOf absolute front ++ back.filterMap component? := by
  obtain ⟨first, others, rfl⟩ := List.exists_cons_of_ne_nil hfront
  cases absolute with
  | true => exact congrArg (Component.root :: ·) List.filterMap_append
  | false =>
    by_cases hfirst : first = "."
    · subst hfirst
      exact congrArg (Component.here :: ·) List.filterMap_append
    · rw [List.cons_append, componentsOf_cons hfirst, componentsOf_cons hfirst,
        ← List.cons_append, List.filterMap_append]

theorem map_splitOn_ne_nil (text : List Char) : (text.splitOn '/').map String.ofList ≠ [] := by
  rw [ne_eq, List.map_eq_nil_iff]
  exact List.splitOn_ne_nil '/' text

/-! ## Paths of names only -/

theorem components_of_relative {path : Path} (habsolute : path.isAbsolute = false)
    (hhead : path.parts.head? ≠ some ".") : path.components = path.parts.filterMap component? := by
  obtain ⟨first, others, hparts⟩ : ∃ first others, path.parts = first :: others :=
    List.exists_cons_of_ne_nil (map_splitOn_ne_nil path.text.toList)
  have hfirst : first ≠ "." := by
    rintro rfl
    rw [hparts] at hhead
    exact hhead rfl
  rw [components_eq_componentsOf, habsolute, hparts, componentsOf_cons hfirst]

theorem filterMap_component?_names_iff {parts : List String} :
    (∀ component ∈ parts.filterMap component?, ∃ text, component = .name text) ↔
      ".." ∉ parts := by
  constructor
  · intro h hmem
    obtain ⟨text, htext⟩ := h .up (List.mem_filterMap.2 ⟨"..", hmem, rfl⟩)
    cases htext
  · intro hup component hmem
    obtain ⟨part, hpart, hcomponent⟩ := List.mem_filterMap.1 hmem
    unfold component? at hcomponent
    split at hcomponent
    · cases hcomponent
    split at hcomponent
    · rename_i hdots
      exact absurd (hdots ▸ hpart) hup
    · exact ⟨part, (Option.some.inj hcomponent).symm⟩

/-- A path has names only as components when it is relative, does not start with a `.` and never
goes up. -/
theorem components_names_iff {path : Path} :
    (∀ component ∈ path.components, ∃ text, component = .name text) ↔
      path.isAbsolute = false ∧ path.parts.head? ≠ some "." ∧ ".." ∉ path.parts := by
  -- a component that is no name stands at the head of the others
  have hnot {first : Component} {others : List Component} (hfirst : ∀ text, first ≠ .name text)
      (h : ∀ component ∈ first :: others, ∃ text, component = .name text) : False := by
    obtain ⟨text, htext⟩ := h first (List.mem_cons_self ..)
    exact hfirst text htext
  cases habsolute : path.isAbsolute with
  | true =>
    refine iff_of_false (fun h => ?_) (by simp)
    rw [components_eq_componentsOf, habsolute] at h
    exact hnot (fun _ => by simp) h
  | false =>
    by_cases hhead : path.parts.head? = some "."
    · refine iff_of_false (fun h => ?_) (fun h => h.2.1 hhead)
      obtain ⟨others, hparts⟩ := List.head?_eq_some_iff.1 hhead
      rw [components_eq_componentsOf, habsolute, hparts] at h
      exact hnot (fun _ => by simp) h
    · rw [components_of_relative habsolute hhead, filterMap_component?_names_iff]
      simp [hhead]

/-- The parts that count: neither empty ones nor a `.`. -/
def counting (parts : List String) : List String :=
  (parts.filter fun part => !part.isEmpty).filter (· ≠ ".")

/-- The names of a path without the `.` among them. -/
def way (path : Path) : List String :=
  counting path.parts

theorem counting_append (front back : List String) :
    counting (front ++ back) = counting front ++ counting back := by
  unfold counting
  rw [List.filter_append, List.filter_append]

/-- The parts that count stand for one component each. -/
theorem filterMap_component?_eq (parts : List String) :
    parts.filterMap component? = (counting parts).map .ofName := by
  unfold counting
  induction parts with
  | nil => rfl
  | cons part others ih =>
    by_cases hidle : part = "" ∨ part = "."
    · have hnone : component? part = none := if_pos hidle
      rw [List.filterMap_cons_none hnone, ih]
      rcases hidle with rfl | rfl <;> simp
    · have hsome : component? part = some (.ofName part) := by
        unfold component? Component.ofName
        rw [if_neg hidle]
        split <;> rfl
      rw [not_or] at hidle
      rw [List.filterMap_cons_some hsome, ih,
        List.filter_cons_of_pos (by simpa using hidle.1),
        List.filter_cons_of_pos (by simpa using hidle.2), List.map_cons]

theorem filterMap_component?_of_not_up {parts : List String} (h : ".." ∉ parts) :
    parts.filterMap component? = (counting parts).map .name := by
  rw [filterMap_component?_eq]
  refine List.map_congr_left fun part hpart => if_neg ?_
  rintro rfl
  exact h (List.mem_filter.1 (List.mem_filter.1 hpart).1).1

/-- A path all of whose components are names is relative, never goes up, and its components are its
names without the `.` among them. -/
theorem of_components_names {path : Path}
    (h : ∀ component ∈ path.components, ∃ text, component = .name text) :
    path.isAbsolute = false ∧ ".." ∉ path.names ∧
      path.components = (path.names.filter (· ≠ ".")).map .name := by
  obtain ⟨habsolute, hhead, hup⟩ := components_names_iff.1 h
  refine ⟨habsolute, fun hmem => hup (List.mem_filter.1 hmem).1, ?_⟩
  rw [components_of_relative habsolute hhead, filterMap_component?_of_not_up hup]
  rfl

/-! ## The last component -/

theorem parts_of_toList {path : Path} {front : List Char} {name : String}
    (h : path.text.toList = front ++ '/' :: name.toList) (hname : '/' ∉ name.toList) :
    path.parts = (front.splitOn '/').map String.ofList ++ [name] := by
  unfold parts
  rw [h, List.splitOn_append_cons_self, List.splitOn_eq_singleton hname, List.map_append,
    List.map_singleton, String.ofList_toList]

theorem fileName?_of_toList {path : Path} {front : List Char} {name : String}
    (h : path.text.toList = front ++ '/' :: name.toList) (hname : IsFileName name) :
    path.fileName? = some name := by
  unfold fileName?
  rw [components_eq_componentsOf, parts_of_toList h hname.noSeparator,
    componentsOf_append _ (map_splitOn_ne_nil front),
    List.filterMap_cons_some hname.component?, List.filterMap_nil, List.getLast?_concat]

theorem components_join (base : Path) {name : String} (hname : IsFileName name) :
    (base.join ⟨name⟩).components = base.components ++ [.name name] := by
  have hlast : [name].filterMap Path.component? = [.name name] := by
    rw [List.filterMap_cons_some hname.component?, List.filterMap_nil]
  by_cases hbase : base.text = ""
  · obtain rfl : base = ⟨""⟩ := congrArg Path.mk hbase
    have hparts : (Path.mk name).parts = [name] := by
      unfold parts
      rw [List.splitOn_eq_singleton hname.noSeparator, List.map_singleton, String.ofList_toList]
    have hjoin : (Path.mk "").join ⟨name⟩ = ⟨name⟩ := by
      unfold join
      rw [hname.isAbsolute, if_neg Bool.false_ne_true, if_pos (by decide), String.empty_append]
    rw [hjoin, components_eq_componentsOf, hname.isAbsolute, hparts,
      componentsOf_cons hname.ne_here, hlast]
    rfl
  · obtain ⟨front, hfront, hor⟩ := toList_join hbase hname.isAbsolute
    rw [components_eq_componentsOf, isAbsolute_join base hname.isAbsolute,
      parts_of_toList hfront hname.noSeparator, componentsOf_append _ (map_splitOn_ne_nil front),
      hlast, components_eq_componentsOf base]
    -- a separator at the end of the base adds an empty part, which is no component
    congr 1
    rcases hor with rfl | hend
    · rfl
    · rw [parts_of_toList (show base.text.toList = front ++ '/' :: "".toList from hend)
        (by simp), componentsOf_append _ (map_splitOn_ne_nil front)]
      exact (List.append_nil _).symm

/-! ## Names one after the other -/

/-- The path of names one below the other. -/
def under (base : Path) (names : List String) : Path :=
  names.foldl (fun path name => path.join ⟨name⟩) base

theorem under_cons (base : Path) (name : String) (names : List String) :
    base.under (name :: names) = (base.join ⟨name⟩).under names := rfl

theorem under_append (base : Path) (front back : List String) :
    base.under (front ++ back) = (base.under front).under back :=
  List.foldl_append

theorem under_concat (base : Path) (names : List String) (name : String) :
    base.under (names ++ [name]) = (base.under names).join ⟨name⟩ :=
  under_append base names [name]

theorem goesOn_under (base : Path) {names : List String} (hnames : ∀ name ∈ names, IsStep name) :
    base.GoesOn names (base.under names) := by
  induction names generalizing base with
  | nil => exact .refl base
  | cons name others ih =>
    obtain ⟨hname, hothers⟩ := List.forall_mem_cons.1 hnames
    have hjoin := (GoesOn.refl base).join hname.isAbsolute
    obtain ⟨habsolute, hmore⟩ := ih (base.join ⟨name⟩) hothers
    refine ⟨habsolute.trans hjoin.isAbsolute_eq, ?_⟩
    rw [under_cons, hmore, hjoin.names_eq, hname.names, List.nil_append, List.append_assoc,
      List.singleton_append]

theorem text_under_ne_empty {base : Path} (hbase : base.text ≠ "") {names : List String}
    (hnames : ∀ name ∈ names, IsFileName name) : (base.under names).text ≠ "" := by
  induction names generalizing base with
  | nil => exact hbase
  | cons name others ih =>
    obtain ⟨hname, hothers⟩ := List.forall_mem_cons.1 hnames
    exact ih (text_join_ne_empty hbase hname.isAbsolute) hothers

theorem components_under (base : Path) {names : List String}
    (hnames : ∀ name ∈ names, IsFileName name) :
    (base.under names).components = base.components ++ names.map .name := by
  induction names generalizing base with
  | nil => exact (List.append_nil _).symm
  | cons name others ih =>
    obtain ⟨hname, hothers⟩ := List.forall_mem_cons.1 hnames
    rw [under_cons, ih _ hothers, components_join base hname, List.append_assoc, List.map_cons]
    rfl

theorem under_inj {base : Path} {names names' : List String}
    (hnames : ∀ name ∈ names, IsFileName name) (hnames' : ∀ name ∈ names', IsFileName name)
    (h : (base.under names).components = (base.under names').components) : names = names' := by
  rw [components_under base hnames, components_under base hnames', List.append_cancel_left_eq] at h
  exact List.map_inj_right (fun _ _ hab => Component.name_injective hab) |>.1 h

/-- The path of names as it is seen from where they start. -/
theorem relativeTo?_under (base : Path) {names : List String}
    (hnames : ∀ name ∈ names, IsFileName name) :
    (base.under names).relativeTo? base = some (names.map .name) := by
  unfold relativeTo? startsWith
  rw [components_under base hnames, if_pos (List.isPrefixOf_iff_prefix.2 (List.prefix_append ..)),
    List.drop_left]

theorem fileName?_under_concat (base : Path) (names : List String) {name : String}
    (hname : IsFileName name) :
    (base.under (names ++ [name])).fileName? = some name := by
  unfold fileName?
  rw [under_concat, components_join _ hname, List.getLast?_concat]

theorem fileName?_join (base : Path) {name : String} (hname : IsFileName name) :
    (base.join ⟨name⟩).fileName? = some name :=
  fileName?_under_concat base [] hname

theorem ofComponents_names (names : List String) :
    ofComponents (names.map .name) = ⟨"/".intercalate names⟩ := by
  have htext : (names.map Component.name).map Component.text = names := by
    rw [List.map_map]
    exact List.map_id names
  cases names with
  | nil => rfl
  | cons name others => exact congrArg (fun texts => Path.mk ("/".intercalate texts)) htext

end Path

end LiterateCheck
