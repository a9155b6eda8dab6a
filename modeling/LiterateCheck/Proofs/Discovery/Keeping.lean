import LiterateCheck.Proofs.Discovery.Walking

/-!
# What a selection keeps

A document is found by names exactly when the last is listed and taken and each name before it is
entered (`finds_concat_iff`). On a disk whose names are file names this is what the rules say of
every part of its path (`Selection.Keeps`), but for the directories with a configuration of their
own, of which those in the root are entered.
-/

namespace LiterateCheck

/-! ## Names on the way to a document -/

theorem isPassedOver_eq_false_iff {name : String} :
    isPassedOver name = false ↔ (Text.isUtf8 name = true →
      name.toList.head? ≠ some '.' ∧ name ≠ "node_modules" ∧ name ≠ "target") := by
  unfold isPassedOver Text.utf8?
  by_cases hutf8 : Text.isUtf8 name = true
  · rw [if_pos hutf8, imp_iff_right hutf8]
    dsimp only
    rw [Bool.or_eq_false_iff, Bool.or_eq_false_iff, and_assoc, beq_eq_false_iff_ne,
      beq_eq_false_iff_ne, beq_eq_false_iff_ne]
  · rw [if_neg hutf8]
    exact iff_of_true rfl fun h => absurd h hutf8

theorem isLiterate_join_iff {directory : Path} {name : String} (hname : Path.IsFileName name) :
    isLiterate (directory.join ⟨name⟩) = true ↔
      Text.isUtf8 name = true ∧ literateSuffix.toList <:+ name.toList := by
  unfold isLiterate
  rw [show (directory.join ⟨name⟩).fileName? = some name from
    Path.fileName?_under_concat directory [] hname, Option.bind_some]
  unfold Text.utf8?
  by_cases hutf8 : Text.isUtf8 name = true
  · rw [if_pos hutf8, and_iff_right hutf8]
    exact List.isSuffixOf_iff_suffix
  · rw [if_neg hutf8]
    exact iff_of_false Bool.false_ne_true fun h => hutf8 h.1

theorem same_eq_false_iff {a b : Path} : a.same b = false ↔ a.components ≠ b.components :=
  beq_eq_false_iff_ne

namespace Walk

variable {disk : Disk} {cwd : Location} {selection : Selection} {isRoot : Bool}
  {directory : Path}

theorem Finds.isFileName {names : List String}
    (h : Finds disk cwd selection isRoot directory names) (hnames : disk.WellNamed) :
    ∀ name ∈ names, Path.IsFileName name := by
  induction h with
  | document hlists _ =>
    intro name hname
    obtain rfl := List.mem_singleton.1 hname
    exact hlists.isFileName hnames
  | inside hlists _ _ ih => exact List.forall_mem_cons.2 ⟨hlists.isFileName hnames, ih⟩

/-- Prefixes that are not empty, split before their last name: the head alone, or the head before
such a prefix of the others. -/
theorem forall_concat_prefix_cons_iff {P : List String → String → Prop} {first : String}
    {names : List String} :
    (∀ init last, init ++ [last] <+: first :: names → P init last) ↔
      P [] first ∧ ∀ init last, init ++ [last] <+: names → P (first :: init) last := by
  constructor
  · intro h
    exact ⟨h [] first (List.prefix_append [first] names), fun init last hpart =>
      h (first :: init) last ((List.prefix_cons_inj first).2 hpart)⟩
  · rintro ⟨hfirst, hothers⟩ init last hpart
    cases init with
    | nil =>
      obtain ⟨rfl, -⟩ := List.cons_prefix_cons.1 hpart
      exact hfirst
    | cons head init =>
      obtain ⟨rfl, hrest⟩ := List.cons_prefix_cons.1 hpart
      exact hothers init last hrest

/-- A document is found by names exactly when the last is listed and taken and each name before it
is entered. -/
theorem finds_concat_iff {front : List String} {name : String} (hdirectory : directory.text ≠ "")
    (hnames : ∀ other ∈ front, Path.IsFileName other) :
    Finds disk cwd selection isRoot directory (front ++ [name]) ↔
      disk.Lists cwd (directory.under front) name ∧
      Takes disk cwd selection (directory.under (front ++ [name])) name ∧
      ∀ init last, init ++ [last] <+: front →
        Enters disk cwd selection (isRoot && init.isEmpty) (directory.under (init ++ [last]))
          last := by
  induction front generalizing isRoot directory with
  | nil =>
    constructor
    · intro hfinds
      cases hfinds with
      | document hlists htakes => exact ⟨hlists, htakes, by simp⟩
      | inside _ _ hrest => cases hrest
    · rintro ⟨hlists, htakes, -⟩
      exact .document hlists htakes
  | cons first front ih =>
    obtain ⟨hfirst, hfront⟩ := List.forall_mem_cons.1 hnames
    have hih := @ih false _ (Path.text_join_ne_empty hdirectory hfirst.isAbsolute) hfront
    rw [forall_concat_prefix_cons_iff, List.isEmpty_nil, Bool.and_true]
    constructor
    · intro hfinds
      generalize hwhole : first :: front ++ [name] = whole at hfinds
      cases hfinds with
      | document => simp at hwhole
      | inside _ henters hrest =>
        obtain ⟨rfl, rfl⟩ := List.cons.inj hwhole
        obtain ⟨hlists, htakes, hothers⟩ := hih.1 hrest
        refine ⟨hlists, htakes, henters, fun init last hpart => ?_⟩
        rw [List.isEmpty_cons, Bool.and_false]
        exact hothers init last hpart
    · rintro ⟨hlists, htakes, henters, hothers⟩
      have hlisted := Disk.lists_of_isDirectory_join hdirectory hfirst henters.isDirectory
      refine .inside hlisted henters (hih.2 ⟨hlists, htakes, fun init last hpart => ?_⟩)
      have hother := hothers init last hpart
      rwa [List.isEmpty_cons, Bool.and_false] at hother

end Walk

/-! ## What a selection keeps -/

/-- A selection keeps the document that a name leads to, found behind other names below a root.
What is asked of every part of the path is asked of the document too. -/
structure Selection.Keeps (selection : Selection) (disk : Disk) (cwd : Location) (root : Path)
    (front : List String) (name : String) : Prop where
  rootDirectory : disk.isDirectory cwd root = true
  fileNames : ∀ part ∈ front ++ [name], Path.IsFileName part
  /-- The document is an entry, perhaps behind links, and not a directory. -/
  listed : disk.Lists cwd (root.under front) name
  notDirectory : disk.isDirectory cwd (root.under (front ++ [name])) = false
  literate : Text.isUtf8 name = true ∧ literateSuffix.toList <:+ name.toList
  /-- Only names that are UTF-8 are looked at. -/
  looked : ∀ part ∈ front ++ [name], Text.isUtf8 part = true →
    part.toList.head? ≠ some '.' ∧ part ≠ "node_modules" ∧ part ≠ "target"
  passes : ∀ part ≠ [], part <+: front ++ [name] → selection.Passes disk cwd (root.under part)
  outsideOutput : ∀ part ≠ [], part <+: front →
    (root.under part).components ≠ selection.outputRoot.components
  included : selection.included ⟨"/".intercalate (front ++ [name])⟩ = true

theorem forall_prefix_iff {P : List String → Prop} {names : List String} :
    (∀ part ≠ [], part <+: names → P part) ↔
      ∀ init last, init ++ [last] <+: names → P (init ++ [last]) := by
  constructor
  · intro h init last hpart
    exact h _ (by simp) hpart
  · intro h part hne hpart
    rw [← List.dropLast_concat_getLast hne] at hpart ⊢
    exact h _ _ hpart

theorem relativePath_under (root : Path) {names : List String}
    (hnames : ∀ name ∈ names, Path.IsFileName name) :
    relativePath root (root.under names) = ⟨"/".intercalate names⟩ := by
  unfold relativePath
  rw [Path.relativeTo?_under root hnames, Option.getD_some, Path.ofComponents_names]

section Keeps

variable {disk : Disk} {cwd : Location} {selection : Selection} {root : Path}
  {front : List String} {name : String}

theorem keeps_of_finds (hnames : disk.WellNamed)
    (h : Walk.Finds disk cwd selection true root (front ++ [name]))
    (hincluded : selection.included (relativePath root (root.under (front ++ [name]))) = true) :
    selection.Keeps disk cwd root front name ∧
      ∀ part ≠ [], part <+: front → hasConfig disk cwd (root.under part) = true →
        part.length = 1 := by
  have hfile := h.isFileName hnames
  obtain ⟨_, _, hfirst⟩ := h.exists_head
  have hroot := hfirst.isDirectory
  obtain ⟨hlists, htakes, henters⟩ := (Walk.finds_concat_iff
    (Disk.text_ne_empty_of_isDirectory hroot) (List.forall_mem_append.1 hfile).1).1 h
  refine ⟨{ rootDirectory := hroot, fileNames := hfile, listed := hlists
            notDirectory := htakes.notDirectory, literate := ?literate, looked := ?looked
            passes := ?passes, outsideOutput := ?output, included := ?included }, ?config⟩
  case literate =>
    have hliterate := htakes.literate
    rw [Path.under_concat] at hliterate
    exact (isLiterate_join_iff (hlists.isFileName hnames)).1 hliterate
  case looked =>
    rw [List.forall_mem_append, List.forall_mem_singleton]
    refine ⟨fun part hpart => ?_, isPassedOver_eq_false_iff.1 htakes.looked⟩
    obtain ⟨init, back, rfl⟩ := List.append_of_mem hpart
    exact isPassedOver_eq_false_iff.1 (henters init part (by simp)).looked
  case passes =>
    rw [forall_prefix_iff]
    intro init last hpart
    rcases List.prefix_concat_iff.1 hpart with heq | hpart
    · rw [heq]
      exact htakes.passes
    · exact (henters init last hpart).passes
  case output =>
    rw [forall_prefix_iff]
    intro init last hpart
    exact same_eq_false_iff.1 (henters init last hpart).notOutput
  case included => rwa [relativePath_under root hfile] at hincluded
  case config =>
    rw [forall_prefix_iff]
    intro init last hpart hconfig
    have hroot := (henters init last hpart).isRoot_of_hasConfig hconfig
    rw [Bool.true_and, List.isEmpty_iff] at hroot
    rw [hroot]
    rfl

theorem Selection.Keeps.finds (h : selection.Keeps disk cwd root front name)
    (hconfig : ∀ part ≠ [], part <+: front → hasConfig disk cwd (root.under part) = true →
      part.length = 1) :
    Walk.Finds disk cwd selection true root (front ++ [name]) := by
  obtain ⟨hfront, hname⟩ := List.forall_mem_append.1 h.fileNames
  have hroot := Disk.text_ne_empty_of_isDirectory h.rootDirectory
  have hlooked (part : String) (hpart : part ∈ front ++ [name]) : isPassedOver part = false :=
    isPassedOver_eq_false_iff.2 (h.looked part hpart)
  refine (Walk.finds_concat_iff hroot hfront).2 ⟨h.listed, ?takes, fun init last hpart => ?enters⟩
  case takes =>
    refine ⟨hlooked name (by simp), h.passes _ (by simp) (List.prefix_refl _), h.notDirectory, ?_⟩
    rw [Path.under_concat, isLiterate_join_iff (hname name (List.mem_singleton_self name))]
    exact h.literate
  case enters =>
    have hne : init ++ [last] ≠ [] := by simp
    have hlast : last ∈ front := hpart.subset (by simp)
    refine ⟨hlooked last (List.mem_append_left _ hlast),
      h.passes _ hne (hpart.trans (List.prefix_append ..)),
      Disk.isDirectory_under_of_prefix hroot hfront hpart h.listed.isDirectory,
      same_eq_false_iff.2 (h.outsideOutput _ hne hpart), fun hown => ?_⟩
    have hlength := hconfig _ hne hpart hown
    rw [List.length_append, List.length_singleton, Nat.add_eq_right] at hlength
    rw [Bool.true_and, List.isEmpty_iff, List.length_eq_zero_iff.1 hlength]

end Keeps

end LiterateCheck
