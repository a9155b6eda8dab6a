import LiterateCheck.Proofs.Disk.Plain
import LiterateCheck.Proofs.Path.Absolute
import LiterateCheck.Proofs.Path.Order
import LiterateCheck.Proofs.Run.Success
import LiterateCheck.Watch

/-!
# Directories to be watched

Which directories are watched besides the root is told by names alone: those that are asked for and
whose names do not begin with the names of the root (`extraWatchDirectories_iff`). Where no `..` is
among these names they lead just where they say, so nothing that lies outside the root is left out.
Where names begin with those of the root and go up from there, their directory is left out though it
lies outside (`extraWatchDirectories_upward`).
-/

namespace LiterateCheck

/-! ## Where names lead -/

/-- The location to which names lead from the root down, `..` resolved. -/
def Location.resolve (names : List String) : Location :=
  names.foldl step []

theorem Location.foldl_step_filter (names : List String) (here : Location) :
    (names.filter (· ≠ ".")).foldl step here = names.foldl step here := by
  induction names generalizing here with
  | nil => rfl
  | cons name others ih =>
    by_cases hhere : name = "."
    · subst hhere
      rw [List.filter_cons_of_neg (by decide), ih, List.foldl_cons, step_here]
    · rw [List.filter_cons_of_pos (by simpa using hhere), List.foldl_cons, List.foldl_cons, ih]

section Names

variable {cwd : Location} (hcwd : ∀ name ∈ cwd, Path.IsFileName name)

include hcwd

theorem Path.resolve_spelled (path : Path) :
    Location.resolve (path.spelled cwd) = path.place cwd := by
  have hstart : (if path.isAbsolute then [] else cwd).foldl Location.step [] =
      Disk.start cwd path := by
    unfold Disk.start
    split
    · rfl
    · exact Location.foldl_step (fun name hname =>
        ⟨(hcwd name hname).ne_here, (hcwd name hname).ne_up⟩) []
  unfold Location.resolve spelled place
  rw [List.foldl_append, hstart]
  exact Location.foldl_step_filter path.names _

theorem Path.mem_spelled {path : Path} {name : String} (h : name ∈ path.spelled cwd) :
    IsFileName name ∨ name ∈ path.names ∧ name ≠ "." := by
  rcases List.mem_append.1 h with hstart | hway
  · split at hstart
    · cases hstart
    · exact .inl (hcwd name hstart)
  · obtain ⟨hname, hhere⟩ := List.mem_filter.1 hway
    exact .inr ⟨hname, of_decide_eq_true hhere⟩

theorem Path.here_not_mem_spelled (path : Path) : "." ∉ path.spelled cwd := by
  intro hmem
  rcases mem_spelled hcwd hmem with hname | ⟨-, hhere⟩
  · exact hname.ne_here rfl
  · exact hhere rfl

theorem Path.up_not_mem_spelled {path : Path} (hup : ".." ∉ path.names) :
    ".." ∉ path.spelled cwd := by
  intro hmem
  rcases mem_spelled hcwd hmem with hname | ⟨hname, -⟩
  · exact hname.ne_up rfl
  · exact hup hname

end Names

theorem Location.resolve_of_not_mem {names : List String} (hhere : "." ∉ names)
    (hup : ".." ∉ names) : resolve names = names := by
  refine (foldl_step (fun name hname => ⟨?_, ?_⟩) []).trans (List.nil_append names)
  · rintro rfl
    exact hhere hname
  · rintro rfl
    exact hup hname

/-! ## Paths with the same components count once -/

section Adding

variable {paths directories : List Path} {path : Path} {components : List Component}

theorem nodup_addPath (h : (paths.map Path.components).Nodup) :
    ((addPath paths path).map Path.components).Nodup := by
  unfold addPath
  split
  · exact h
  · rename_i hnew
    rw [List.map_append, List.map_singleton]
    refine List.nodup_append.2 ⟨h, List.pairwise_singleton .., ?_⟩
    rintro _ hmem _ hpath rfl
    obtain ⟨other, hother, heq⟩ := List.mem_map.1 hmem
    refine hnew (List.any_eq_true.2 ⟨other, hother, ?_⟩)
    unfold Path.same
    rw [heq, List.mem_singleton.1 hpath]
    exact beq_self_eq_true _

theorem mem_addPath : components ∈ (addPath paths path).map Path.components ↔
    components ∈ paths.map Path.components ∨ components = path.components := by
  unfold addPath
  split
  · rename_i hold
    refine (or_iff_left_of_imp ?_).symm
    rintro rfl
    obtain ⟨other, hother, hsame⟩ := List.any_eq_true.1 hold
    exact List.mem_map.2 ⟨other, hother, (beq_iff_eq.1 hsame).symm⟩
  · rw [List.map_append, List.mem_append, List.map_singleton, List.mem_singleton]

theorem mem_or_eq_of_mem_addPath {directory : Path} (h : directory ∈ addPath paths path) :
    directory ∈ paths ∨ directory = path := by
  unfold addPath at h
  split at h
  · exact .inl h
  · rwa [List.mem_append, List.mem_singleton] at h

/-- Of paths that are added one by one, just those with new components are. -/
theorem foldl_addPath (directories : List Path) (h : (paths.map Path.components).Nodup) :
    ((directories.foldl addPath paths).map Path.components).Nodup ∧
      (∀ components, components ∈ (directories.foldl addPath paths).map Path.components ↔
        components ∈ paths.map Path.components ∨
          components ∈ directories.map Path.components) ∧
      ∀ directory ∈ directories.foldl addPath paths,
        directory ∈ paths ∨ directory ∈ directories := by
  induction directories generalizing paths with
  | nil => exact ⟨h, fun _ => (or_iff_left List.not_mem_nil).symm, fun _ hmem => .inl hmem⟩
  | cons first others ih =>
    obtain ⟨hnodup, hmem, hsubset⟩ := ih (@nodup_addPath _ first h)
    refine ⟨hnodup, fun components => ?_, fun directory hdirectory => ?_⟩
    · rw [List.foldl_cons, hmem, mem_addPath, or_assoc, List.map_cons, List.mem_cons]
    · rcases hsubset directory hdirectory with hadded | hothers
      · rcases mem_or_eq_of_mem_addPath hadded with hold | rfl
        · exact .inl hold
        · exact .inr List.mem_cons_self
      · exact .inr (List.mem_cons_of_mem first hothers)

end Adding

/-! ## What is asked for -/

/-- The names of a directory that is asked for: of the directory of a document, or of supplementary
sources. -/
inductive IsAsked (cwd : Location) (documents : List Path) (complementary? : Option Path) :
    List String → Prop
  | parent {document : Path} {names : List String} {name : String} :
    document ∈ documents → document.spelled cwd = names ++ [name] →
      IsAsked cwd documents complementary? names
  | supplement {path : Path} :
    complementary? = some path → IsAsked cwd documents complementary? (path.spelled cwd)

/-- The absolute form of a path, if it has one. -/
def absoluteForm (cwd path : Path) : Except SystemError Path :=
  match Path.absolute? cwd path with
  | some absolute => .ok absolute
  | none => .error .emptyAbsolute

section Asked

variable {cwd : Location} (hcwd : ∀ name ∈ cwd, Path.IsFileName name)

include hcwd

theorem exists_absoluteForm {path : Path} (hpath : path.text ≠ "") :
    ∃ whole, absoluteForm cwd.path path = .ok whole ∧ whole.isAbsolute = true ∧
      whole.way = path.spelled cwd := by
  obtain ⟨whole, hwhole, hform⟩ := Path.exists_absolute? hcwd hpath
  refine ⟨whole, ?_, hform⟩
  unfold absoluteForm
  rw [hwhole]

theorem exists_absoluteForms {paths : List Path} (hpaths : ∀ path ∈ paths, path.text ≠ "") :
    ∃ wholes, paths.mapM (absoluteForm cwd.path) = .ok wholes ∧
      (∀ whole ∈ wholes, whole.isAbsolute = true) ∧
      wholes.map Path.way = paths.map (Path.spelled cwd) := by
  induction paths with
  | nil => exact ⟨[], rfl, by simp, rfl⟩
  | cons path others ih =>
    obtain ⟨hpath, hothers⟩ := List.forall_mem_cons.1 hpaths
    obtain ⟨whole, hwhole, habsolute, hway⟩ := exists_absoluteForm hcwd hpath
    obtain ⟨wholes, hwholes, habsolutes, hways⟩ := ih hothers
    refine ⟨whole :: wholes, ?_, List.forall_mem_cons.2 ⟨habsolute, habsolutes⟩, ?_⟩
    · rw [List.mapM_cons]
      exact bind_eq_ok_iff.2 ⟨whole, hwhole, bind_eq_ok_iff.2 ⟨wholes, hwholes, rfl⟩⟩
    · rw [List.map_cons, List.map_cons, hway, hways]

theorem IsAsked.here_not_mem {documents : List Path} {complementary? : Option Path}
    {names : List String} (h : IsAsked cwd documents complementary? names) : "." ∉ names := by
  cases h with
  | @parent document _ name _ hspelled =>
    intro hmem
    apply Path.here_not_mem_spelled hcwd document
    rw [hspelled]
    exact List.mem_append_left [name] hmem
  | supplement => exact Path.here_not_mem_spelled hcwd _

end Asked

theorem mem_way_iff_isAsked {cwd : Location} {documents wholes supplements : List Path}
    {complementary? : Option Path} (habsolute : ∀ whole ∈ wholes, whole.isAbsolute = true)
    (hwholes : wholes.map Path.way = documents.map (Path.spelled cwd))
    (hsupplements : supplements.map Path.way = complementary?.toList.map (Path.spelled cwd))
    (names : List String) :
    names ∈ (wholes.filterMap Path.parent? ++ supplements).map Path.way ↔
      IsAsked cwd documents complementary? names := by
  rw [List.map_append, List.mem_append, hsupplements]
  constructor
  · rintro (hparent | hsupplement)
    · obtain ⟨parent, hmem, hway⟩ := List.mem_map.1 hparent
      obtain ⟨whole, hwhole, hparent⟩ := List.mem_filterMap.1 hmem
      obtain ⟨name, hname⟩ :=
        (Path.exists_parent?_iff (habsolute whole hwhole)).1 ⟨parent, hparent, hway⟩
      obtain ⟨document, hdocument, hspelled⟩ :=
        List.mem_map.1 (hwholes ▸ List.mem_map_of_mem (f := Path.way) hwhole)
      exact .parent hdocument (hspelled.trans hname)
    · obtain ⟨path, hpath, rfl⟩ := List.mem_map.1 hsupplement
      exact .supplement (Option.mem_toList.1 hpath)
  · rintro (⟨hdocument, hspelled⟩ | hpath)
    · left
      obtain ⟨whole, hwhole, hway⟩ :=
        List.mem_map.1 (hwholes ▸ List.mem_map_of_mem (f := Path.spelled cwd) hdocument)
      obtain ⟨parent, hparent, hnames⟩ :=
        (Path.exists_parent?_iff (habsolute whole hwhole)).2 ⟨_, hway.trans hspelled⟩
      exact List.mem_map.2 ⟨parent, List.mem_filterMap.2 ⟨whole, hwhole, hparent⟩, hnames⟩
    · exact .inr (List.mem_map_of_mem (Option.mem_toList.2 hpath))

/-- Of absolute paths those that are added go the same ways. -/
theorem mem_way_foldl_addPath_iff {directories : List Path}
    (habsolute : ∀ directory ∈ directories, directory.isAbsolute = true) :
    (∀ directory ∈ directories.foldl addPath [], directory.isAbsolute = true) ∧
      ∀ names, names ∈ (directories.foldl addPath []).map Path.way ↔
        names ∈ directories.map Path.way := by
  obtain ⟨-, hmem, hsubset⟩ := @foldl_addPath [] directories .nil
  have hadded : ∀ directory ∈ directories.foldl addPath [], directory.isAbsolute = true :=
    fun directory hdirectory =>
      habsolute directory ((hsubset directory hdirectory).resolve_left List.not_mem_nil)
  have hway {paths others : List Path} (hpaths : ∀ path ∈ paths, path.isAbsolute = true)
      (hothers : ∀ other ∈ others, other.isAbsolute = true)
      (h : ∀ components ∈ paths.map Path.components, components ∈ others.map Path.components)
      {names : List String} (hmem : names ∈ paths.map Path.way) :
      names ∈ others.map Path.way := by
    obtain ⟨path, hpath, rfl⟩ := List.mem_map.1 hmem
    obtain ⟨other, hother, heq⟩ := List.mem_map.1 (h _ (List.mem_map_of_mem hpath))
    exact List.mem_map.2
      ⟨other, hother, (Path.components_eq_iff (hothers other hother) (hpaths path hpath)).1 heq⟩
  refine ⟨hadded, fun names => ⟨hway hadded habsolute fun components h => ?_,
    hway habsolute hadded fun components h => (hmem components).2 (.inr h)⟩⟩
  exact ((hmem components).1 h).resolve_left List.not_mem_nil

/-! ## What is watched -/

section Watched

variable {cwd : Location} {root : Path} {documents : List Path} {complementary? : Option Path}
  (hcwd : ∀ name ∈ cwd, Path.IsFileName name) (hroot : root.text ≠ "")
  (hdocuments : ∀ document ∈ documents, document.text ≠ "")
  (hcomplementary : ∀ path, complementary? = some path → path.text ≠ "")

include hcwd hroot hdocuments hcomplementary

/-- What is asked for is made absolute, and what does not start with the root is kept. -/
theorem exists_asked : ∃ (whole : Path) (asked : List Path),
    extraWatchDirectories cwd.path root documents complementary? =
      .ok ((Path.sort (asked.foldl addPath [])).filter fun directory =>
        !directory.startsWith whole) ∧
    (whole.isAbsolute = true ∧ whole.way = root.spelled cwd) ∧
    (∀ directory ∈ asked, directory.isAbsolute = true) ∧
    ∀ names, names ∈ asked.map Path.way ↔ IsAsked cwd documents complementary? names := by
  obtain ⟨whole, hwhole, hroot⟩ := exists_absoluteForm hcwd hroot
  obtain ⟨wholes, hwholes, hdocuments, hways⟩ := exists_absoluteForms hcwd hdocuments
  obtain ⟨supplements, hsupplements, hcomplementary, hsupplementWays⟩ :=
    @exists_absoluteForms cwd hcwd complementary?.toList fun path hpath =>
      hcomplementary path (Option.mem_toList.1 hpath)
  refine ⟨whole, wholes.filterMap Path.parent? ++ supplements,
    bind_eq_ok_iff.2 ⟨whole, hwhole, bind_eq_ok_iff.2 ⟨wholes, hwholes,
      bind_eq_ok_iff.2 ⟨supplements, hsupplements, rfl⟩⟩⟩, hroot, fun directory hmem => ?_,
    mem_way_iff_isAsked hdocuments hways hsupplementWays⟩
  rcases List.mem_append.1 hmem with hparent | hsupplement
  · obtain ⟨document, hdocument, hparent⟩ := List.mem_filterMap.1 hparent
    exact (Path.isAbsolute_of_parent? hparent).trans (hdocuments document hdocument)
  · exact hcomplementary directory hsupplement

/-- What is watched is told by names: these directories are asked for, and their names do not begin
with those of the root. -/
theorem exists_watched : ∃ directories,
    extraWatchDirectories cwd.path root documents complementary? = .ok directories ∧
    (directories.Pairwise fun a b => a.compare b = .lt) ∧
    (∀ directory ∈ directories, directory.isAbsolute = true) ∧
    ∀ names, names ∈ directories.map (Path.spelled cwd) ↔
      IsAsked cwd documents complementary? names ∧ ¬root.spelled cwd <+: names := by
  obtain ⟨whole, asked, hdirectories, ⟨hwhole, hway⟩, habsolute, hasked⟩ :=
    exists_asked hcwd hroot hdocuments hcomplementary
  obtain ⟨hadded, hmem⟩ := mem_way_foldl_addPath_iff habsolute
  have hkept (directory : Path) :
      directory ∈ (Path.sort (asked.foldl addPath [])).filter (fun directory =>
          !directory.startsWith whole) ↔
        directory ∈ asked.foldl addPath [] ∧ ¬directory.startsWith whole = true := by
    rw [List.mem_filter, (Path.sort_perm _).mem_iff, Bool.not_eq_true', Bool.not_eq_true]
  refine ⟨_, hdirectories, (Path.pairwise_sort (@foldl_addPath [] asked .nil).1).filter _,
    fun directory hdirectory => hadded directory ((hkept directory).1 hdirectory).1,
    fun names => ?_⟩
  rw [← hasked, ← hmem, ← hway, List.mem_map, List.mem_map]
  constructor
  · rintro ⟨directory, hdirectory, rfl⟩
    obtain ⟨hin, houtside⟩ := (hkept directory).1 hdirectory
    have habsolute := hadded directory hin
    rw [Path.spelled_of_absolute habsolute, ← Path.startsWith_iff habsolute hwhole]
    exact ⟨⟨directory, hin, rfl⟩, houtside⟩
  · rintro ⟨⟨directory, hin, rfl⟩, houtside⟩
    have habsolute := hadded directory hin
    rw [← Path.startsWith_iff habsolute hwhole] at houtside
    exact ⟨directory, (hkept directory).2 ⟨hin, houtside⟩, Path.spelled_of_absolute habsolute cwd⟩

end Watched

/-- **Which directories are watched besides the root.** They are absolute, in order and each once,
and they are the directories asked for whose names do not begin with those of the root. Without a
`..` among the names this is so exactly when they lie outside the root. With one, a directory is
left out although it lies outside exactly when its names begin with those of the root and go up from
there. -/
theorem extraWatchDirectories_iff {cwd : Location} (hcwd : ∀ name ∈ cwd, Path.IsFileName name)
    {root : Path} (hroot : root.text ≠ "") {documents : List Path}
    (hdocuments : ∀ document ∈ documents, document.text ≠ "") {complementary? : Option Path}
    (hcomplementary : ∀ path, complementary? = some path → path.text ≠ "") : ∃ directories,
    extraWatchDirectories cwd.path root documents complementary? = .ok directories ∧
    (directories.Pairwise fun a b => a.compare b = .lt) ∧
    (∀ directory ∈ directories, directory.isAbsolute = true ∧
      IsAsked cwd documents complementary? (directory.spelled cwd)) ∧
    ∀ names, IsAsked cwd documents complementary? names →
      (names ∈ directories.map (Path.spelled cwd) ↔ ¬root.spelled cwd <+: names) ∧
      (".." ∉ root.names → ".." ∉ names →
        (names ∈ directories.map (Path.spelled cwd) ↔
          ¬root.place cwd <+: Location.resolve names)) ∧
      ((names ∉ directories.map (Path.spelled cwd) ∧
          ¬root.place cwd <+: Location.resolve names) ↔
        ∃ rest, names = root.spelled cwd ++ rest ∧
          ¬root.place cwd <+: rest.foldl Location.step (root.place cwd)) := by
  obtain ⟨directories, hdirectories, hsorted, habsolute, hmem⟩ :=
    exists_watched hcwd hroot hdocuments hcomplementary
  refine ⟨directories, hdirectories, hsorted, fun directory hdirectory =>
    ⟨habsolute directory hdirectory, ((hmem _).1 (List.mem_map_of_mem hdirectory)).1⟩,
    fun names hasked => ?_⟩
  have hwatched : names ∈ directories.map (Path.spelled cwd) ↔ ¬root.spelled cwd <+: names :=
    (hmem names).trans (and_iff_right hasked)
  have hplace := Path.resolve_spelled hcwd root
  refine ⟨hwatched, fun hrootUp hup => ?_, ?_⟩
  · rw [hwatched, ← hplace, Location.resolve_of_not_mem (Path.here_not_mem_spelled hcwd root)
      (Path.up_not_mem_spelled hcwd hrootUp),
      Location.resolve_of_not_mem (hasked.here_not_mem hcwd) hup]
  · rw [hwatched, not_not]
    constructor
    · rintro ⟨⟨rest, rfl⟩, houtside⟩
      refine ⟨rest, rfl, ?_⟩
      rwa [Location.resolve, List.foldl_append, ← Location.resolve, hplace] at houtside
    · rintro ⟨rest, rfl, houtside⟩
      refine ⟨List.prefix_append _ rest, ?_⟩
      rwa [Location.resolve, List.foldl_append, ← Location.resolve, hplace]

theorem isFileName_p : Path.IsFileName "p" := by decide

/-- Of the directories of two documents, given from inside the root, the one that lies outside is
watched, and it alone. -/
theorem extraWatchDirectories_outside : ∃ directories,
    extraWatchDirectories (Location.path ["p"]) ⟨"."⟩ [⟨"docs/a.mbt.md"⟩, ⟨"/shared/b.mbt.md"⟩]
      none = .ok directories ∧
    ["shared"] ∈ directories.map (Path.spelled ["p"]) ∧
    ["p", "docs"] ∉ directories.map (Path.spelled ["p"]) := by
  obtain ⟨directories, hdirectories, -, -, hwatched⟩ := @extraWatchDirectories_iff ["p"]
    (by simp [isFileName_p]) ⟨"."⟩ (by decide) [⟨"docs/a.mbt.md"⟩, ⟨"/shared/b.mbt.md"⟩] (by decide)
    none (by simp)
  have hshared : IsAsked ["p"] [⟨"docs/a.mbt.md"⟩, ⟨"/shared/b.mbt.md"⟩] none ["shared"] :=
    @IsAsked.parent _ _ _ _ ["shared"] "b.mbt.md" (List.mem_cons_of_mem _ List.mem_cons_self)
      (by decide)
  have hdocs : IsAsked ["p"] [⟨"docs/a.mbt.md"⟩, ⟨"/shared/b.mbt.md"⟩] none ["p", "docs"] :=
    @IsAsked.parent _ _ _ _ ["p", "docs"] "a.mbt.md" List.mem_cons_self (by decide)
  refine ⟨directories, hdirectories, ((hwatched _ hshared).2.1 (by decide) (by decide)).2 ?_,
    fun hmem => ((hwatched _ hdocs).2.1 (by decide) (by decide)).1 hmem ?_⟩
  · decide
  · decide

/-- A document beside the root that is given from inside the root: the names of its directory begin
with those of the root, so nothing is watched, although the directory lies outside. -/
theorem extraWatchDirectories_upward :
    extraWatchDirectories (Location.path ["p"]) ⟨"."⟩ [⟨"../shared/b.mbt.md"⟩] none = .ok [] ∧
    IsAsked ["p"] [⟨"../shared/b.mbt.md"⟩] none ["p", "..", "shared"] ∧
    Location.resolve ["p", "..", "shared"] = ["shared"] ∧
    ¬(Path.mk ".").place ["p"] <+: ["shared"] := by
  have hkept : extraWatchDirectories (Location.path ["p"]) ⟨"."⟩ [⟨"../shared/b.mbt.md"⟩] none =
      .ok ((Path.sort [⟨"/p/../shared"⟩]).filter fun directory => !directory.startsWith ⟨"/p"⟩) :=
    rfl
  have hasked : IsAsked ["p"] [⟨"../shared/b.mbt.md"⟩] none ["p", "..", "shared"] :=
    @IsAsked.parent _ _ _ _ ["p", "..", "shared"] "b.mbt.md" List.mem_cons_self (by decide)
  refine ⟨?_, hasked, by decide, by decide⟩
  rw [hkept, Path.sort, List.mergeSort_singleton]
  rfl

end LiterateCheck
