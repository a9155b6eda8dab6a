import LiterateCheck.Project.Generate
import LiterateCheck.Proofs.Disk.Listing
import LiterateCheck.Proofs.Path.Order
import LiterateCheck.Proofs.Project.Filling

/-!
# The supplementary sources of a directory

Sources are listed by the extension of their names and copied by the stem that a suffix leaves. The
two agree on every name but the suffix alone, which has no extension.

1. A path has the extension of sources exactly when it has a stem that is not empty
   (`extension?_eq_some_iff`).
2. The sources of a directory are the files directly in it that have such a stem
   (`Supplies`, `supplies_of_listSupplements`).
3. Paths into one directory are ordered as those into another with the same names
   (`Path.compare_join_join`), so the sources are listed in the order of their names.
-/

namespace LiterateCheck

/-! ## Extension and stem -/

/-- The extension of a path is what follows the last point of its name, when something stands
before. -/
theorem Path.extension?_eq_some_iff {path : Path} {extension : String} :
    path.extension? = some extension ↔ '.' ∉ extension.toList ∧
      ∃ stem, stem ≠ "" ∧ path.fileName? = some (stem ++ "." ++ extension) := by
  unfold extension?
  rw [Option.bind_eq_bind, Option.bind_eq_some_iff]
  constructor
  · rintro ⟨name, hname, h⟩
    dsimp only at h
    have hpoint := List.head?_dropWhile_not (· != '.') name.toList.reverse
    have hwhole := List.takeWhile_append_dropWhile (p := (· != '.')) (l := name.toList.reverse)
    have hafter : '.' ∉ name.toList.reverse.takeWhile (· != '.') := fun hmem => by
      simpa using List.all_eq_true.1 List.all_takeWhile '.' hmem
    generalize name.toList.reverse.takeWhile (· != '.') = after at h hwhole hafter
    split at h
    · rename_i point last front hrest
      rw [hrest] at hpoint hwhole
      obtain rfl : point = '.' := by simpa using hpoint
      obtain rfl := Option.some.inj h
      refine ⟨by simpa using hafter, String.ofList (last :: front).reverse, ?_, ?_⟩
      · simp [← String.toList_inj]
      · rw [hname, Option.some.injEq, ← String.toList_inj, ← List.reverse_inj, ← hwhole]
        simp
    · cases h
  · rintro ⟨hafter, stem, hstem, hname⟩
    refine ⟨_, hname, ?_⟩
    dsimp only
    have hreverse : (stem ++ "." ++ extension).toList.reverse =
        extension.toList.reverse ++ '.' :: stem.toList.reverse := by
      simp
    have hplain : ∀ c ∈ extension.toList.reverse, (c != '.') = true := by
      intro c hc
      rw [bne_iff_ne]
      rintro rfl
      exact hafter (List.mem_reverse.1 hc)
    rw [hreverse, List.takeWhile_append_of_pos hplain, List.dropWhile_append_of_pos hplain]
    obtain ⟨last, front, hfront⟩ : ∃ last front, stem.toList.reverse = last :: front :=
      List.exists_cons_of_ne_nil (by simpa using hstem)
    rw [hfront]
    simp

theorem append_sourceExtension (stem : String) :
    stem ++ "." ++ sourceExtension = stem ++ ".mbt" := by
  rw [String.append_assoc]
  rfl

theorem extension?_eq_some_iff {path : Path} :
    path.extension? = some sourceExtension ↔
      ∃ stem, stem ≠ "" ∧ supplementaryStem? path = some stem := by
  rw [Path.extension?_eq_some_iff, and_iff_right (by decide)]
  constructor
  · rintro ⟨own, hown, hfile⟩
    rw [append_sourceExtension] at hfile
    exact ⟨_, fun hnone => hown (Text.shown_eq_empty_iff.1 hnone),
      supplementaryStem?_eq_some_iff.2 ⟨_, hfile, isPlainEnd_sourceSuffix.shown_append own⟩⟩
  · rintro ⟨stem, hstem, hsome⟩
    obtain ⟨name, hfile, hshown⟩ := supplementaryStem?_eq_some_iff.1 hsome
    obtain ⟨own, rfl, rfl⟩ := isPlainEnd_sourceSuffix.shown_eq_append_iff.1 hshown
    exact ⟨own, fun hnone => hstem (Text.shown_eq_empty_iff.2 hnone),
      append_sourceExtension own ▸ hfile⟩

/-! ## Paths into a directory -/

theorem Path.join_inj {base : Path} {name other : String} (hname : Path.IsFileName name)
    (hother : Path.IsFileName other)
    (h : (base.join ⟨name⟩).components = (base.join ⟨other⟩).components) : name = other := by
  rw [Path.components_join base hname, Path.components_join base hother,
    List.append_cancel_left_eq] at h
  exact Component.name.inj (List.cons.inj h).1

theorem Path.compare_join_join (base : Path) {name other : String} (hname : Path.IsFileName name)
    (hother : Path.IsFileName other) :
    (base.join ⟨name⟩).compare (base.join ⟨other⟩) =
      Path.compareComponents [.name name] [.name other] := by
  unfold Path.compare
  rw [Path.components_join base hname, Path.components_join base hother,
    Path.compareComponents_append_left]

/-! ## Listing -/

/-- Some files are the sources of a directory that stands at a place, in the order of their
paths. -/
structure Supplies (disk : Disk) (place : Location) (directory : Path) (files : List Path) :
    Prop where
  mem_iff {file : Path} : file ∈ files ↔ ∃ stem, stem ≠ "" ∧
    disk.HasFile (place ++ [stem ++ ".mbt"]) ∧ file = directory.join ⟨stem ++ ".mbt"⟩
  increasing : files.Pairwise fun a b => a.compare b = .lt

theorem isFileName_of_hasFile {disk : Disk} (hdisk : disk.WellNamed) {place : Location}
    {name : String} (h : disk.HasFile (place ++ [name])) : Path.IsFileName name := by
  obtain ⟨content, executable, hentry⟩ := h
  exact hdisk.location hentry name (List.mem_append_right _ (List.mem_singleton_self _))

theorem supplies_of_listSupplements {disk : Disk} {cwd : Location} {directory : Path}
    {files : List Path} (hdisk : disk.WellNamed)
    (h : listSupplements disk cwd directory = .ok files) :
    ∃ place, disk.lookup cwd directory = .ok (place, .directory) ∧
      Supplies disk place directory files := by
  unfold listSupplements at h
  split at h
  · cases h
  rename_i entries hlist
  obtain rfl := Except.ok.inj h
  obtain ⟨place, hplace, rfl⟩ : ∃ place, disk.lookup cwd directory = .ok (place, .directory) ∧
      disk.children place = entries := by
    unfold Disk.list at hlist
    split at hlist
    · rename_i place hplace
      exact ⟨place, hplace, Except.ok.inj hlist⟩
    · cases hlist
    · cases hlist
  have hnamed {item : String × Entry} (hitem : item ∈ disk.children place) :
      Path.IsFileName item.1 :=
    hdisk.location (Disk.mem_children_iff.1 hitem) item.1
      (List.mem_append_right _ (List.mem_singleton_self _))
  refine ⟨place, hplace, ⟨fun {file} => ?_, Path.pairwise_sort ?_⟩⟩
  · rw [(Path.sort_perm _).mem_iff, List.mem_filterMap]
    constructor
    · rintro ⟨⟨name, entry⟩, hitem, hsource⟩
      obtain ⟨hkept, hfile⟩ := Option.ite_none_right_eq_some.1 hsource
      obtain rfl := Option.some.inj hfile
      obtain ⟨hentry, hextension⟩ := (Bool.and_eq_true _ _).mp hkept
      obtain ⟨-, stem, hstem, hname⟩ :=
        Path.extension?_eq_some_iff.1 (beq_iff_eq.1 hextension)
      rw [Path.fileName?_join directory (hnamed hitem), append_sourceExtension] at hname
      obtain rfl := Option.some.inj hname
      cases entry with
      | file content executable =>
        exact ⟨stem, hstem, ⟨content, executable, Disk.mem_children_iff.1 hitem⟩, rfl⟩
      | directory => cases hentry
      | link => cases hentry
    · rintro ⟨stem, hstem, ⟨content, executable, hentry⟩, rfl⟩
      have hitem : (stem ++ ".mbt", Entry.file content executable) ∈ disk.children place :=
        Disk.mem_children_iff.2 hentry
      have hextension : (directory.join ⟨stem ++ ".mbt"⟩).extension? = some sourceExtension :=
        Path.extension?_eq_some_iff.2 ⟨by decide, stem, hstem, by
          rw [append_sourceExtension, Path.fileName?_join directory (hnamed hitem)]⟩
      refine ⟨_, hitem, ?_⟩
      dsimp only
      rw [hextension]
      rfl
  · -- different names make different paths
    have hnames : (disk.children place).Pairwise fun item other =>
        Path.IsFileName item.1 ∧ Path.IsFileName other.1 ∧ item.1 ≠ other.1 :=
      (List.pairwise_map.1 (Disk.nodup_children disk place)).imp_of_mem fun ha hb hne =>
        ⟨hnamed ha, hnamed hb, hne⟩
    refine List.pairwise_map.2 (List.Pairwise.filterMap _ ?_ hnames)
    rintro ⟨name, entry⟩ ⟨other, entry'⟩ ⟨hname, hother, hne⟩ file hfile file' hfile' heq
    obtain ⟨-, hfile⟩ := Option.ite_none_right_eq_some.1 hfile
    obtain ⟨-, hfile'⟩ := Option.ite_none_right_eq_some.1 hfile'
    obtain rfl := Option.some.inj hfile
    obtain rfl := Option.some.inj hfile'
    exact hne (Path.join_inj hname hother heq)

end LiterateCheck
