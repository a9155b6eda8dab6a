import LiterateCheck.Proofs.Discovery.Ordering
import LiterateCheck.Proofs.Disk.Plain

/-!
# The files that steer discovery

Discovery walks through all directories below a root, yet on plain disks its outcome depends on few
files: the documents, the configurations and the ignore file of the root.

1. A disk is seen from a root when every directory below the root's place is found as one by the
   path that discovery spells for it (`Disk.Sees`). Then a walk never fails, since its routes lead
   to the places that they spell (`exists_discoverWith_of_plain`).
2. On two plain disks seen from a root, where the same files steer, a file that a path leads to on
   the one is what it leads to on the other (`SteersAlike.lookup_file`). So they have the same
   ignore rules, the same directories with a configuration, and the same documents.
3. Discovery has the same outcome on both (`discover_eq_of_steersAlike`).
-/

namespace LiterateCheck

/-- Every directory at or below the place that a root spells is found as a directory by the path
that discovery makes for it: the root's, with names joined to it. -/
def Disk.Sees (disk : Disk) (cwd : Location) (root : Path) : Prop :=
  ∀ names, disk.entryAt? (root.place cwd ++ names) = some .directory →
    disk.isDirectory cwd (root.under names) = true

/-- For this the root has to be found, and the system has to take the names below it and the paths
that they make. -/
theorem Disk.sees_of_isDirectory {disk : Disk} {cwd : Location} {root : Path}
    (hplain : disk.Plain) (hroot : disk.isDirectory cwd root = true)
    (hfits : ∀ names, disk.entryAt? (root.place cwd ++ names) = some .directory →
      (∀ name ∈ names, IsName name) ∧ Text.holdsNul (root.under names).text = false ∧
        (root.under names).size < maxPathSize) : disk.Sees cwd root := by
  intro names hentry
  obtain ⟨hnames, hnul, hsize⟩ := hfits names hentry
  by_cases hnil : names = []
  · subst hnil
    exact hroot
  have hfile : ∀ name ∈ names, Path.IsFileName name := fun name hname =>
    hplain.wellNamed.location hentry name (List.mem_append_right _ hname)
  obtain ⟨l, hlookup⟩ := Disk.isDirectory_iff.1 hroot
  obtain ⟨rfl, -⟩ := hplain.lookup hlookup
  exact Disk.isDirectory_iff.2 ⟨_, hplain.closed.lookup_down hlookup
    (Path.goesOn_under root fun name hname => (hfile name hname).isStep) hnil hnames hnul hsize
    hentry (.inl rfl)⟩

theorem Disk.Sees.isDirectory_iff {disk : Disk} {cwd : Location} {root : Path}
    (h : disk.Sees cwd root) (hplain : disk.Plain) {names : List String}
    (hnames : ∀ name ∈ names, Path.IsFileName name) :
    disk.isDirectory cwd (root.under names) = true ↔
      disk.entryAt? (root.place cwd ++ names) = some .directory := by
  constructor
  · intro hdirectory
    obtain ⟨l, hlookup⟩ := Disk.isDirectory_iff.1 hdirectory
    obtain ⟨rfl, hentry⟩ := hplain.lookup hlookup
    rwa [Path.place_under cwd root hnames] at hentry
  · exact h names

theorem Disk.Sees.lookup {disk : Disk} {cwd : Location} {root : Path} (h : disk.Sees cwd root)
    (hplain : disk.Plain) {names : List String} (hnames : ∀ name ∈ names, Path.IsFileName name)
    (hentry : disk.entryAt? (root.place cwd ++ names) = some .directory) :
    disk.lookup cwd (root.under names) = .ok (root.place cwd ++ names, .directory) := by
  obtain ⟨l, hlookup⟩ := Disk.isDirectory_iff.1 (h names hentry)
  obtain ⟨rfl, -⟩ := hplain.lookup hlookup
  rwa [Path.place_under cwd root hnames] at hlookup

/-! ## Routes on a plain disk -/

theorem Walk.Reaches.eq_place {disk : Disk} (hplain : disk.Plain) {cwd : Location}
    {selection : Selection} {isRoot : Bool} {directory : Path} {names : List String} {l : Location}
    (h : Walk.Reaches disk cwd selection isRoot directory names l) :
    l = directory.place cwd ++ names ∧ disk.entryAt? l = some .directory := by
  induction h with
  | here hlookup =>
    rw [List.append_nil]
    exact hplain.lookup hlookup
  | inside hlists _ _ ih =>
    obtain ⟨rfl, hentry⟩ := ih
    refine ⟨?_, hentry⟩
    rw [Path.place_join_name cwd _ (hlists.isFileName hplain.wellNamed), List.append_assoc,
      List.singleton_append]

/-- So no two of them meet. -/
theorem exists_discoverWith_of_plain {disk : Disk} (hplain : disk.Plain) (cwd : Location)
    (root : Path) (selection : Selection) :
    ∃ files, discoverWith disk cwd root selection = .ok files := by
  refine (exists_discoverWith_iff hplain.wellNamed).2
    (Walk.free_of_apart hplain.closed hplain.wellNamed fun names names' l hreaches hreaches' => ?_)
  have heq := (hreaches.eq_place hplain).1.symm.trans (hreaches'.eq_place hplain).1
  exact List.append_cancel_left heq

/-! ## Files that steer -/

/-- The name of a configuration file. -/
def IsConfigName (name : String) : Prop :=
  ∃ candidate ∈ Config.candidates, candidate.fileName? = some name

/-- The files of such a name make a difference to discovery wherever they stand: they are documents,
or configurations. -/
def Steers (name : String) : Prop :=
  literateSuffix.toList <:+ name.toList ∨ IsConfigName name

/-- A location of a file that makes a difference to discovery below a place: the place's ignore file
is one, too. -/
def IsSteering (place l : Location) : Prop :=
  (∃ directory name, l = directory ++ [name] ∧ Steers name) ∨ l = place ++ [".gitignore"]

/-- On two plain disks, all of whose directories are seen from a root, the same files steer. -/
structure SteersAlike (disk disk' : Disk) (cwd : Location) (root : Path) : Prop where
  plain : disk.Plain
  plain' : disk'.Plain
  sees : disk.Sees cwd root
  sees' : disk'.Sees cwd root
  files : ∀ l, IsSteering (root.place cwd) l → disk.SameFile disk' l

theorem SteersAlike.symm {disk disk' : Disk} {cwd : Location} {root : Path}
    (h : SteersAlike disk disk' cwd root) : SteersAlike disk' disk cwd root where
  plain := h.plain'
  plain' := h.plain
  sees := h.sees'
  sees' := h.sees
  files l hl content executable := (h.files l hl content executable).symm

/-- A path that goes down, by names only. -/
structure Path.Descends (path : Path) : Prop where
  isAbsolute : path.isAbsolute = false
  steps_eq : path.steps = path.names
  names_ne_nil : path.names ≠ []
  isName : ∀ name ∈ path.names, IsName name

theorem Path.Descends.text_ne_empty {path : Path} (h : path.Descends) : path.text ≠ "" := by
  refine Path.text_ne_empty_of_steps ?_
  rw [h.steps_eq]
  exact h.names_ne_nil

theorem descends_gitignore : (Path.mk ".gitignore").Descends :=
  ⟨by decide, by decide, by decide, by decide⟩

theorem descends_of_mem_candidates {candidate : Path} (h : candidate ∈ Config.candidates) :
    candidate.Descends ∧ ∃ front name, candidate.names = front ++ [name] ∧ IsConfigName name := by
  have hname {name : String} (hfile : candidate.fileName? = some name) : IsConfigName name :=
    ⟨candidate, h, hfile⟩
  simp only [Config.candidates, List.mem_cons, List.not_mem_nil, or_false] at h
  rcases h with rfl | rfl | rfl
  · exact ⟨⟨by decide, by decide, by decide, by decide⟩, [], _, rfl, hname rfl⟩
  · exact ⟨⟨by decide, by decide, by decide, by decide⟩, [], _, rfl, hname rfl⟩
  · exact ⟨⟨by decide, by decide, by decide, by decide⟩, [".config"], _, rfl, hname rfl⟩

namespace SteersAlike

variable {disk disk' : Disk} {cwd : Location} {root : Path} (h : SteersAlike disk disk' cwd root)

include h

/-- A file that steers and that is found behind a directory is found there on the other disk. -/
theorem lookup_file {names : List String} (hnames : ∀ name ∈ names, Path.IsFileName name)
    {path : Path} (hpath : path.Descends)
    (hsteers : IsSteering (root.place cwd) (root.place cwd ++ names ++ path.names))
    {l : Location} {content : ByteArray} {executable : Bool}
    (hlookup : disk.lookup cwd ((root.under names).join path) = .ok (l, .file content executable)) :
    disk'.lookup cwd ((root.under names).join path) = .ok (l, .file content executable) := by
  obtain ⟨hplace, hentry⟩ := h.plain.lookup hlookup
  have hbelow : ∀ name ∈ path.names, name ≠ "." ∧ name ≠ ".." := fun name hname =>
    ⟨(hpath.isName name hname).ne_here, (hpath.isName name hname).ne_up⟩
  rw [Path.place_join cwd _ hpath.isAbsolute, Path.place_under cwd root hnames,
    Location.foldl_step hbelow] at hplace
  subst hplace
  have hentry' := (h.files _ hsteers content executable).1 hentry
  -- the directory is there, so it is found, and the names lead on from it
  have hdirectory := h.plain'.closed.above hpath.names_ne_nil (by rw [hentry']; simp)
  have hfound := h.sees'.lookup h.plain' hnames hdirectory
  obtain ⟨hadmits, -⟩ := Disk.find_eq_ok_iff.1 (Disk.locate_of_lookup hlookup)
  have hgoes := (Path.GoesOn.refl (root.under names)).join hpath.isAbsolute
  have hsteps : ((root.under names).join path).steps = ((root.under names).join path).names := by
    rw [Path.steps_join (Disk.text_ne_empty_of_isDirectory (h.sees' names hdirectory))
      hpath.text_ne_empty hpath.isAbsolute, Path.names_join _ hpath.isAbsolute, hpath.steps_eq]
  exact h.plain'.closed.lookup_down hfound hgoes hpath.names_ne_nil hpath.isName hadmits.noNul
    hadmits.size_lt hentry' (.inr ⟨rfl, hsteps⟩)

theorem bytesAt_gitignore {content : ByteArray}
    (hbytes : disk.bytesAt cwd (root.join ⟨".gitignore"⟩) = .ok content) :
    disk'.bytesAt cwd (root.join ⟨".gitignore"⟩) = .ok content := by
  rw [Disk.bytesAt_eq_ok_iff] at hbytes ⊢
  obtain ⟨l, executable, hlookup⟩ := hbytes
  have hnone : ∀ name ∈ ([] : List String), Path.IsFileName name := by simp
  refine ⟨l, executable, h.lookup_file hnone descends_gitignore (.inr ?_) hlookup⟩
  rw [List.append_nil]
  rfl

theorem ignoreRules_eq : ignoreRules disk cwd root = ignoreRules disk' cwd root := by
  unfold ignoreRules
  cases hbytes : disk.bytesAt cwd (root.join ⟨".gitignore"⟩) with
  | ok content => rw [h.bytesAt_gitignore hbytes]
  | error reason =>
    cases hbytes' : disk'.bytesAt cwd (root.join ⟨".gitignore"⟩) with
    | ok content => cases hbytes.symm.trans (h.symm.bytesAt_gitignore hbytes')
    | error reason' => rfl

theorem ofConfig_eq (config : Config) :
    Selection.ofConfig disk cwd root config = Selection.ofConfig disk' cwd root config := by
  unfold Selection.ofConfig
  rw [h.ignoreRules_eq]

theorem hasConfig_of {names : List String} (hnames : ∀ name ∈ names, Path.IsFileName name)
    (hconfig : hasConfig disk cwd (root.under names) = true) :
    hasConfig disk' cwd (root.under names) = true := by
  unfold hasConfig Config.path? at hconfig ⊢
  rw [List.find?_isSome] at hconfig ⊢
  obtain ⟨path, hpath, hfile⟩ := hconfig
  obtain ⟨candidate, hcandidate, rfl⟩ := List.mem_map.1 hpath
  obtain ⟨hdescends, front, name, heq, hname⟩ := descends_of_mem_candidates hcandidate
  obtain ⟨l, content, executable, hlookup⟩ := Disk.isFile_iff.1 hfile
  have hsteers : IsSteering (root.place cwd) (root.place cwd ++ names ++ candidate.names) := by
    rw [heq, ← List.append_assoc]
    exact .inl ⟨_, name, rfl, .inr hname⟩
  exact ⟨_, hpath, Disk.isFile_iff.2
    ⟨l, content, executable, h.lookup_file hnames hdescends hsteers hlookup⟩⟩

theorem hasConfig_eq {names : List String} (hnames : ∀ name ∈ names, Path.IsFileName name) :
    hasConfig disk cwd (root.under names) = hasConfig disk' cwd (root.under names) :=
  Bool.eq_iff_iff.2 ⟨h.hasConfig_of hnames, h.symm.hasConfig_of hnames⟩

theorem finds {selection : Selection} {names : List String}
    (hfinds : Walk.Finds disk cwd selection true root names) :
    Walk.Finds disk' cwd selection true root names := by
  have hfile := hfinds.isFileName h.plain.wellNamed
  obtain ⟨_, _, hfirst⟩ := hfinds.exists_head
  have hroot := Disk.text_ne_empty_of_isDirectory hfirst.isDirectory
  obtain ⟨front, name, rfl⟩ : ∃ front name, names = front ++ [name] := by
    have hne : names ≠ [] := by
      rintro rfl
      cases hfinds
    exact ⟨_, _, (List.dropLast_concat_getLast hne).symm⟩
  have hfront := (List.forall_mem_append.1 hfile).1
  obtain ⟨hlists, htakes, henters⟩ := (Walk.finds_concat_iff hroot hfront).1 hfinds
  -- the document is a file, and stands on both disks
  obtain ⟨content, executable, hdocument⟩ : ∃ content executable,
      disk.entryAt? (root.place cwd ++ (front ++ [name])) = some (.file content executable) := by
    obtain ⟨l, hlookup, hmem⟩ := Disk.lists_iff.1 hlists
    obtain ⟨item, hitem, rfl⟩ := List.mem_map.1 hmem
    have hheld := Disk.mem_children_iff.1 hitem
    rw [(h.plain.lookup hlookup).1, Path.place_under cwd root hfront, List.append_assoc] at hheld
    cases hentry : item.2 with
    | file content executable => exact ⟨content, executable, by rw [hheld, hentry]⟩
    | directory =>
      rw [hentry] at hheld
      cases htakes.notDirectory.symm.trans (h.sees _ hheld)
    | link target =>
      rw [hentry] at hheld
      exact absurd hheld (h.plain.noLinks _ (by simp) target)
  have hliterate : literateSuffix.toList <:+ name.toList := by
    have hliterate := htakes.literate
    rw [Path.under_concat] at hliterate
    exact ((isLiterate_join_iff (hfile name (by simp))).1 hliterate).2
  have hdocument' : disk'.entryAt? (root.place cwd ++ (front ++ [name])) =
      some (.file content executable) := by
    refine (h.files _ (.inl ⟨root.place cwd ++ front, name, ?_, .inl hliterate⟩) _ _).1 hdocument
    rw [List.append_assoc]
  -- so all directories above it are there, too
  have habove {part : List String} (hpart : part <+: front) :
      disk'.entryAt? (root.place cwd ++ part) = some .directory := by
    obtain ⟨rest, rfl⟩ := hpart
    have hrest : rest ++ [name] ≠ [] := by simp
    refine h.plain'.closed.above hrest ?_
    rw [List.append_assoc, ← List.append_assoc part, hdocument']
    simp
  have hnot : disk'.isDirectory cwd (root.under (front ++ [name])) = false := by
    rw [← Bool.not_eq_true, h.sees'.isDirectory_iff h.plain' hfile, hdocument']
    simp
  refine (Walk.finds_concat_iff hroot hfront).2 ⟨?lists, ?takes, fun init last hpart => ?enters⟩
  case lists =>
    have hlookup := h.sees'.lookup h.plain' hfront (habove List.prefix_rfl)
    rw [← List.append_assoc] at hdocument'
    have hchild : (name, Entry.file content executable) ∈
        disk'.children (root.place cwd ++ front) := Disk.mem_children_iff.2 hdocument'
    exact Disk.lists_iff.2 ⟨_, hlookup, List.mem_map_of_mem hchild⟩
  case takes =>
    exact ⟨htakes.looked, htakes.passes.congr (htakes.notDirectory.trans hnot.symm), hnot,
      htakes.literate⟩
  case enters =>
    have henter := henters init last hpart
    have hpart' : ∀ other ∈ init ++ [last], Path.IsFileName other :=
      fun other hother => hfront other (hpart.subset hother)
    have hdirectory := h.sees' _ (habove hpart)
    exact ⟨henter.looked, henter.passes.congr (henter.isDirectory.trans hdirectory.symm),
      hdirectory, henter.notOutput, fun hconfig =>
        henter.isRoot_of_hasConfig ((h.hasConfig_eq hpart').trans hconfig)⟩

end SteersAlike

/-! ## The outcome of discovery -/

/-- Where the same files steer, discovery has the same outcome. -/
theorem discover_eq_of_steersAlike {disk disk' : Disk} {cwd : Location} {root : Path}
    (h : SteersAlike disk disk' cwd root) (config : Config) :
    discover disk cwd root config = discover disk' cwd root config := by
  unfold discover
  rw [h.ofConfig_eq]
  cases Selection.ofConfig disk' cwd root config with
  | error error => rfl
  | ok selection =>
    obtain ⟨files, hfiles⟩ := exists_discoverWith_of_plain h.plain cwd root selection
    obtain ⟨files', hfiles'⟩ := exists_discoverWith_of_plain h.plain' cwd root selection
    show discoverWith disk cwd root selection = discoverWith disk' cwd root selection
    rw [hfiles, hfiles', discoverWith_eq_of_finds h.plain.wellNamed h.plain'.wellNamed hfiles
      hfiles' fun names => ⟨h.finds, h.symm.finds⟩]

end LiterateCheck
