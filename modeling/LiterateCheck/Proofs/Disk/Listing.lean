import LiterateCheck.Proofs.Disk.Hosting
import LiterateCheck.Proofs.Disk.Naming
import LiterateCheck.Proofs.Path.Components

/-!
# What a directory holds

A directory lists a name exactly when something stands at the location that the name makes below
it (`mem_children_iff`), and lists no name twice. What leads to a directory by a file name is
listed (`lists_of_isDirectory_join`), so all paths on the way there lead to directories
(`isDirectory_under_of_prefix`).
-/

namespace LiterateCheck.Disk

/-! ## The entries of a location -/

theorem mem_entries_iff {disk : Disk} {l : Location} (hl : l ≠ []) {entry : Entry} :
    (l, entry) ∈ disk.entries ↔ disk.entryAt? l = some entry := by
  unfold entryAt?
  rw [if_neg hl, List.lookup_eq_some_iff]
  constructor
  · intro hmem
    obtain ⟨front, back, hentries⟩ := List.append_of_mem hmem
    refine ⟨front, back, hentries, fun item hitem => ?_⟩
    -- another entry at that location would stand there twice
    have hdistinct := disk.distinct
    rw [hentries, List.map_append, List.nodup_append] at hdistinct
    have hne := hdistinct.2.2 item.1 (List.mem_map_of_mem hitem) l (List.mem_cons_self ..)
    simpa using Ne.symm hne
  · rintro ⟨front, back, hentries, -⟩
    rw [hentries]
    exact List.mem_append_right _ (List.mem_cons_self ..)

theorem child_eq_some_iff {location other : Location} {entry : Entry} {item : String × Entry} :
    (match other.getLast? with
      | some name => if other.dropLast = location then some (name, entry) else none
      | none => none) = some item ↔ (other, entry) = (location ++ [item.1], item.2) := by
  rw [Prod.mk.injEq]
  constructor
  · intro h
    split at h
    · rename_i name hlast
      obtain ⟨front, rfl⟩ := List.getLast?_eq_some_iff.1 hlast
      split at h
      · rename_i hfront
        cases h
        rw [List.dropLast_concat] at hfront
        exact ⟨by rw [hfront], rfl⟩
      · cases h
    · cases h
  · rintro ⟨rfl, rfl⟩
    rw [List.getLast?_concat]
    dsimp only
    rw [List.dropLast_concat, if_pos rfl]

theorem mem_children_iff {disk : Disk} {location : Location} {item : String × Entry} :
    item ∈ disk.children location ↔ disk.entryAt? (location ++ [item.1]) = some item.2 := by
  rw [← mem_entries_iff (by simp), children, List.mem_filterMap]
  constructor
  · rintro ⟨⟨other, entry⟩, hmem, hchild⟩
    rwa [child_eq_some_iff.1 hchild] at hmem
  · intro hmem
    exact ⟨_, hmem, child_eq_some_iff.2 rfl⟩

theorem nodup_children (disk : Disk) (location : Location) :
    ((disk.children location).map Prod.fst).Nodup := by
  refine List.pairwise_map.2 (List.Pairwise.filterMap _ ?_ (List.pairwise_map.1 disk.distinct))
  intro item item' hne child hchild child' hchild' heq
  have h : item = (location ++ [child.1], child.2) := child_eq_some_iff.1 hchild
  have h' : item' = (location ++ [child'.1], child'.2) := child_eq_some_iff.1 hchild'
  rw [h, h', heq] at hne
  exact hne rfl

/-! ## Names in a directory -/

theorem isDirectory_iff {disk : Disk} {cwd : Location} {path : Path} :
    disk.isDirectory cwd path = true ↔ ∃ l, disk.lookup cwd path = .ok (l, .directory) := by
  unfold isDirectory
  constructor
  · intro h
    split at h
    · rename_i l entry hlookup
      cases entry with
      | directory => exact ⟨l, hlookup⟩
      | file => cases h
      | link => cases h
    · cases h
  · rintro ⟨l, hlookup⟩
    rw [hlookup]
    rfl

theorem isFile_iff {disk : Disk} {cwd : Location} {path : Path} :
    disk.isFile cwd path = true ↔
      ∃ l content executable, disk.lookup cwd path = .ok (l, .file content executable) := by
  unfold isFile
  constructor
  · intro h
    split at h
    · rename_i l entry hlookup
      cases entry with
      | directory => cases h
      | file content executable => exact ⟨l, content, executable, hlookup⟩
      | link => cases h
    · cases h
  · rintro ⟨l, content, executable, hlookup⟩
    rw [hlookup]
    rfl

theorem bytesAt_eq_ok_iff {disk : Disk} {cwd : Location} {path : Path} {content : ByteArray} :
    disk.bytesAt cwd path = .ok content ↔
      ∃ l executable, disk.lookup cwd path = .ok (l, .file content executable) := by
  unfold bytesAt
  constructor
  · intro h
    split at h
    · rename_i l held executable hlookup
      cases h
      exact ⟨l, executable, hlookup⟩
    · cases h
    · cases h
  · rintro ⟨l, executable, hlookup⟩
    rw [hlookup]

/-- Behind a directory, a name that nothing has leads nowhere, and neither does anything below. -/
theorem lookup_ne_ok_of_missing {disk : Disk} {cwd l : Location} {path : Path}
    {front rest : List String} {name : String} (habsolute : path.isAbsolute = true)
    (hfront : disk.Follows true maxLinks [] front (.entry l .directory))
    (hsteps : path.steps = front ++ name :: rest) (hname : IsName name)
    (hnone : disk.entryAt? (l ++ [name]) = none) (found : Location × Entry) :
    disk.lookup cwd path ≠ .ok found := by
  obtain ⟨left, hgo⟩ := walk_append hfront rfl
  intro hlookup
  obtain ⟨-, hfollows⟩ := find_eq_ok_iff.1 (locate_of_lookup hlookup)
  unfold start at hfollows
  rw [if_pos habsolute, hsteps, ← walk_eq_ok_iff, hgo true _ (by simp),
    walk_none hname hnone] at hfollows
  split at hfollows <;> cases hfollows

theorem isFile_eq_false_of_missing {disk : Disk} {cwd l : Location} {path : Path}
    {front rest : List String} {name : String} (habsolute : path.isAbsolute = true)
    (hfront : disk.Follows true maxLinks [] front (.entry l .directory))
    (hsteps : path.steps = front ++ name :: rest) (hname : IsName name)
    (hnone : disk.entryAt? (l ++ [name]) = none) : disk.isFile cwd path = false := by
  rw [Bool.eq_false_iff]
  intro hfile
  obtain ⟨l', content, executable, hlookup⟩ := isFile_iff.1 hfile
  exact lookup_ne_ok_of_missing habsolute hfront hsteps hname hnone _ hlookup

/-- A path leads to a directory that has an entry of that name. -/
def Lists (disk : Disk) (cwd : Location) (directory : Path) (name : String) : Prop :=
  ∃ items, disk.list cwd directory = .ok items ∧ name ∈ items.map Prod.fst

theorem list_of_lookup {disk : Disk} {cwd l : Location} {directory : Path}
    (h : disk.lookup cwd directory = .ok (l, .directory)) :
    disk.list cwd directory = .ok (disk.children l) := by
  unfold list
  rw [h]

theorem lists_iff {disk : Disk} {cwd : Location} {directory : Path} {name : String} :
    disk.Lists cwd directory name ↔
      ∃ l, disk.lookup cwd directory = .ok (l, .directory) ∧
        name ∈ (disk.children l).map Prod.fst := by
  constructor
  · rintro ⟨items, hlist, hname⟩
    unfold list at hlist
    split at hlist
    · rename_i l hlookup
      cases hlist
      exact ⟨l, hlookup, hname⟩
    · cases hlist
    · cases hlist
  · rintro ⟨l, hlookup, hname⟩
    exact ⟨_, list_of_lookup hlookup, hname⟩

theorem Lists.isDirectory {disk : Disk} {cwd : Location} {directory : Path} {name : String}
    (h : disk.Lists cwd directory name) : disk.isDirectory cwd directory = true := by
  obtain ⟨l, hlookup, -⟩ := lists_iff.1 h
  exact isDirectory_iff.2 ⟨l, hlookup⟩

theorem Lists.isFileName {disk : Disk} {cwd : Location} {directory : Path} {name : String}
    (h : disk.Lists cwd directory name) (hnames : disk.WellNamed) : Path.IsFileName name := by
  obtain ⟨l, -, hname⟩ := lists_iff.1 h
  obtain ⟨item, hitem, rfl⟩ := List.mem_map.1 hname
  have hlocation := hnames.location (mem_children_iff.1 hitem)
  exact hlocation item.1 (List.mem_append_right _ (List.mem_singleton_self _))

theorem lists_of_isDirectory_join {disk : Disk} {cwd : Location} {directory : Path}
    {name : String} (hdirectory : directory.text ≠ "") (hname : Path.IsFileName name)
    (h : disk.isDirectory cwd (directory.join ⟨name⟩) = true) : disk.Lists cwd directory name := by
  obtain ⟨middle, hlookup⟩ := isDirectory_iff.1 h
  obtain ⟨l, left, hl, hfollows⟩ :=
    follows_of_locate_join hdirectory hname (locate_of_lookup hlookup)
  have hentry : ∃ entry, disk.entryAt? (l ++ [name]) = some entry := by
    generalize hfound : Found.entry middle .directory = found at hfollows
    cases hfollows with
    | stay => exact absurd rfl hname.ne_here
    | up => exact absurd rfl hname.ne_up
    | into _ hentry _ => exact ⟨_, hentry⟩
    | file _ hentry => exact ⟨_, hentry⟩
    | vacant => cases hfound
    | link _ hentry _ => exact ⟨_, hentry⟩
    | through _ hentry _ _ _ => exact ⟨_, hentry⟩
  obtain ⟨entry, hentry⟩ := hentry
  have hchild : (name, entry) ∈ disk.children l := mem_children_iff.2 hentry
  exact lists_iff.2 ⟨l, hl, List.mem_map_of_mem hchild⟩

/-- A file of a directory is found behind the directory's path, once that way was taken on any
disk: neither the path nor the name is too long. -/
theorem lookup_join_of_entryAt? {disk other : Disk} {cwd place : Location} {directory : Path}
    {name : String} {content : ByteArray} {executable : Bool} {found : Location × Entry}
    (hplace : disk.lookup cwd directory = .ok (place, .directory))
    (hname : Path.IsFileName name)
    (hentry : disk.entryAt? (place ++ [name]) = some (.file content executable))
    (hother : other.lookup cwd (directory.join ⟨name⟩) = .ok found) :
    disk.lookup cwd (directory.join ⟨name⟩) =
      .ok (place ++ [name], .file content executable) := by
  obtain ⟨hadmits, hfront⟩ := find_eq_ok_iff.1 (locate_of_lookup hplace)
  obtain ⟨htaken, -⟩ := find_eq_ok_iff.1 (locate_of_lookup hother)
  obtain ⟨l, left, -, hstep⟩ :=
    follows_of_locate_join hadmits.text_ne_empty hname (locate_of_lookup hother)
  have hshort : IsName name := by
    generalize Found.entry found.1 found.2 = reached at hstep
    cases hstep with
    | stay => exact absurd rfl hname.ne_here
    | up => exact absurd rfl hname.ne_up
    | into hshort => exact hshort
    | file hshort => exact hshort
    | vacant hshort => exact hshort
    | link hshort => exact hshort
    | through hshort => exact hshort
  obtain ⟨left, hwalk⟩ := walk_append (follows_steps_iff.1 hfront) rfl
  refine lookup_of_locate (find_eq_ok_iff.2 ⟨⟨htaken.noNul, htaken.nonempty, htaken.size_lt,
    fun hrelative => hadmits.starts ?_⟩, ?_⟩)
  · exact (Path.isAbsolute_join directory hname.isAbsolute).symm.trans hrelative
  · rw [Path.steps_join_name hadmits.text_ne_empty hname,
      start_join cwd directory hname.isAbsolute, ← walk_eq_ok_iff, hwalk true [name] (by simp),
      walk_eq_ok_iff]
    exact .file hshort hentry

theorem isDirectory_of_under {disk : Disk} {cwd : Location} {directory : Path}
    {names : List String} (hdirectory : directory.text ≠ "")
    (hnames : ∀ name ∈ names, Path.IsFileName name)
    (h : disk.isDirectory cwd (directory.under names) = true) :
    disk.isDirectory cwd directory = true := by
  induction names generalizing directory with
  | nil => exact h
  | cons name others ih =>
    obtain ⟨hname, hothers⟩ := List.forall_mem_cons.1 hnames
    have hjoin := ih (Path.text_join_ne_empty hdirectory hname.isAbsolute) hothers h
    exact (lists_of_isDirectory_join hdirectory hname hjoin).isDirectory

theorem isDirectory_under_of_prefix {disk : Disk} {cwd : Location} {directory : Path}
    {part names : List String} (hdirectory : directory.text ≠ "")
    (hnames : ∀ name ∈ names, Path.IsFileName name) (hpart : part <+: names)
    (h : disk.isDirectory cwd (directory.under names) = true) :
    disk.isDirectory cwd (directory.under part) = true := by
  obtain ⟨back, rfl⟩ := hpart
  rw [List.forall_mem_append] at hnames
  rw [Path.under_append] at h
  exact isDirectory_of_under (Path.text_under_ne_empty hdirectory hnames.1) hnames.2 h

theorem text_ne_empty_of_isDirectory {disk : Disk} {cwd : Location} {directory : Path}
    (h : disk.isDirectory cwd directory = true) : directory.text ≠ "" := by
  obtain ⟨l, hlookup⟩ := isDirectory_iff.1 h
  exact (find_eq_ok_iff.1 (locate_of_lookup hlookup)).1.text_ne_empty

end LiterateCheck.Disk
