import LiterateCheck.Proofs.Disk.Growth
import LiterateCheck.Proofs.Path.Joining

/-!
# Paths below a directory

A root path that leads to a directory below which no link stands carries over to the paths that go
on from it: each leads to the location that its names spell below the directory
(`Hosts.location_eq`), and a file that was found there is found again on a disk that grew
(`lookup_file_of_grows`).
-/

namespace LiterateCheck.Disk

/-- A path leads to a directory below which no link stands. -/
structure Hosts (disk : Disk) (cwd : Location) (root : Path) (base : Location) : Prop where
  leads : disk.lookup cwd root = .ok (base, .directory)
  noLinks : disk.NoLinksBelow base

/-- A path leads to a directory below which nothing stands. -/
def LeadsToEmpty (disk : Disk) (cwd : Location) (root : Path) : Prop :=
  ∃ base, disk.lookup cwd root = .ok (base, .directory) ∧
    ∀ names, names ≠ [] → disk.entryAt? (base ++ names) = none

theorem hosts_of_empty {disk : Disk} {cwd base : Location} {root : Path}
    (hleads : disk.lookup cwd root = .ok (base, .directory))
    (hbelow : ∀ names, names ≠ [] → disk.entryAt? (base ++ names) = none) :
    disk.Hosts cwd root base := by
  refine ⟨hleads, fun names hnames target hentry => ?_⟩
  rw [hbelow names hnames] at hentry
  cases hentry

theorem LeadsToEmpty.hosts {disk : Disk} {cwd : Location} {root : Path}
    (h : disk.LeadsToEmpty cwd root) :
    ∃ base, disk.Hosts cwd root base ∧
      ∀ names, names ≠ [] → disk.entryAt? (base ++ names) = none := by
  obtain ⟨base, hleads, hbelow⟩ := h
  exact ⟨base, hosts_of_empty hleads hbelow, hbelow⟩

theorem locate_of_lookup {disk : Disk} {cwd l : Location} {path : Path} {held : Entry}
    (h : disk.lookup cwd path = .ok (l, held)) : disk.locate cwd path = .ok (.entry l held) := by
  unfold lookup at h
  split at h
  · rename_i location entry hlocate
    cases h
    exact hlocate
  · cases h
  · cases h

theorem lookup_of_locate {disk : Disk} {cwd l : Location} {path : Path} {held : Entry}
    (h : disk.locate cwd path = .ok (.entry l held)) : disk.lookup cwd path = .ok (l, held) := by
  unfold lookup
  rw [h]

theorem lookup_of_names {disk : Disk} {path : Path} {names : List String} {l : Location}
    {held : Entry} (hpath : Text.holdsNul path.text = false ∧ path.isEmpty = false ∧
      path.size < maxPathSize) (hsteps : path.steps = names)
    (h : disk.Follows true maxLinks [] names (.entry l held)) :
    disk.lookup [] path = .ok (l, held) := by
  refine lookup_of_locate (find_eq_ok_iff.2 ⟨⟨hpath.1, hpath.2.1, hpath.2.2,
    fun _ => entryAt?_nil disk⟩, ?_⟩)
  unfold start
  rwa [ite_self, hsteps]

theorem place_eq_of_lookup {disk : Disk} {cwd l l' : Location} {path : Path} {held held' : Entry}
    (h : disk.lookup cwd path = .ok (l, held)) (h' : disk.lookup cwd path = .ok (l', held')) :
    l = l' :=
  (Prod.mk.inj (Except.ok.inj (h.symm.trans h'))).1

theorem lookup_root (disk : Disk) : disk.lookup [] ⟨"/"⟩ = .ok ([], .directory) :=
  lookup_of_locate (find_of_follows (by decide) (.stay .stop))

theorem entryAt?_of_lookup_file {disk : Disk} {cwd l : Location} {path : Path}
    {content : ByteArray} {executable : Bool}
    (h : disk.lookup cwd path = .ok (l, .file content executable)) :
    disk.entryAt? l = some (.file content executable) :=
  (find_eq_ok_iff.1 (locate_of_lookup h)).2.entryAt?_eq_some rfl (by simp)

/-- Bytes are read as the text that they are the bytes of, and as no other. -/
theorem fromUTF8?_eq_some_iff {bytes : ByteArray} {text : String} :
    String.fromUTF8? bytes = some text ↔ text.toUTF8 = bytes := by
  unfold String.fromUTF8?
  constructor
  · intro h
    split at h
    · obtain rfl := Option.some.inj h
      rfl
    · cases h
  · rintro rfl
    rw [dif_pos (show text.toUTF8.IsValidUTF8 from text.isValidUTF8)]
    rfl

theorem textAt_of_lookup {disk : Disk} {cwd l : Location} {path : Path} {text : String}
    {executable : Bool} (h : disk.lookup cwd path = .ok (l, .file text.toUTF8 executable)) :
    disk.textAt cwd path = .ok text := by
  unfold textAt bytesAt
  rw [h]
  dsimp only
  rw [fromUTF8?_eq_some_iff.2 rfl]

theorem Admits.of_grows {before after : Disk} {cwd : Location} {path : Path}
    (h : before.Admits cwd path) (hgrows : Grows before after) : after.Admits cwd path :=
  ⟨h.noNul, h.nonempty, h.size_lt, fun hrelative => hgrows.directory (h.starts hrelative)⟩

theorem lookup_directory_of_grows {before after : Disk} {cwd l : Location} {path : Path}
    (h : before.lookup cwd path = .ok (l, .directory)) (hgrows : Grows before after) :
    after.lookup cwd path = .ok (l, .directory) := by
  obtain ⟨hadmits, hfollows⟩ := find_eq_ok_iff.1 (locate_of_lookup h)
  exact lookup_of_locate (find_eq_ok_iff.2
    ⟨hadmits.of_grows hgrows, hfollows.directory_of_grows hgrows rfl⟩)

theorem Hosts.of_grows {before after : Disk} {cwd base : Location} {root : Path}
    (h : before.Hosts cwd root base) (hgrows : Grows before after) :
    after.Hosts cwd root base where
  leads := lookup_directory_of_grows h.leads hgrows
  noLinks := h.noLinks.of_grows hgrows

/-- Where a file was found, or nothing, a disk that grew leads to the file it has there. -/
theorem lookup_file_of_grows {before after : Disk} {cwd : Location} {path : Path} {found : Found}
    (hlocate : before.locate cwd path = .ok found) (hfound : found.takesFile = true)
    (hgrows : Grows before after) {content : ByteArray} {executable : Bool}
    (hafter : after.entryAt? found.location = some (.file content executable)) :
    after.lookup cwd path = .ok (found.location, .file content executable) := by
  obtain ⟨hadmits, hfollows⟩ := find_eq_ok_iff.1 hlocate
  exact lookup_of_locate (find_eq_ok_iff.2
    ⟨hadmits.of_grows hgrows, hfollows.file_of_grows hgrows hfound hafter⟩)

/-- The root's names lead to its directory, whether a separator ends the root or not. -/
theorem Hosts.follows_names {disk : Disk} {cwd base : Location} {root : Path}
    (h : disk.Hosts cwd root base) :
    disk.Follows true maxLinks (start cwd root) root.names (.entry base .directory) :=
  follows_steps_iff.1 (find_eq_ok_iff.1 (locate_of_lookup h.leads)).2

/-- Along a path that goes on from the root, the further steps are followed from its directory. -/
theorem Hosts.follows_more {disk : Disk} {cwd base : Location} {root path : Path}
    (h : disk.Hosts cwd root base) {more tail : List String} (hgoes : root.GoesOn more path)
    {followLast : Bool} {found : Found} (hne : more ++ tail ≠ [])
    (hfollows : disk.Follows followLast maxLinks (start cwd path) (path.names ++ tail) found) :
    ∃ left, disk.Follows followLast left base (more ++ tail) found := by
  have hstart : start cwd path = start cwd root := by
    unfold start
    rw [hgoes.isAbsolute_eq]
  obtain ⟨left, hwalk⟩ := walk_append h.follows_names rfl
  rw [hstart, hgoes.names_eq, List.append_assoc, ← walk_eq_ok_iff, hwalk followLast _ hne,
    walk_eq_ok_iff] at hfollows
  exact ⟨left, hfollows⟩

theorem Hosts.location_eq {disk : Disk} {cwd base : Location} {root path : Path}
    (h : disk.Hosts cwd root base) {more : List String} (hgoes : root.GoesOn more path)
    (hup : ".." ∉ more) {found : Found} (hlocate : disk.locate cwd path = .ok found) :
    found.location = base ++ more.filter (· ≠ ".") := by
  obtain ⟨-, hfollows⟩ := find_eq_ok_iff.1 hlocate
  obtain ⟨tail, htail, hsteps⟩ := steps_eq_names_append path
  rw [hsteps] at hfollows
  obtain ⟨left, hgo⟩ : ∃ left, disk.Follows true left base (more ++ tail) found := by
    by_cases hnil : more ++ tail = []
    · obtain ⟨rfl, rfl⟩ := List.append_eq_nil_iff.1 hnil
      have hstart : start cwd path = start cwd root := by
        unfold start
        rw [hgoes.isAbsolute_eq]
      rw [hstart, hgoes.names_eq, List.append_nil, List.append_nil] at hfollows
      rw [hfollows.found_eq h.follows_names]
      exact ⟨0, .stop⟩
    · exact h.follows_more hgoes hnil hfollows
  have htail' : tail.filter (· ≠ ".") = [] := by
    rcases htail with rfl | rfl <;> decide
  have hup' : ".." ∉ more ++ tail := by
    rw [List.mem_append, not_or]
    exact ⟨hup, by rcases htail with rfl | rfl <;> decide⟩
  rw [hgo.location_eq h.noLinks hup' (List.prefix_refl base), List.filter_append, htail',
    List.append_nil]

/-- A base is shorter than the paths that go on from it, so the system takes it where it takes one
of them. -/
theorem Admits.of_join {disk : Disk} {cwd : Location} {base path : Path}
    (h : disk.Admits cwd (base.join path)) (hbase : base.text ≠ "")
    (hrelative : path.isAbsolute = false) : disk.Admits cwd base := by
  have hnul := (Path.holdsNul_join base hrelative).symm.trans h.noNul
  exact ⟨(Bool.or_eq_false_iff.1 hnul).1, by simpa [Path.isEmpty] using hbase,
    Nat.lt_of_le_of_lt (Nat.le_of_add_right_le (Path.size_le_join base hrelative)) h.size_lt,
    fun hcwd => h.starts ((Path.isAbsolute_join base hrelative).trans hcwd)⟩

theorem start_join (cwd : Location) (base : Path) {path : Path}
    (hrelative : path.isAbsolute = false) : start cwd (base.join path) = start cwd base := by
  unfold start
  rw [Path.isAbsolute_join base hrelative]

/-- A name that can be followed behind a path: the path leads to a directory, and the name is
followed from there. -/
theorem follows_of_locate_join {disk : Disk} {cwd : Location} {directory : Path} {name : String}
    (hdirectory : directory.text ≠ "") (hname : Path.IsFileName name) {found : Found}
    (h : disk.locate cwd (directory.join ⟨name⟩) = .ok found) :
    ∃ l left, disk.lookup cwd directory = .ok (l, .directory) ∧
      disk.Follows true left l [name] found := by
  obtain ⟨hadmits, hfollows⟩ := find_eq_ok_iff.1 h
  rw [Path.steps_join_name hdirectory hname, start_join cwd directory hname.isAbsolute] at hfollows
  obtain ⟨left, l, -, hfront, hlast⟩ := hfollows.split rfl (by simp)
  exact ⟨l, left, lookup_of_locate (find_eq_ok_iff.2
    ⟨hadmits.of_join hdirectory hname.isAbsolute, follows_steps_iff.2 hfront⟩), hlast⟩

/-- The directory of a file below the root, once the file can be followed. -/
theorem Hosts.lookup_directory {disk : Disk} {cwd base : Location} {root directory : Path}
    (h : disk.Hosts cwd root base) {more : List String} (hgoes : root.GoesOn more directory)
    (hup : ".." ∉ more) (hdirectory : directory.text ≠ "") {name : String}
    (hname : Path.IsFileName name) {found : Found}
    (hlocate : disk.locate cwd (directory.join ⟨name⟩) = .ok found) :
    disk.lookup cwd directory = .ok (base ++ more.filter (· ≠ "."), .directory) := by
  obtain ⟨l, -, hlookup, -⟩ := follows_of_locate_join hdirectory hname hlocate
  have hl : l = base ++ more.filter (· ≠ ".") := h.location_eq hgoes hup (locate_of_lookup hlookup)
  rw [hlookup, hl]

end LiterateCheck.Disk
