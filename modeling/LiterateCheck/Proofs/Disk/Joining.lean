import LiterateCheck.Proofs.Disk.Extending

/-!
# Paths in two stages

What a path names as seen from the directory of another path is also named by the two joined, with
one difference: the joined path is longer, and shares the links that may be followed.
1. `lookupIn` follows the first path, and the second from the directory that it leads to.
2. What the joined path leads to is what the two lead to one after the other (`lookupIn_of_join`).
3. The other way round the joined path leads there too, unless it is too long or the links run out
   (`lookup_join_of_lookupIn`).
4. From an absolute path nothing depends on where it is followed (`lookupIn_of_absolute`).
-/

namespace LiterateCheck.Disk

/-- What a path names as seen from the directory that another path leads to. -/
def lookupIn (disk : Disk) (cwd : Location) (base path : Path) :
    Except SystemError (Location × Entry) :=
  match disk.lookup cwd base with
  | .ok (directory, .directory) => disk.lookup directory path
  | .ok _ => .error .notDirectory
  | .error reason => .error reason

theorem lookupIn_of_lookup {disk : Disk} {cwd directory : Location} {base : Path}
    (h : disk.lookup cwd base = .ok (directory, .directory)) (path : Path) :
    disk.lookupIn cwd base path = disk.lookup directory path := by
  unfold lookupIn
  rw [h]

theorem lookupIn_eq_ok_iff {disk : Disk} {cwd : Location} {base path : Path}
    {found : Location × Entry} :
    disk.lookupIn cwd base path = .ok found ↔ ∃ directory,
      disk.lookup cwd base = .ok (directory, .directory) ∧
        disk.lookup directory path = .ok found := by
  constructor
  · intro h
    unfold lookupIn at h
    split at h
    · rename_i directory hbase
      exact ⟨directory, hbase, h⟩
    · cases h
    · cases h
  · rintro ⟨directory, hbase, hpath⟩
    rw [lookupIn_of_lookup hbase, hpath]

theorem lookup_of_absolute (disk : Disk) {path : Path} (habsolute : path.isAbsolute = true)
    (cwd cwd' : Location) : disk.lookup cwd path = disk.lookup cwd' path := by
  unfold lookup locate find
  rw [if_pos habsolute, if_pos habsolute]

theorem lookupIn_of_absolute (disk : Disk) {base : Path} (habsolute : base.isAbsolute = true)
    (cwd cwd' : Location) (path : Path) :
    disk.lookupIn cwd base path = disk.lookupIn cwd' base path := by
  unfold lookupIn
  rw [disk.lookup_of_absolute habsolute cwd cwd']

section Joined

variable {disk : Disk} {cwd : Location} {base path : Path} {found : Location × Entry}

theorem start_of_relative (cwd : Location) (hrelative : path.isAbsolute = false) :
    start cwd path = cwd := by
  unfold start
  rw [hrelative, if_neg Bool.false_ne_true]

theorem Admits.of_join_end {directory : Location} (h : disk.Admits cwd (base.join path))
    (hrelative : path.isAbsolute = false) (hsteps : path.steps ≠ [])
    (hdirectory : disk.entryAt? directory = some .directory) : disk.Admits directory path := by
  have hnul := (Path.holdsNul_join base hrelative).symm.trans h.noNul
  have hempty : path.isEmpty = false := by
    simpa [Path.isEmpty] using Path.text_ne_empty_of_steps hsteps
  exact ⟨(Bool.or_eq_false_iff.1 hnul).2, hempty,
    Nat.lt_of_le_of_lt (Nat.le_of_add_left_le (Path.size_le_join base hrelative)) h.size_lt,
    fun _ => hdirectory⟩

/-- What a joined path leads to is named by its second part as seen from the first. -/
theorem lookupIn_of_join (hclosed : disk.Closed) (hbase : base.text ≠ "")
    (hrelative : path.isAbsolute = false) (hsteps : path.steps ≠ [])
    (h : disk.lookup cwd (base.join path) = .ok found) :
    disk.lookupIn cwd base path = .ok found := by
  obtain ⟨l, held⟩ := found
  obtain ⟨hadmits, hfollows⟩ := find_eq_ok_iff.1 (locate_of_lookup h)
  rw [Path.steps_join hbase (Path.text_ne_empty_of_steps hsteps) hrelative,
    start_join cwd base hrelative] at hfollows
  obtain ⟨left, directory, hleft, hfront, hback⟩ := hfollows.split rfl hsteps
  have hadmitsBase := hadmits.of_join hbase hrelative
  have hthere : disk.entryAt? directory = some .directory :=
    hfront.entryAt?_eq_directory hclosed hadmitsBase.entryAt?_start rfl
  have hadmitsPath := hadmits.of_join_end hrelative hsteps hthere
  refine lookupIn_eq_ok_iff.2 ⟨directory, ?_, ?_⟩
  · exact lookup_of_locate (find_eq_ok_iff.2 ⟨hadmitsBase, follows_steps_iff.2 hfront⟩)
  · -- the links that the base took are there again for the path alone
    rw [← start_of_relative directory hrelative] at hback
    exact lookup_of_locate (find_eq_ok_iff.2 ⟨hadmitsPath, hback.more_links hleft⟩)

/-- A path that can be followed at all is followed from where it starts. -/
theorem locate_of_admits (h : disk.Admits cwd path) :
    disk.locate cwd path = disk.walk true maxLinks (start cwd path) path.steps := by
  unfold locate find start
  rw [if_neg (by simp [h.noNul]), if_neg (by simp [h.nonempty]),
    if_neg (Nat.not_le.2 h.size_lt)]
  split
  · rfl
  · rename_i habsolute
    rw [if_pos (Entry.any_isDirectory.2 (h.starts (by simpa using habsolute)))]

/-- The other way round, the joined path may be too long, or lead through too many links. -/
theorem lookup_join_of_lookupIn (hbase : base.text ≠ "") (hrelative : path.isAbsolute = false)
    (hsteps : path.steps ≠ []) (h : disk.lookupIn cwd base path = .ok found) :
    disk.lookup cwd (base.join path) = .ok found ∨
      disk.lookup cwd (base.join path) = .error .nameTooLong ∨
      disk.lookup cwd (base.join path) = .error .linkLoop := by
  obtain ⟨l, held⟩ := found
  obtain ⟨directory, hdirectory, hpath⟩ := lookupIn_eq_ok_iff.1 h
  obtain ⟨hadmitsBase, hfront⟩ := find_eq_ok_iff.1 (locate_of_lookup hdirectory)
  obtain ⟨hadmitsPath, hback⟩ := find_eq_ok_iff.1 (locate_of_lookup hpath)
  have hnul : Text.holdsNul (base.join path).text = false := by
    rw [Path.holdsNul_join base hrelative, hadmitsBase.noNul, hadmitsPath.noNul, Bool.or_false]
  have hnonempty := Path.text_join_ne_empty hbase hrelative
  by_cases hsize : (base.join path).size < maxPathSize
  · have hadmits : disk.Admits cwd (base.join path) :=
      ⟨hnul, by simpa [Path.isEmpty] using hnonempty, hsize,
        fun hcwd => hadmitsBase.starts ((Path.isAbsolute_join base hrelative).symm.trans hcwd)⟩
    -- the joined path goes on with the links that its base left over
    obtain ⟨left, hwalk⟩ := walk_append (follows_steps_iff.1 hfront) rfl
    have hlocate : disk.locate cwd (base.join path) = disk.walk true left directory path.steps := by
      rw [locate_of_admits hadmits, start_join cwd base hrelative,
        Path.steps_join hbase (Path.text_ne_empty_of_steps hsteps) hrelative, hwalk true _ hsteps]
    rw [start_of_relative directory hrelative] at hback
    unfold lookup
    rw [hlocate]
    rcases hback.fewer_links left with hok | hloop
    · exact .inl (by rw [hok])
    · exact .inr (.inr (by rw [hloop]))
  · refine .inr (.inl ?_)
    unfold lookup locate find
    rw [if_neg (by simp [hnul]), if_neg (by simpa [Path.isEmpty] using hnonempty),
      if_pos (Nat.not_lt.1 hsize)]

end Joined

end LiterateCheck.Disk
