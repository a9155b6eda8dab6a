import LiterateCheck.Proofs.Disk.Listing

/-!
# Disks with the same entries

Two disks agree when the same stands at every location. They may list the entries of a directory in
different orders, and that is all in which they differ: every path leads to the same place on both,
or fails in the same way (`Agrees.find_eq`), and what is read there is the same.
-/

namespace LiterateCheck.Disk

/-- At every location the same stands on both disks. -/
def Agrees (disk disk' : Disk) : Prop :=
  ∀ l, disk.entryAt? l = disk'.entryAt? l

namespace Agrees

variable {disk disk' : Disk}

theorem refl (disk : Disk) : Agrees disk disk := fun _ => rfl

theorem symm (h : Agrees disk disk') : Agrees disk' disk := fun l => (h l).symm

theorem trans {disk'' : Disk} (h : Agrees disk disk') (h' : Agrees disk' disk'') :
    Agrees disk disk'' := fun l => (h l).trans (h' l)

theorem of_perm (h : disk.entries.Perm disk'.entries) : Agrees disk disk' := by
  intro l
  by_cases hl : l = []
  · subst hl
    rfl
  · refine Option.ext fun entry => ?_
    rw [← mem_entries_iff hl, ← mem_entries_iff hl, h.mem_iff]

variable (h : Agrees disk disk')

include h

/-! ## Following a path -/

theorem walk_eq (followLast : Bool) (links : Nat) (here : Location) (steps : List String) :
    disk.walk followLast links here steps = disk'.walk followLast links here steps := by
  fun_induction disk.walk followLast links here steps with
  | case1 links here => rw [walk_nil]
  | case2 links here rest ih => rw [walk_here, ih]
  | case3 links here rest hdot ih => rw [walk_up, ih]
  | case4 links here name rest hdot hup hlong => rw [walk, if_neg hdot, if_neg hup, if_pos hlong]
  | case5 links here name rest hdot hup hlong there hentry hrest =>
    rw [walk_none ⟨hdot, hup, Nat.not_lt.1 hlong⟩ ((h there).symm.trans hentry), if_pos hrest]
  | case6 links here name rest hdot hup hlong there hentry hrest =>
    rw [walk_none ⟨hdot, hup, Nat.not_lt.1 hlong⟩ ((h there).symm.trans hentry), if_neg hrest]
  | case7 links here name rest hdot hup hlong there hentry ih =>
    rw [walk_directory ⟨hdot, hup, Nat.not_lt.1 hlong⟩ ((h there).symm.trans hentry), ih]
  | case8 links here name rest hdot hup hlong there content executable hentry hrest =>
    rw [walk_file ⟨hdot, hup, Nat.not_lt.1 hlong⟩ ((h there).symm.trans hentry), if_pos hrest]
  | case9 links here name rest hdot hup hlong there content executable hentry hrest =>
    rw [walk_file ⟨hdot, hup, Nat.not_lt.1 hlong⟩ ((h there).symm.trans hentry), if_neg hrest]
  | case10 links here name rest hdot hup hlong there target hentry hlast =>
    rw [walk_link ⟨hdot, hup, Nat.not_lt.1 hlong⟩ ((h there).symm.trans hentry), if_pos hlast]
  | case11 links here name rest hdot hup hlong there target hentry hlast hempty =>
    rw [walk_link ⟨hdot, hup, Nat.not_lt.1 hlong⟩ ((h there).symm.trans hentry), if_neg hlast,
      if_pos hempty]
  | case12 here name rest hdot hup hlong there target hentry hlast hempty =>
    rw [walk_link ⟨hdot, hup, Nat.not_lt.1 hlong⟩ ((h there).symm.trans hentry), if_neg hlast,
      if_neg hempty]
  | case13 here name rest hdot hup hlong there target hentry hlast hempty links ih =>
    rw [walk_link ⟨hdot, hup, Nat.not_lt.1 hlong⟩ ((h there).symm.trans hentry), if_neg hlast,
      if_neg hempty]
    exact ih

theorem find_eq (cwd : Location) (followLast : Bool) (path : Path) (steps : List String) :
    disk.find cwd followLast path steps = disk'.find cwd followLast path steps := by
  unfold find
  rw [h.walk_eq, h.walk_eq, h cwd]

theorem locate_eq (cwd : Location) (path : Path) : disk.locate cwd path = disk'.locate cwd path :=
  h.find_eq cwd true path path.steps

theorem lookup_eq (cwd : Location) (path : Path) :
    disk.lookup cwd path = disk'.lookup cwd path := by
  unfold lookup
  rw [h.locate_eq]

/-! ## Looking at what stands there -/

theorem isDirectory_eq (cwd : Location) (path : Path) :
    disk.isDirectory cwd path = disk'.isDirectory cwd path := by
  unfold isDirectory
  rw [h.lookup_eq]

theorem isFile_eq (cwd : Location) (path : Path) :
    disk.isFile cwd path = disk'.isFile cwd path := by
  unfold isFile
  rw [h.lookup_eq]

theorem bytesAt_eq (cwd : Location) (path : Path) :
    disk.bytesAt cwd path = disk'.bytesAt cwd path := by
  unfold bytesAt
  rw [h.lookup_eq]

theorem lists_iff {cwd : Location} {directory : Path} {name : String} :
    disk.Lists cwd directory name ↔ disk'.Lists cwd directory name := by
  rw [Disk.lists_iff, Disk.lists_iff, h.lookup_eq]
  refine exists_congr fun l => and_congr_right fun _ => ?_
  simp only [List.mem_map, mem_children_iff, h (l ++ _)]

/-! ## Changing what stands there -/

theorem put (l : Location) (entry : Entry) : Agrees (disk.put l entry) (disk'.put l entry) := by
  intro l'
  by_cases hl' : l' = []
  · subst hl'
    rfl
  · rw [entryAt?_put _ _ _ hl', entryAt?_put _ _ _ hl', h]

theorem keep (p : Location → Bool) : Agrees (disk.keep p) (disk'.keep p) := by
  intro l
  by_cases hl : l = []
  · subst hl
    rfl
  · rw [entryAt?_keep _ _ hl, entryAt?_keep _ _ hl, h]

/-! ## Paths without links -/

theorem canonical?_eq (cwd : Location) (path : Path) :
    disk.canonical? cwd path = disk'.canonical? cwd path := by
  have hreach : disk.withinReach.Agrees disk'.withinReach := h.keep _
  unfold canonical?
  rw [h cwd, hreach.walk_eq]

end Agrees

/-- Two changes give disks that agree, or fail for the same reason. -/
def AgreesResult (result result' : Except SystemError Disk) : Prop :=
  (∃ made made', result = .ok made ∧ result' = .ok made' ∧ Agrees made made') ∨
    ∃ reason, result = .error reason ∧ result' = .error reason

theorem AgreesResult.ok {made made' : Disk} (h : Agrees made made') :
    AgreesResult (.ok made) (.ok made') := .inl ⟨made, made', rfl, rfl, h⟩

theorem AgreesResult.error (reason : SystemError) :
    AgreesResult (.error reason) (.error reason) := .inr ⟨reason, rfl, rfl⟩

section Changes

variable {disk disk' : Disk} (h : Agrees disk disk')

include h

theorem agreesResult_makeDirectory (cwd : Location) (path : Path) :
    AgreesResult (makeDirectory cwd path disk) (makeDirectory cwd path disk') := by
  unfold makeDirectory
  rw [← h.find_eq]
  split
  · exact .ok (h.put _ _)
  · exact .error _
  · exact .error _

theorem agreesResult_writeBytes (cwd : Location) (path : Path) (keep : Bool) (bytes : ByteArray) :
    AgreesResult (writeBytes cwd path keep bytes disk) (writeBytes cwd path keep bytes disk') := by
  unfold writeBytes
  rw [← h.locate_eq]
  split
  · exact .ok (h.put _ _)
  · exact .error _
  · exact .ok (h.put _ _)
  · exact .error _

theorem agreesResult_copyFile (cwd : Location) (source target : Path) :
    AgreesResult (copyFile cwd source target disk) (copyFile cwd source target disk') := by
  unfold copyFile
  rw [← h.lookup_eq, ← h.locate_eq]
  split
  · split
    · exact .ok (h.put _ _)
    · exact .error _
    · exact .ok (h.put _ _)
    · exact .error _
  · exact .error _
  · exact .error _

end Changes

end LiterateCheck.Disk
