import LiterateCheck.Disk.Lookup

/-!
# Following a path, as a relation

`Follows disk followLast links here steps found`: from the directory `here` the steps lead to
`found`, with at most `links` links on the way. Its rules are the ways in which one step can go
well, and following steps on a disk succeeds exactly along them (`walk_eq_ok_iff`), so every fact
on lookups is an induction over the rules.
-/

namespace LiterateCheck

/-- A step that is neither `.` nor `..` and not too long for a file name. -/
structure IsName (name : String) : Prop where
  ne_here : name ≠ "."
  ne_up : name ≠ ".."
  size_le : Text.rawSize name ≤ maxNameSize

instance (name : String) : Decidable (IsName name) :=
  decidable_of_iff (name ≠ "." ∧ name ≠ ".." ∧ Text.rawSize name ≤ maxNameSize)
    ⟨fun h => ⟨h.1, h.2.1, h.2.2⟩, fun h => ⟨h.ne_here, h.ne_up, h.size_le⟩⟩

namespace Disk

/-- From a directory the steps lead somewhere. -/
inductive Follows (disk : Disk) (followLast : Bool) :
    Nat → Location → List String → Found → Prop
  | stop {links : Nat} {here : Location} :
    Follows disk followLast links here [] (.entry here .directory)
  | stay {links : Nat} {here : Location} {rest : List String} {found : Found} :
    Follows disk followLast links here rest found →
      Follows disk followLast links here ("." :: rest) found
  | up {links : Nat} {here : Location} {rest : List String} {found : Found} :
    Follows disk followLast links here.dropLast rest found →
      Follows disk followLast links here (".." :: rest) found
  | into {links : Nat} {here : Location} {name : String} {rest : List String} {found : Found} :
    IsName name → disk.entryAt? (here ++ [name]) = some .directory →
      Follows disk followLast links (here ++ [name]) rest found →
      Follows disk followLast links here (name :: rest) found
  | file {links : Nat} {here : Location} {name : String} {content : ByteArray}
    {executable : Bool} :
    IsName name → disk.entryAt? (here ++ [name]) = some (.file content executable) →
      Follows disk followLast links here [name] (.entry (here ++ [name]) (.file content executable))
  | vacant {links : Nat} {here : Location} {name : String} :
    IsName name → disk.entryAt? (here ++ [name]) = none →
      Follows disk followLast links here [name] (.vacant here name)
  | link {links : Nat} {here : Location} {name : String} {target : Path} :
    IsName name → disk.entryAt? (here ++ [name]) = some (.link target) → followLast = false →
      Follows disk followLast links here [name] (.entry (here ++ [name]) (.link target))
  | through {links : Nat} {here : Location} {name : String} {rest : List String} {found : Found}
    {target : Path} :
    IsName name → disk.entryAt? (here ++ [name]) = some (.link target) →
      rest ≠ [] ∨ followLast = true → target.isEmpty = false →
      Follows disk followLast links (if target.isAbsolute then [] else here)
        (target.steps ++ rest) found →
      Follows disk followLast (links + 1) here (name :: rest) found

/-! ## One equation for each way to go on -/

section Steps

variable {disk : Disk} {followLast : Bool} {links : Nat} {here : Location} {name : String}
  {rest : List String}

theorem walk_nil : disk.walk followLast links here [] = .ok (.entry here .directory) := by
  rw [walk]

theorem walk_here :
    disk.walk followLast links here ("." :: rest) = disk.walk followLast links here rest := by
  rw [walk, if_pos rfl]

theorem walk_up :
    disk.walk followLast links here (".." :: rest) =
      disk.walk followLast links here.dropLast rest := by
  rw [walk, if_neg (by decide), if_pos rfl]

theorem walk_none (hname : IsName name) (h : disk.entryAt? (here ++ [name]) = none) :
    disk.walk followLast links here (name :: rest) =
      if rest.isEmpty then .ok (.vacant here name) else .error .notFound := by
  rw [walk, if_neg hname.ne_here, if_neg hname.ne_up, if_neg (Nat.not_lt.2 hname.size_le)]
  simp only [h]

theorem walk_directory (hname : IsName name)
    (h : disk.entryAt? (here ++ [name]) = some .directory) :
    disk.walk followLast links here (name :: rest) =
      disk.walk followLast links (here ++ [name]) rest := by
  rw [walk, if_neg hname.ne_here, if_neg hname.ne_up, if_neg (Nat.not_lt.2 hname.size_le)]
  simp only [h]

theorem walk_file (hname : IsName name) {content : ByteArray} {executable : Bool}
    (h : disk.entryAt? (here ++ [name]) = some (.file content executable)) :
    disk.walk followLast links here (name :: rest) =
      if rest.isEmpty then .ok (.entry (here ++ [name]) (.file content executable))
      else .error .notDirectory := by
  rw [walk, if_neg hname.ne_here, if_neg hname.ne_up, if_neg (Nat.not_lt.2 hname.size_le)]
  simp only [h]

theorem walk_link (hname : IsName name) {target : Path}
    (h : disk.entryAt? (here ++ [name]) = some (.link target)) :
    disk.walk followLast links here (name :: rest) =
      if rest.isEmpty && !followLast then .ok (.entry (here ++ [name]) (.link target))
      else if target.isEmpty then .error .notFound
      else
        match links with
        | 0 => .error .linkLoop
        | links + 1 =>
          disk.walk followLast links (if target.isAbsolute then [] else here)
            (target.steps ++ rest) := by
  rw [walk, if_neg hname.ne_here, if_neg hname.ne_up, if_neg (Nat.not_lt.2 hname.size_le)]
  cases links <;> simp only [h]

end Steps

theorem walk_of_follows {disk : Disk} {followLast : Bool} {links : Nat} {here : Location}
    {steps : List String} {found : Found} (h : disk.Follows followLast links here steps found) :
    disk.walk followLast links here steps = .ok found := by
  induction h with
  | stop => exact walk_nil
  | stay _ ih => rwa [walk_here]
  | up _ ih => rwa [walk_up]
  | into hname hentry _ ih => rwa [walk_directory hname hentry]
  | file hname hentry => rw [walk_file hname hentry]; rfl
  | vacant hname hentry => rw [walk_none hname hentry]; rfl
  | link hname hentry hlast => rw [walk_link hname hentry, hlast]; rfl
  | through hname hentry hgo hempty _ ih =>
    rw [walk_link hname hentry, if_neg, hempty, if_neg Bool.false_ne_true]
    · exact ih
    · rcases hgo with hgo | hgo <;> simp [hgo]

theorem follows_of_walk {disk : Disk} {followLast : Bool} {links : Nat} {here : Location}
    {steps : List String} {found : Found}
    (h : disk.walk followLast links here steps = .ok found) :
    disk.Follows followLast links here steps found := by
  fun_induction disk.walk followLast links here steps with
  | case1 links here => cases h; exact .stop
  | case2 links here rest ih => exact .stay (ih h)
  | case3 links here rest hdot ih => exact .up (ih h)
  | case4 => cases h
  | case5 links here name rest hdot hup hlong there hentry hrest =>
    cases h
    obtain rfl := List.isEmpty_iff.1 hrest
    exact .vacant ⟨hdot, hup, Nat.not_lt.1 hlong⟩ hentry
  | case6 => cases h
  | case7 links here name rest hdot hup hlong there hentry ih =>
    exact .into ⟨hdot, hup, Nat.not_lt.1 hlong⟩ hentry (ih h)
  | case8 links here name rest hdot hup hlong there content executable hentry hrest =>
    obtain rfl := Except.ok.inj h
    obtain rfl := List.isEmpty_iff.1 hrest
    exact .file ⟨hdot, hup, Nat.not_lt.1 hlong⟩ hentry
  | case9 => cases h
  | case10 links here name rest hdot hup hlong there target hentry hlast =>
    obtain rfl := Except.ok.inj h
    obtain ⟨hrest, hlast⟩ := Bool.and_eq_true_iff.1 hlast
    obtain rfl := List.isEmpty_iff.1 hrest
    exact .link ⟨hdot, hup, Nat.not_lt.1 hlong⟩ hentry (by simpa using hlast)
  | case11 => cases h
  | case12 => cases h
  | case13 here name rest hdot hup hlong there target hentry hlast hempty links ih =>
    refine .through ⟨hdot, hup, Nat.not_lt.1 hlong⟩ hentry ?_ (by simpa using hempty) (ih h)
    cases followLast
    · left
      simpa using hlast
    · exact .inr rfl

/-- Following steps succeeds exactly along the rules. -/
theorem walk_eq_ok_iff {disk : Disk} {followLast : Bool} {links : Nat} {here : Location}
    {steps : List String} {found : Found} :
    disk.walk followLast links here steps = .ok found ↔
      disk.Follows followLast links here steps found :=
  ⟨follows_of_walk, walk_of_follows⟩

theorem Follows.found_eq {disk : Disk} {followLast : Bool} {links : Nat} {here : Location}
    {steps : List String} {found found' : Found}
    (h : disk.Follows followLast links here steps found)
    (h' : disk.Follows followLast links here steps found') : found = found' :=
  Except.ok.inj ((walk_of_follows h).symm.trans (walk_of_follows h'))

/-! ## From the working directory -/

/-- A path can be followed at all: the system takes its text, and it starts from a directory. -/
structure Admits (disk : Disk) (cwd : Location) (path : Path) : Prop where
  noNul : Text.holdsNul path.text = false
  nonempty : path.isEmpty = false
  size_lt : path.size < maxPathSize
  starts : path.isAbsolute = false → disk.entryAt? cwd = some .directory

theorem Admits.text_ne_empty {disk : Disk} {cwd : Location} {path : Path}
    (h : disk.Admits cwd path) : path.text ≠ "" := by
  have hnonempty := h.nonempty
  unfold Path.isEmpty at hnonempty
  simpa using hnonempty

theorem find_eq_ok_iff {disk : Disk} {cwd : Location} {followLast : Bool} {path : Path}
    {steps : List String} {found : Found} :
    disk.find cwd followLast path steps = .ok found ↔
      disk.Admits cwd path ∧ disk.Follows followLast maxLinks (start cwd path) steps found := by
  unfold find start
  constructor
  · intro h
    split at h
    · cases h
    rename_i hnul
    split at h
    · cases h
    rename_i hempty
    split at h
    · cases h
    rename_i hsize
    have admits (hcwd : path.isAbsolute = false → disk.entryAt? cwd = some .directory) :
        disk.Admits cwd path :=
      ⟨by simpa using hnul, by simpa using hempty, Nat.not_le.1 hsize, hcwd⟩
    split at h
    · rename_i habsolute
      rw [if_pos habsolute]
      exact ⟨admits fun hrelative => by simp [habsolute] at hrelative, follows_of_walk h⟩
    · rename_i hrelative
      split at h
      · rename_i hcwd
        rw [if_neg hrelative]
        exact ⟨admits fun _ => Entry.any_isDirectory.1 hcwd, follows_of_walk h⟩
      · cases h
  · rintro ⟨hadmits, hfollows⟩
    rw [if_neg (by simp [hadmits.noNul]), if_neg (by simp [hadmits.nonempty]),
      if_neg (Nat.not_le.2 hadmits.size_lt)]
    by_cases habsolute : path.isAbsolute = true
    · rw [if_pos habsolute]
      rw [if_pos habsolute] at hfollows
      exact walk_of_follows hfollows
    · have hcwd := Entry.any_isDirectory.2 (hadmits.starts (by simpa using habsolute))
      rw [if_neg habsolute, if_pos hcwd]
      rw [if_neg habsolute] at hfollows
      exact walk_of_follows hfollows

theorem find_of_absolute (disk : Disk) (cwd : Location) (followLast : Bool) {path : Path}
    (hpath : path.isAbsolute = true ∧ Text.holdsNul path.text = false ∧
      path.size < maxPathSize) (steps : List String) :
    disk.find cwd followLast path steps = disk.walk followLast maxLinks [] steps := by
  obtain ⟨habsolute, hnul, hsize⟩ := hpath
  have hnonempty : ¬ path.isEmpty = true := by
    intro hempty
    unfold Path.isEmpty at hempty
    unfold Path.isAbsolute at habsolute
    rw [String.isEmpty_iff.1 hempty] at habsolute
    cases habsolute
  unfold find
  rw [if_neg (by simp [hnul]), if_neg hnonempty, if_neg (Nat.not_le.2 hsize),
    if_pos habsolute]

theorem find_of_follows {disk : Disk} {cwd : Location} {followLast : Bool} {path : Path}
    {steps : List String} {found : Found}
    (hpath : path.isAbsolute = true ∧ Text.holdsNul path.text = false ∧
      path.size < maxPathSize)
    (hfollows : disk.Follows followLast maxLinks [] steps found) :
    disk.find cwd followLast path steps = .ok found := by
  rw [find_of_absolute disk cwd followLast hpath]
  exact walk_of_follows hfollows

end Disk

end LiterateCheck
