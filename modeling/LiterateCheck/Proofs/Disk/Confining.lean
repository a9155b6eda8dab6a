import LiterateCheck.Proofs.Disk.Hosting
import LiterateCheck.Proofs.Disk.Writing
import LiterateCheck.Proofs.Path.Parents

/-!
# Changes below a directory

What is written below a directory leaves everything else as it was (`ChangesBelow`). A file that is
written below is the simple case. A directory may have to be made together with missing ones that
lead to it, and making those goes up along the path: as long as the path goes on from a root without
a `..`, the ones that are made lie below the root's directory (`changesBelow_of_makeDirectories`),
since going up ends at the root, which is there.
-/

namespace LiterateCheck.Disk

theorem isBelow_append {base names : Location} (hnames : names ≠ []) :
    isBelow base (base ++ names) = true := by
  unfold isBelow
  rw [Bool.and_eq_true_iff, List.isPrefixOf_iff_prefix, decide_eq_true_iff, List.length_append]
  exact ⟨List.prefix_append .., Nat.lt_add_of_pos_right (List.length_pos_iff.2 hnames)⟩

/-- Nothing goes, and what does not lie below a location stays as it is. -/
structure ChangesBelow (base : Location) (before after : Disk) : Prop where
  grows : Grows before after
  elsewhere {l : Location} : isBelow base l = false → after.entryAt? l = before.entryAt? l

namespace ChangesBelow

variable {base : Location} {a b c : Disk}

theorem refl (base : Location) (disk : Disk) : ChangesBelow base disk disk :=
  ⟨.refl disk, fun _ => rfl⟩

theorem trans (hab : ChangesBelow base a b) (hbc : ChangesBelow base b c) :
    ChangesBelow base a c :=
  ⟨hab.grows.trans hbc.grows, fun hl => (hbc.elsewhere hl).trans (hab.elsewhere hl)⟩

theorem of_writesFile {names : Location} {content : ByteArray} (hnames : names ≠ [])
    (h : WritesFile a b (base ++ names) content) : ChangesBelow base a b := by
  refine ⟨h.grows, fun {l} hl => h.elsewhere ?_⟩
  rintro rfl
  rw [isBelow_append hnames] at hl
  cases hl

theorem put_directory {names : Location} (hnames : names ≠ [])
    (hnone : a.entryAt? (base ++ names) = none) :
    ChangesBelow base a (a.put (base ++ names) .directory) := by
  refine ⟨grows_put_directory hnone, fun {l} hl => entryAt?_put_of_ne a _ ?_⟩
  rintro rfl
  rw [isBelow_append hnames] at hl
  cases hl

end ChangesBelow

/-! ## On the way up to a root -/

/-- Steps that stay where they are. -/
def AllHere (steps : List String) : Prop := steps.filter (· ≠ ".") = []

theorem allHere_append {front back : List String} :
    AllHere (front ++ back) ↔ AllHere front ∧ AllHere back := by
  unfold AllHere
  rw [List.filter_append, List.append_eq_nil_iff]

/-- Steps that stay where they are make no difference behind a directory. -/
theorem follows_append_allHere_iff {disk : Disk} {links : Nat} {here l : Location}
    {steps idle : List String} (hidle : AllHere idle) :
    disk.Follows true links here (steps ++ idle) (.entry l .directory) ↔
      disk.Follows true links here steps (.entry l .directory) := by
  induction idle generalizing steps with
  | nil => rw [List.append_nil]
  | cons step idle ih =>
    obtain ⟨hstep, hidle⟩ := allHere_append.1 (show AllHere ([step] ++ idle) from hidle)
    obtain rfl : step = "." := by simpa [AllHere] using hstep
    rw [List.append_cons, ih hidle]
    exact ⟨fun h => h.of_append_here rfl rfl, .append_here⟩

/-- Where steps lead to a directory, something stands at their end, links followed or not. -/
theorem Follows.exists_entry {disk : Disk} {links : Nat} {here l : Location}
    {steps : List String} {found : Found} (h : disk.Follows true links here steps found)
    (hfound : found = .entry l .directory) :
    ∃ l' held, disk.Follows false links here steps (.entry l' held) := by
  induction h with
  | stop => exact ⟨_, _, .stop⟩
  | stay _ ih =>
    obtain ⟨l', held, ih⟩ := ih hfound
    exact ⟨l', held, .stay ih⟩
  | up _ ih =>
    obtain ⟨l', held, ih⟩ := ih hfound
    exact ⟨l', held, .up ih⟩
  | into hname hentry _ ih =>
    obtain ⟨l', held, ih⟩ := ih hfound
    exact ⟨l', held, .into hname hentry ih⟩
  | file => cases hfound
  | vacant => cases hfound
  | link _ _ hlast => cases hlast
  | @through links here name rest _ target hname hentry hgo hempty _ ih =>
    by_cases hrest : rest = []
    · subst hrest
      exact ⟨_, _, .link hname hentry rfl⟩
    · obtain ⟨l', held, ih⟩ := ih hfound
      exact ⟨l', held, .through hname hentry (.inl hrest) hempty ih⟩

/-- A path that is met on the way up from one that goes on from a root: it goes on from the root
itself, or it differs from the root by steps at the end that stay where they are. -/
inductive OnTheWay (root path : Path) : Prop
  | beyond {more : List String} : root.GoesOn more path → ".." ∉ more → ¬ AllHere more →
    OnTheWay root path
  | atRoot {steps idle idle' : List String} : path.isAbsolute = root.isAbsolute →
    path.names = steps ++ idle → root.names = steps ++ idle' → AllHere idle → AllHere idle' →
    OnTheWay root path

theorem onTheWay_of_goesOn {root path : Path} {more : List String} (hgoes : root.GoesOn more path)
    (hup : ".." ∉ more) : OnTheWay root path := by
  by_cases hmore : AllHere more
  · exact .atRoot hgoes.isAbsolute_eq hgoes.names_eq (List.append_nil _).symm hmore rfl
  · exact .beyond hgoes hup hmore

section Hosting

variable {disk before after : Disk} {cwd base : Location} {root path : Path}

theorem makeDirectory_atRoot (hosts : disk.Hosts cwd root base) {steps idle idle' : List String}
    (habsolute : path.isAbsolute = root.isAbsolute) (hnames : path.names = steps ++ idle)
    (hroot : root.names = steps ++ idle') (hidle : AllHere idle) (hidle' : AllHere idle')
    (hpath : path.isEmpty = false) :
    makeDirectory cwd path disk = .error .nulInName ∨
      makeDirectory cwd path disk = .error .nameTooLong ∨
      makeDirectory cwd path disk = .error .alreadyExists := by
  have hstart : start cwd path = start cwd root := by
    unfold start
    rw [habsolute]
  have hleads := hosts.follows_names
  rw [hroot, follows_append_allHere_iff hidle', ← follows_append_allHere_iff hidle, ← hnames,
    ← hstart] at hleads
  obtain ⟨l, held, hleads⟩ := hleads.exists_entry rfl
  have hadmits := (find_eq_ok_iff.1 (locate_of_lookup hosts.leads)).1
  cases hnul : Text.holdsNul path.text with
  | true =>
    left
    unfold makeDirectory find
    rw [if_pos hnul]
  | false =>
    right
    by_cases hsize : path.size < maxPathSize
    · right
      unfold makeDirectory
      rw [find_eq_ok_iff.2 ⟨⟨hnul, hpath, hsize, fun h => hadmits.starts (habsolute ▸ h)⟩, hleads⟩]
    · left
      unfold makeDirectory find
      rw [if_neg (by simp [hnul]), hpath, if_neg Bool.false_ne_true,
        if_pos (Nat.not_lt.1 hsize)]

theorem OnTheWay.changesBelow (hway : OnTheWay root path) (hosts : before.Hosts cwd root base)
    (h : makeDirectory cwd path before = .ok after) : ChangesBelow base before after := by
  obtain ⟨directory, name, hfind, rfl⟩ := makeDirectory_eq_ok_iff.1 h
  obtain ⟨hadmits, hfollows⟩ := find_eq_ok_iff.1 hfind
  cases hway with
  | @beyond more hgoes hup hmore =>
    have hne : more ++ [] ≠ [] := by
      rw [List.append_nil]
      rintro rfl
      exact hmore rfl
    rw [← List.append_nil path.names] at hfollows
    obtain ⟨left, hmade⟩ := hosts.follows_more hgoes hne hfollows
    rw [List.append_nil] at hmade
    have hplace : directory ++ [name] = base ++ more.filter (· ≠ ".") :=
      hmade.location_eq hosts.noLinks hup (List.prefix_refl base)
    have hnone := hmade.entryAt?_eq_none rfl
    rw [hplace] at hnone ⊢
    exact .put_directory hmore hnone
  | atRoot habsolute hnames hroot hidle hidle' =>
    have hmake := makeDirectory_atRoot hosts habsolute hnames hroot hidle hidle' hadmits.nonempty
    rw [h] at hmake
    rcases hmake with hmake | hmake | hmake <;> cases hmake

/-- Going up from a path on the way, for a directory that is missing, stays on the way. -/
theorem OnTheWay.parent (hway : OnTheWay root path) (hosts : disk.Hosts cwd root base)
    (h : makeDirectory cwd path disk = .error .notFound) {parent : Path}
    (hparent : path.parent? = some parent) : OnTheWay root parent := by
  have habove := Path.isAbsolute_of_parent? hparent
  obtain ⟨dropped, hdropped, hlength⟩ := Path.names_of_parent? hparent
  cases hway with
  | @beyond more hgoes hup hmore =>
    rw [hgoes.names_eq, List.append_eq_append_iff] at hdropped
    rcases hdropped with ⟨kept, hnames, rfl⟩ | ⟨short, hroot, rfl⟩
    · exact onTheWay_of_goesOn ⟨habove.trans hgoes.isAbsolute_eq, hnames⟩
        fun hmem => hup (List.mem_append_left _ hmem)
    · -- only one of the steps that were dropped counts, and it is not one of the root's
      have hshort : AllHere short := by
        unfold AllHere at hmore ⊢
        rw [List.filter_append, List.length_append] at hlength
        rw [← List.length_eq_zero_iff] at hmore ⊢
        omega
      exact .atRoot (habove.trans hgoes.isAbsolute_eq) (List.append_nil _).symm hroot rfl hshort
  | atRoot habsolute hnames hroot hidle hidle' =>
    have hpath : path.isEmpty = false := by
      cases hempty : path.isEmpty with
      | false => rfl
      | true =>
        obtain rfl : path = ⟨""⟩ := congrArg Path.mk (String.isEmpty_iff.1 hempty)
        cases hparent
    have hmake := makeDirectory_atRoot hosts habsolute hnames hroot hidle hidle' hpath
    rw [h] at hmake
    rcases hmake with hmake | hmake | hmake <;> cases hmake

/-- Making the directory of a path that goes on from a root, and the missing ones that lead to it,
changes the disk below the root's directory only, whether it succeeds or not. -/
theorem changesBelow_of_makeDirectories (hosts : disk.Hosts cwd root base) {more : List String}
    (hgoes : root.GoesOn more path) (hup : ".." ∉ more) (fuel : Nat) :
    ChangesBelow base disk ((makeDirectories cwd fuel path).run.run disk).2 :=
  makeDirectories_rel (ChangesBelow base)
    (fun disk path => disk.Hosts cwd root base ∧ OnTheWay root path) (.refl base) .trans
    (fun ⟨hosts, hway⟩ hmake => hway.changesBelow hosts hmake)
    (fun ⟨hosts, hway⟩ hmissing hparent => ⟨hosts, hway.parent hosts hmissing hparent⟩)
    (fun hchanges ⟨hosts, hway⟩ => ⟨hosts.of_grows hchanges.grows, hway⟩)
    fuel ⟨hosts, onTheWay_of_goesOn hgoes hup⟩

end Hosting

end LiterateCheck.Disk
