import LiterateCheck.Proofs.Disk.Clearing

/-!
# Disks without links

A disk is plain when no link stands on it. There a path leads nowhere but to the place that it
spells.

1. `Location.step` spells one step and `Path.place` a whole path, `..` included. Whatever following
   a path finds on a plain disk lies at its place (`place_of_find`).
2. Making directories, writing files and clearing leave a plain disk plain.
3. Clearing leaves it as it was, or a directory stands at the place and goes with what it holds, or
   only what it holds goes (`Plain.clear_cases`). So no file goes that does not stand below the
   place (`Plain.sameFile_of_clear`).
-/

namespace LiterateCheck

/-! ## The place that a path spells -/

/-- Where a step leads from a directory when no link is followed. -/
def Location.step (here : Location) (step : String) : Location :=
  if step = "." then here else if step = ".." then here.dropLast else here ++ [step]

namespace Location

theorem step_here (here : Location) : step here "." = here := if_pos rfl

theorem step_up (here : Location) : step here ".." = here.dropLast := by
  unfold step
  rw [if_neg (by decide), if_pos rfl]

theorem step_name (here : Location) {name : String} (hhere : name ≠ ".") (hup : name ≠ "..") :
    step here name = here ++ [name] := by
  unfold step
  rw [if_neg hhere, if_neg hup]

theorem foldl_step {names : List String} (hnames : ∀ name ∈ names, name ≠ "." ∧ name ≠ "..")
    (here : Location) : names.foldl step here = here ++ names := by
  induction names generalizing here with
  | nil => exact (List.append_nil here).symm
  | cons name others ih =>
    obtain ⟨hname, hothers⟩ := List.forall_mem_cons.1 hnames
    rw [List.foldl_cons, step_name here hname.1 hname.2, ih hothers, List.append_assoc,
      List.singleton_append]

end Location

namespace Path

/-- The location that a path spells. -/
def place (cwd : Location) (path : Path) : Location :=
  path.names.foldl Location.step (Disk.start cwd path)

theorem place_join (cwd : Location) (base : Path) {path : Path}
    (hrelative : path.isAbsolute = false) :
    (base.join path).place cwd = path.names.foldl Location.step (base.place cwd) := by
  unfold place
  rw [names_join base hrelative, List.foldl_append, Disk.start_join cwd base hrelative]

theorem place_join_name (cwd : Location) (base : Path) {name : String} (hname : IsFileName name) :
    (base.join ⟨name⟩).place cwd = base.place cwd ++ [name] := by
  rw [place_join cwd base hname.isAbsolute, hname.names, List.foldl_cons, List.foldl_nil,
    Location.step_name _ hname.ne_here hname.ne_up]

theorem place_under (cwd : Location) (base : Path) {names : List String}
    (hnames : ∀ name ∈ names, IsFileName name) :
    (base.under names).place cwd = base.place cwd ++ names := by
  obtain ⟨habsolute, hmore⟩ := goesOn_under base fun name hname => (hnames name hname).isStep
  unfold place Disk.start
  rw [habsolute, hmore, List.foldl_append, Location.foldl_step fun name hname =>
    ⟨(hnames name hname).ne_here, (hnames name hname).ne_up⟩]

end Path

namespace Disk

theorem Follows.location_eq_foldl {disk : Disk} (hlinks : disk.NoLinksBelow [])
    {followLast : Bool} {links : Nat} {here : Location} {steps : List String} {found : Found}
    (h : disk.Follows followLast links here steps found) :
    found.location = steps.foldl Location.step here := by
  induction h with
  | stop => rfl
  | stay _ ih => rw [ih, List.foldl_cons, Location.step_here]
  | up _ ih => rw [ih, List.foldl_cons, Location.step_up]
  | into hname _ _ ih => rw [ih, List.foldl_cons, Location.step_name _ hname.ne_here hname.ne_up]
  | file hname _ => exact (Location.step_name _ hname.ne_here hname.ne_up).symm
  | vacant hname _ => exact (Location.step_name _ hname.ne_here hname.ne_up).symm
  | link _ hentry _ => exact absurd hentry (hlinks _ (by simp) _)
  | through _ hentry _ _ _ => exact absurd hentry (hlinks _ (by simp) _)

theorem place_of_find {disk : Disk} (hlinks : disk.NoLinksBelow []) {cwd : Location}
    {followLast : Bool} {path : Path} {tail : List String} (htail : tail = [] ∨ tail = ["."])
    {found : Found} (h : disk.find cwd followLast path (path.names ++ tail) = .ok found) :
    found.location = path.place cwd := by
  rw [(find_eq_ok_iff.1 h).2.location_eq_foldl hlinks, List.foldl_append]
  rcases htail with rfl | rfl
  · rfl
  · exact Location.step_here _

theorem place_of_locate {disk : Disk} (hlinks : disk.NoLinksBelow []) {cwd : Location}
    {path : Path} {found : Found} (h : disk.locate cwd path = .ok found) :
    found.location = path.place cwd := by
  obtain ⟨tail, htail, hsteps⟩ := steps_eq_names_append path
  unfold locate at h
  rw [hsteps] at h
  exact place_of_find hlinks htail h

/-! ## Plain disks -/

/-- A disk without links, on which whatever stands has a name and stands in a directory. -/
structure Plain (disk : Disk) : Prop where
  closed : disk.Closed
  wellNamed : disk.WellNamed
  noLinks : disk.NoLinksBelow []

theorem plain_empty : Disk.empty.Plain where
  closed := closed_empty
  wellNamed := wellNamed_empty
  noLinks names hnames target hentry := by
    rw [List.nil_append, entryAt?, if_neg hnames] at hentry
    cases hentry

/-- On a plain disk what a path leads to stands at the place that the path spells. -/
theorem Plain.lookup {disk : Disk} (h : disk.Plain) {cwd l : Location} {path : Path}
    {held : Entry} (hlookup : disk.lookup cwd path = .ok (l, held)) :
    l = path.place cwd ∧ disk.entryAt? l = some held :=
  ⟨place_of_locate h.noLinks (locate_of_lookup hlookup), h.closed.entryAt?_of_lookup hlookup⟩

/-- Above what stands somewhere there are directories only. -/
theorem Closed.above {disk : Disk} (h : disk.Closed) {l : Location} {names : List String}
    (hnames : names ≠ []) (hsome : disk.entryAt? (l ++ names) ≠ none) :
    disk.entryAt? l = some .directory := by
  induction names generalizing l with
  | nil => exact absurd rfl hnames
  | cons name others ih =>
    refine h l name ?_
    by_cases hothers : others = []
    · subst hothers
      exact hsome
    · rw [List.append_cons] at hsome
      simp [ih hothers hsome]

theorem Closed.follows_down {disk : Disk} (h : disk.Closed) {here : Location}
    {names : List String} (hne : names ≠ []) (hnames : ∀ name ∈ names, IsName name) {held : Entry}
    (hentry : disk.entryAt? (here ++ names) = some held) (hheld : ∀ target, held ≠ .link target)
    (followLast : Bool) (links : Nat) :
    disk.Follows followLast links here names (.entry (here ++ names) held) := by
  induction names generalizing here with
  | nil => exact absurd rfl hne
  | cons name others ih =>
    obtain ⟨hname, hothers⟩ := List.forall_mem_cons.1 hnames
    by_cases hnil : others = []
    · subst hnil
      cases held with
      | file content executable => exact .file hname hentry
      | directory => exact .into hname hentry .stop
      | link target => exact absurd rfl (hheld target)
    · rw [List.append_cons] at hentry ⊢
      exact .into hname (h.above hnil (by rw [hentry]; simp)) (ih hnil hothers hentry)

/-- A path that goes on by names from one that leads to a directory leads to what stands there,
links apart. A file must not be asked for as a directory. -/
theorem Closed.lookup_down {disk : Disk} (h : disk.Closed) {cwd l : Location} {base path : Path}
    {more : List String} (hbase : disk.lookup cwd base = .ok (l, .directory))
    (hgoes : base.GoesOn more path) (hne : more ≠ []) (hnames : ∀ name ∈ more, IsName name)
    (hnul : Text.holdsNul path.text = false) (hsize : path.size < maxPathSize)
    {held : Entry} (hentry : disk.entryAt? (l ++ more) = some held)
    (hheld : held = .directory ∨ held.isFile = true ∧ path.steps = path.names) :
    disk.lookup cwd path = .ok (l ++ more, held) := by
  obtain ⟨hadmits, hfollows⟩ := find_eq_ok_iff.1 (locate_of_lookup hbase)
  obtain ⟨habsolute, hmore⟩ := hgoes
  have hlink : ∀ target, held ≠ .link target := by
    rintro target rfl
    rcases hheld with hheld | ⟨hheld, -⟩ <;> cases hheld
  have hstart : start cwd path = start cwd base := by
    unfold start
    rw [habsolute]
  have hpath : path.isEmpty = false := by
    rw [← Bool.not_eq_true]
    intro hempty
    obtain rfl : path = ⟨""⟩ := congrArg Path.mk (String.isEmpty_iff.1 hempty)
    exact hne (List.append_eq_nil_iff.1 hmore.symm).2
  obtain ⟨left, hwalk⟩ := walk_append (follows_steps_iff.1 hfollows) rfl
  have hnames' : disk.Follows true maxLinks (start cwd path) path.names
      (.entry (l ++ more) held) := by
    rw [hstart, hmore, ← walk_eq_ok_iff, hwalk true _ hne, walk_eq_ok_iff]
    exact h.follows_down hne hnames hentry hlink true left
  refine lookup_of_locate (find_eq_ok_iff.2
    ⟨⟨hnul, hpath, hsize, fun hrelative => hadmits.starts (habsolute ▸ hrelative)⟩, ?_⟩)
  rcases hheld with rfl | ⟨-, hsteps⟩
  · exact follows_steps_iff.2 hnames'
  · rwa [hsteps]

/-- What may be made at the end of steps is made in a directory. -/
theorem Follows.exists_directory {disk : Disk} (hclosed : disk.Closed) {followLast : Bool}
    {links : Nat} {here : Location} {steps : List String} {found : Found}
    (h : disk.Follows followLast links here steps found)
    (hhere : disk.entryAt? here = some .directory) (hfound : found.takesFile = true) :
    ∃ directory name, found.location = directory ++ [name] ∧
      disk.entryAt? directory = some .directory := by
  induction h with
  | stop => cases hfound
  | stay _ ih => exact ih hhere hfound
  | up _ ih => exact ih (hclosed.dropLast hhere) hfound
  | into _ hentry _ ih => exact ih hentry hfound
  | file => exact ⟨_, _, rfl, hhere⟩
  | vacant => exact ⟨_, _, rfl, hhere⟩
  | link => cases hfound
  | through _ _ _ _ _ ih =>
    refine ih ?_ hfound
    split
    · exact entryAt?_nil disk
    · exact hhere

theorem wellNamed_iff {disk : Disk} :
    disk.WellNamed ↔ ∀ l held, disk.entryAt? l = some held → l.WellNamed := by
  constructor
  · exact fun h l held hentry => h.location hentry
  · rintro h ⟨l, held⟩ hitem
    by_cases hl : l = []
    · subst hl
      exact fun name hname => absurd hname List.not_mem_nil
    · exact h l held ((mem_entries_iff hl).1 hitem)

section Operations

variable {before after : Disk} {cwd : Location} {path : Path}

/-- Where nothing goes and only one place is new or written anew, in a directory, all still stands
in directories. -/
theorem Closed.of_one_place (h : before.Closed) {directory : Location} {name : String}
    (hdirectory : before.entryAt? directory = some .directory) (hgrows : Grows before after)
    (helsewhere : ∀ {l}, l ≠ directory ++ [name] → after.entryAt? l = before.entryAt? l) :
    after.Closed := by
  intro directory' name' hsome
  apply hgrows.directory
  by_cases hplace : directory' ++ [name'] = directory ++ [name]
  · rwa [(List.append_inj' hplace rfl).1]
  · rw [helsewhere hplace] at hsome
    exact h directory' name' hsome

theorem Plain.of_one_place (h : before.Plain) {directory : Location} {name : String}
    (hdirectory : before.entryAt? directory = some .directory)
    (hname : Location.WellNamed (directory ++ [name])) (hgrows : Grows before after)
    (helsewhere : ∀ {l}, l ≠ directory ++ [name] → after.entryAt? l = before.entryAt? l) :
    after.Plain where
  closed := h.closed.of_one_place hdirectory hgrows helsewhere
  wellNamed := by
    rw [wellNamed_iff]
    intro l held hentry
    by_cases hl : l = directory ++ [name]
    · rwa [hl]
    · rw [helsewhere hl] at hentry
      exact h.wellNamed.location hentry
  noLinks := h.noLinks.of_grows hgrows

theorem Plain.of_writesFile (h : before.Plain) {found : Found} {content : ByteArray}
    (hlocate : before.locate cwd path = .ok found) (hfound : found.takesFile = true)
    (hwrites : before.WritesFile after found.location content) : after.Plain := by
  obtain ⟨hadmits, hfollows⟩ := find_eq_ok_iff.1 hlocate
  obtain ⟨directory, name, hplace, hdirectory⟩ :=
    hfollows.exists_directory h.closed hadmits.entryAt?_start hfound
  have hname := h.wellNamed.find hlocate fun step => Path.isFileName_of_mem_steps
  rw [hplace] at hname hwrites
  exact h.of_one_place hdirectory hname hwrites.grows hwrites.elsewhere

theorem Plain.makeDirectory (h : before.Plain)
    (hmake : Disk.makeDirectory cwd path before = .ok after) : after.Plain := by
  obtain ⟨directory, name, hfind, rfl⟩ := makeDirectory_eq_ok_iff.1 hmake
  obtain ⟨hadmits, hfollows⟩ := find_eq_ok_iff.1 hfind
  obtain ⟨directory', name', hplace, hdirectory⟩ :=
    hfollows.exists_directory h.closed hadmits.entryAt?_start rfl
  obtain rfl : directory = directory' := (List.append_inj' hplace rfl).1
  exact h.of_one_place hdirectory
    (h.wellNamed.find hfind fun step => Path.isFileName_of_mem_names)
    (addsDirectories_of_makeDirectory hmake).grows fun hl => entryAt?_put_of_ne before _ hl

/-- Something other than a link, put under a free name in a directory. -/
theorem Plain.put {disk : Disk} (h : disk.Plain) {directory : Location} {name : String}
    (hdirectory : disk.entryAt? directory = some .directory) (hname : Path.IsFileName name)
    (hnone : disk.entryAt? (directory ++ [name]) = none) {entry : Entry}
    (hentry : ∀ target, entry ≠ .link target) : (disk.put (directory ++ [name]) entry).Plain := by
  have hgrows : Grows disk (disk.put (directory ++ [name]) entry) := by
    cases entry with
    | file content executable =>
      exact grows_put_file (fun held hheld => by rw [hnone] at hheld; cases hheld) _ _
    | directory => exact grows_put_directory hnone
    | link target => exact absurd rfl (hentry target)
  exact h.of_one_place hdirectory (List.forall_mem_append.2
    ⟨h.wellNamed.location hdirectory, List.forall_mem_singleton.2 hname⟩) hgrows
      fun hl => entryAt?_put_of_ne disk _ hl

theorem Plain.keep (h : before.Plain) {p : Location → Bool}
    (hp : ∀ directory name, p (directory ++ [name]) = true → p directory = true) :
    (before.keep p).Plain where
  closed := by
    intro directory name hsome
    have hextends := extends_keep before p
    have hbefore := h.closed directory name (hextends _ hsome ▸ hsome)
    by_cases hnil : directory = []
    · subst hnil
      rfl
    · rw [entryAt?_keep _ _ (by simp)] at hsome
      rw [entryAt?_keep _ _ hnil, if_pos, hbefore]
      refine hp directory name ?_
      cases hkept : p (directory ++ [name]) with
      | true => rfl
      | false => simp [hkept] at hsome
  wellNamed := h.wellNamed.keep p
  noLinks names hnames target hentry :=
    h.noLinks names hnames target ((extends_keep before p).entryAt? hentry)

theorem Plain.removeBelow (h : before.Plain) (place : Location) :
    (before.removeBelow place).Plain := by
  refine h.keep fun directory name hkept => ?_
  simp only [isBelow, Bool.not_eq_true', Bool.and_eq_false_iff, decide_eq_false_iff_not,
    List.length_append, List.length_singleton] at hkept ⊢
  rcases hkept with hkept | hkept
  · left
    rw [← Bool.not_eq_true, List.isPrefixOf_iff_prefix] at hkept ⊢
    exact fun hdirectory => hkept (hdirectory.trans (List.prefix_append ..))
  · right
    omega

theorem Plain.remove (h : before.Plain) (place : Location) : (before.remove place).Plain := by
  refine h.keep fun directory name hkept => ?_
  rw [Bool.not_eq_true', ← Bool.not_eq_true, List.isPrefixOf_iff_prefix] at hkept ⊢
  exact fun hdirectory => hkept (hdirectory.trans (List.prefix_append ..))

end Operations

/-! ## Files that stay -/

/-- The same file stands at a location on both disks, or a file on neither. -/
def SameFile (disk disk' : Disk) (l : Location) : Prop :=
  ∀ content executable, disk.entryAt? l = some (.file content executable) ↔
    disk'.entryAt? l = some (.file content executable)

namespace SameFile

variable {a b c : Disk} {l : Location}

theorem of_eq (h : b.entryAt? l = a.entryAt? l) : SameFile a b l := by
  intro content executable
  rw [h]

theorem trans (hab : SameFile a b l) (hbc : SameFile b c l) : SameFile a c l :=
  fun content executable => (hab content executable).trans (hbc content executable)

end SameFile

theorem sameFile_of_makeDirectory {cwd : Location} {path : Path} {before after : Disk}
    (h : Disk.makeDirectory cwd path before = .ok after) (l : Location) :
    before.SameFile after l := by
  obtain ⟨place, hplace, rfl⟩ := makeDirectory_eq_ok h
  by_cases hl : l = place
  · subst hl
    intro content executable
    rw [hplace, entryAt?_put_self before _ (ne_nil_of_entryAt?_eq_none hplace)]
    simp
  · exact .of_eq (entryAt?_put_of_ne before _ hl)

/-! ## Clearing -/

section Clearing

variable {before cleared : Disk} {cwd : Location} {path : Path}

theorem Plain.clear_cases (h : before.Plain) (hclear : (clear cwd path).Gives before () cleared) :
    cleared = before ∨ before.entryAt? (path.place cwd) = some .directory ∧
      (cleared = before.removeBelow (path.place cwd) ∨
        cleared = (before.removeBelow (path.place cwd)).remove (path.place cwd)) := by
  obtain ⟨hresult, rfl⟩ := gives_clear_iff.1 hclear
  obtain ⟨tail, htail, hsteps⟩ := steps_eq_names_append path
  rw [run_removeAll] at hresult ⊢
  rcases hfind : before.find cwd false path path.steps with
    reason | ⟨l, ⟨content, executable⟩ | _ | target⟩ | ⟨directory, name⟩
  · exact .inl rfl
  · rw [hfind] at hresult
    rcases hresult with hresult | hresult <;> cases hresult
  · obtain ⟨hadmits, hfollows⟩ := find_eq_ok_iff.1 hfind
    have hentry := hfollows.entryAt?_eq_directory h.closed hadmits.entryAt?_start rfl
    rw [hsteps] at hfind
    obtain rfl : l = path.place cwd := place_of_find h.noLinks htail hfind
    refine .inr ⟨hentry, ?_⟩
    dsimp only
    -- what the directory held is gone however the path is followed then
    split
    · exact .inl rfl
    · exact .inl rfl
    · exact .inl rfl
    · split
      · exact .inl rfl
      · exact .inl rfl
      · exact .inr rfl
  · have hlink := (find_eq_ok_iff.1 hfind).2.entryAt?_eq_some rfl (by simp)
    refine absurd hlink (h.noLinks l ?_ target)
    rintro rfl
    rw [entryAt?_nil] at hlink
    cases hlink
  · exact .inl rfl

theorem Plain.clear (h : before.Plain) (hclear : (Disk.clear cwd path).Gives before () cleared) :
    cleared.Plain := by
  rcases h.clear_cases hclear with rfl | ⟨-, rfl | rfl⟩
  · exact h
  · exact h.removeBelow _
  · exact (h.removeBelow _).remove _

theorem removeBelow_outside (disk : Disk) {place l : Location} (h : isBelow place l = false) :
    (disk.removeBelow place).entryAt? l = disk.entryAt? l := by
  by_cases hl : l = []
  · subst hl
    rfl
  · rw [entryAt?_removeBelow _ _ hl, h, if_neg Bool.false_ne_true]

/-- Of the files, clearing takes only those below the place away. -/
theorem Plain.sameFile_of_clear (h : before.Plain)
    (hclear : (Disk.clear cwd path).Gives before () cleared) {l : Location}
    (hl : ∀ content executable, before.entryAt? l = some (.file content executable) →
      isBelow (path.place cwd) l = false) : before.SameFile cleared l := by
  refine fun content executable => ⟨fun hentry => ?_, (extends_of_clear hclear).entryAt?⟩
  have houtside := hl content executable hentry
  rcases h.clear_cases hclear with rfl | ⟨hdirectory, rfl | rfl⟩
  · exact hentry
  · rwa [removeBelow_outside before houtside]
  · -- where a directory stands there is no file
    have hne : l ≠ path.place cwd := by
      rintro rfl
      cases hdirectory.symm.trans hentry
    have hnot : ¬ path.place cwd <+: l := by
      intro hprefix
      obtain ⟨names, rfl⟩ := hprefix
      have hnames : names ≠ [] := by
        rintro rfl
        exact hne (List.append_nil _)
      rw [isBelow_append hnames] at houtside
      cases houtside
    rwa [entryAt?_remove_outside _ hnot, removeBelow_outside before houtside]

end Clearing

end Disk

end LiterateCheck
