import LiterateCheck.Proofs.Disk.Extending
import LiterateCheck.Proofs.Run.Alike

/-!
# Clearing a directory and making it anew

What was at a path goes, and an empty directory takes its place. This holds when the path designates
a place (`Designates`): the way there does not run through what stands at the place, and a link
there is not followed.

1. Making a directory, with the missing ones that lead to it, makes these and no others
   (`makesWay_of_makeAll`), and the path leads there afterwards (`isDirectory_of_makeAll`).
2. Clearing a designated place and making its directory leaves the disk without what was there and
   with the directory (`Designates.agrees_of_clear_makeAll`). Both can be done whenever a directory
   stands there (`Designates.clear_makeAll_of_directory`).
-/

namespace LiterateCheck.Disk

/-! ## Making a directory -/

theorem follows_into_place {disk : Disk} {directory : Location} {name : String}
    {tail : List String} (hname : IsName name)
    (hentry : disk.entryAt? (directory ++ [name]) = some .directory)
    (htail : tail = [] ∨ tail = ["."]) (followLast : Bool) (links : Nat) :
    disk.Follows followLast links directory (name :: tail)
      (.entry (directory ++ [name]) .directory) := by
  rcases htail with rfl | rfl
  · exact .into hname hentry .stop
  · exact .into hname hentry (.stay .stop)

theorem extends_put {disk : Disk} {place : Location} (h : disk.entryAt? place = none)
    (entry : Entry) : disk.Extends (disk.put place entry) := by
  intro l hsome
  refine entryAt?_put_of_ne disk entry ?_
  rintro rfl
  exact hsome h

theorem isDirectory_of_makeDirectory {cwd : Location} {path : Path} {before after : Disk}
    (h : makeDirectory cwd path before = .ok after) : after.isDirectory cwd path = true := by
  obtain ⟨directory, name, hfind, rfl⟩ := makeDirectory_eq_ok_iff.1 h
  obtain ⟨tail, htail, hsteps⟩ := steps_eq_names_append path
  have hfollows := (find_eq_ok_iff.1 hfind).2
  have hnone := hfollows.entryAt?_eq_none rfl
  have hplace := entryAt?_put_self before .directory (ne_nil_of_entryAt?_eq_none hnone)
  rw [isDirectory_iff]
  refine ⟨directory ++ [name], lookup_of_locate ?_⟩
  unfold locate
  rw [hsteps]
  exact find_at_place (extends_put hnone _) hfind fun links =>
    follows_into_place (hfollows.last_of_vacant rfl rfl).1 hplace htail true links

theorem isDirectory_of_makeAll {cwd : Location} {path : Path} {before after : Disk}
    (hpath : path.isEmpty = false) (h : (makeAll cwd path).Gives before () after) :
    after.isDirectory cwd path = true := by
  unfold OnDisk.Gives makeAll at h
  rw [run_makeDirectories, hpath, if_neg Bool.false_ne_true] at h
  split at h
  · rename_i made hmade
    cases h
    exact isDirectory_of_makeDirectory hmade
  split at h
  · split at h
    · cases h
    split at h
    · cases h
    split at h
    · rename_i made hmade
      cases h
      exact isDirectory_of_makeDirectory hmade
    split at h
    · rename_i hdirectory
      cases h
      exact hdirectory
    · cases h
  · split at h
    · rename_i hdirectory
      cases h
      exact hdirectory
    · cases h

/-- Where something stands already, making a directory succeeds when that leads to a directory. -/
theorem isDirectory_of_makeAll_of_entry {cwd l : Location} {path : Path} {held : Entry}
    {disk after : Disk} (hfind : disk.find cwd false path path.names = .ok (.entry l held))
    (h : (makeAll cwd path).Gives disk () after) : disk.isDirectory cwd path = true := by
  have hmake : makeDirectory cwd path disk = .error .alreadyExists := by
    unfold makeDirectory
    rw [hfind]
  unfold OnDisk.Gives makeAll at h
  rw [run_makeDirectories, (find_eq_ok_iff.1 hfind).1.nonempty, if_neg Bool.false_ne_true,
    hmake] at h
  dsimp only at h
  rw [if_neg (by decide)] at h
  split at h
  · assumption
  · cases h

/-- From one disk to the other only directories are made that lie on the way of a path. -/
structure MakesWay (cwd : Location) (path : Path) (before after : Disk) : Prop where
  keeps : before.Extends after
  made {l : Location} : before.entryAt? l = none → after.entryAt? l ≠ none →
    after.entryAt? l = some .directory ∧ ∃ front, front <+: path.names ∧
      after.Follows true maxLinks (start cwd path) front (.entry l .directory)

namespace MakesWay

variable {cwd : Location} {path : Path} {a b c : Disk}

theorem refl (cwd : Location) (path : Path) (disk : Disk) : MakesWay cwd path disk disk :=
  ⟨.refl disk, fun hnone hsome => absurd hnone hsome⟩

/-- What stands afterwards, directories apart, stood there before. -/
theorem of_entry (h : MakesWay cwd path a b) {l : Location} {held : Entry}
    (hentry : b.entryAt? l = some held) (hheld : held ≠ .directory) :
    a.entryAt? l = some held := by
  rcases hbefore : a.entryAt? l with _ | before
  · have hdirectory := (h.made hbefore (by simp [hentry])).1
    rw [hentry] at hdirectory
    exact absurd (Option.some.inj hdirectory) hheld
  · exact (h.keeps.entryAt? hbefore).symm.trans hentry

theorem grows (h : MakesWay cwd path a b) : Grows a b where
  directory hentry := h.keeps.entryAt? hentry
  link := ⟨fun hentry => h.of_entry hentry (by simp), fun hentry => h.keeps.entryAt? hentry⟩
  file hentry := ⟨_, _, h.keeps.entryAt? hentry⟩

theorem trans (hab : MakesWay cwd path a b) (hbc : MakesWay cwd path b c) :
    MakesWay cwd path a c := by
  refine ⟨hab.keeps.trans hbc.keeps, fun {l} hnone hsome => ?_⟩
  rcases hmiddle : b.entryAt? l with _ | held
  · exact hbc.made hmiddle hsome
  · obtain ⟨hdirectory, front, hfront, hfollows⟩ := hab.made hnone (by simp [hmiddle])
    exact ⟨hbc.keeps.entryAt? hdirectory, front, hfront,
      hfollows.directory_of_grows hbc.grows rfl⟩

theorem of_makeDirectory {on : Path} (habsolute : on.isAbsolute = path.isAbsolute)
    (hnames : on.names <+: path.names) (h : makeDirectory cwd on a = .ok b) :
    MakesWay cwd path a b := by
  obtain ⟨directory, name, hfind, rfl⟩ := makeDirectory_eq_ok_iff.1 h
  have hfollows := (find_eq_ok_iff.1 hfind).2
  have hnone := hfollows.entryAt?_eq_none rfl
  have hplace := entryAt?_put_self a .directory (ne_nil_of_entryAt?_eq_none hnone)
  have hstart : start cwd on = start cwd path := by
    unfold start
    rw [habsolute]
  refine ⟨extends_put hnone _, fun {l} hbefore hafter => ?_⟩
  by_cases hl : l = directory ++ [name]
  · subst hl
    refine ⟨hplace, on.names, hnames, ?_⟩
    rw [← List.append_nil on.names, ← hstart]
    exact hfollows.at_place (extends_put hnone _) rfl
      (follows_into_place (hfollows.last_of_vacant rfl rfl).1 hplace (.inl rfl) true)
  · rw [entryAt?_put_of_ne _ _ hl] at hafter
    exact absurd hbefore hafter

end MakesWay

theorem makesWay_of_makeAll {cwd : Location} {path : Path} {before after : Disk}
    (h : (makeAll cwd path).Gives before () after) : MakesWay cwd path before after := by
  have hway : MakesWay cwd path before
      ((makeDirectories cwd (path.parts.length + 1) path).run.run before).2 := by
    refine makeDirectories_rel (MakesWay cwd path)
      (fun _ on => on.isAbsolute = path.isAbsolute ∧ on.names <+: path.names)
      (.refl cwd path) .trans (fun ⟨habsolute, hnames⟩ => .of_makeDirectory habsolute hnames)
      (fun ⟨habsolute, hnames⟩ _ hparent => ?_) (fun _ h => h) _ ⟨rfl, List.prefix_rfl⟩
    obtain ⟨dropped, hdropped, -⟩ := Path.names_of_parent? hparent
    exact ⟨(Path.isAbsolute_of_parent? hparent).trans habsolute,
      (hdropped ▸ List.prefix_append ..).trans hnames⟩
  rwa [show (makeDirectories cwd (path.parts.length + 1) path).run.run before = _ from h] at hway

/-! ## Clearing a designated place -/

/-- Removes what stands at a path, if anything does. -/
def clear (cwd : Location) (path : Path) : OnDisk Unit :=
  tryCatch (removeAll cwd path) fun reason => if reason = .notFound then pure () else throw reason

theorem uniform_clear (cwd : Location) (path : Path) : OnDisk.Uniform (clear cwd path) := by
  refine (uniform_removeAll cwd path).tryCatch fun reason disk disk' hagrees => ?_
  split <;> exact ⟨rfl, hagrees⟩

/-- Clearing succeeds as removing does, or when there is nothing to remove. -/
theorem gives_clear_iff {cwd : Location} {path : Path} {before after : Disk} :
    (clear cwd path).Gives before () after ↔
      (((removeAll cwd path).run.run before).1 = .ok () ∨
        ((removeAll cwd path).run.run before).1 = .error .notFound) ∧
      ((removeAll cwd path).run.run before).2 = after := by
  unfold OnDisk.Gives clear
  rw [OnDisk.run_tryCatch]
  rcases (removeAll cwd path).run.run before with ⟨reason | ⟨⟩, middle⟩
  · by_cases hreason : reason = .notFound
    · subst hreason
      constructor
      · intro h
        cases h
        exact ⟨.inr rfl, rfl⟩
      · rintro ⟨-, rfl⟩
        rfl
    · show (if reason = .notFound then pure () else throw reason : OnDisk Unit).run.run middle =
        (.ok (), after) ↔ _
      rw [if_neg hreason]
      constructor
      · intro h
        cases h
      · rintro ⟨h | h, -⟩
        · cases h
        · exact absurd (Except.error.inj h) hreason
  · constructor
    · intro h
      cases h
      exact ⟨.inl rfl, rfl⟩
    · rintro ⟨-, rfl⟩
      rfl

/-- Where the path leads to nothing there is nothing to clear. -/
theorem gives_clear_of_vacant {cwd directory : Location} {path : Path} {name : String}
    {disk : Disk} (h : disk.find cwd false path path.steps = .ok (.vacant directory name)) :
    (clear cwd path).Gives disk () disk := by
  rw [gives_clear_iff, run_removeAll, h]
  exact ⟨.inr rfl, rfl⟩

theorem gives_clear_of_notFound {cwd : Location} {path : Path} {disk : Disk}
    (h : disk.find cwd false path path.steps = .error .notFound) :
    (clear cwd path).Gives disk () disk := by
  rw [gives_clear_iff, run_removeAll, h]
  exact ⟨.inr rfl, rfl⟩

theorem extends_of_clear {cwd : Location} {path : Path} {before after : Disk}
    (h : (clear cwd path).Gives before () after) : after.Extends before :=
  (gives_clear_iff.1 h).2 ▸ extends_removeAll cwd path before

/-- A path designates a place: the way there does not run through what stands at the place, and
what the path leads to, if anything, stands there. -/
structure Designates (disk : Disk) (cwd : Location) (path : Path) (place : Location) : Prop where
  /-- Without what stands there, the place is free. -/
  free : ∃ directory name, place = directory ++ [name] ∧
    (disk.remove place).find cwd false path path.names = .ok (.vacant directory name)
  /-- A link at the place is not followed. -/
  taken {l : Location} {held : Entry} :
    disk.find cwd false path path.steps = .ok (.entry l held) → l = place

section Designating

variable {disk : Disk} {cwd place : Location} {path : Path}

theorem Designates.ne_nil (h : disk.Designates cwd path place) : place ≠ [] := by
  obtain ⟨directory, name, rfl, -⟩ := h.free
  simp

/-- On a disk that has all else, a directory at the place is found. -/
theorem Designates.find_directory (h : disk.Designates cwd path place) {larger : Disk}
    (hextends : (disk.remove place).Extends larger)
    (hplace : larger.entryAt? place = some .directory) (followLast : Bool) {tail : List String}
    (htail : tail = [] ∨ tail = ["."]) :
    larger.find cwd followLast path (path.names ++ tail) = .ok (.entry place .directory) := by
  obtain ⟨directory, name, rfl, hfree⟩ := h.free
  have hname := ((find_eq_ok_iff.1 hfree).2.last_of_vacant rfl rfl).1
  exact find_at_place hextends hfree fun links =>
    follows_into_place hname hplace htail followLast links

/-- Whatever stands at the place is found, when a link is not to be followed. -/
theorem Designates.find_entry (h : disk.Designates cwd path place) {held : Entry}
    (hplace : disk.entryAt? place = some held) (followLast : Bool)
    (hlink : followLast = false ∨ ∀ target, held ≠ .link target) :
    disk.find cwd followLast path path.names = .ok (.entry place held) := by
  obtain ⟨directory, name, rfl, hfree⟩ := h.free
  have hname := ((find_eq_ok_iff.1 hfree).2.last_of_vacant rfl rfl).1
  rw [← List.append_nil path.names]
  refine find_at_place (extends_keep disk _) hfree fun links => ?_
  cases held with
  | file content executable => exact .file hname hplace
  | directory => exact .into hname hplace .stop
  | link target => exact .link hname hplace (hlink.resolve_right fun hne => hne target rfl)

theorem Designates.run_removeAll (h : disk.Designates cwd path place)
    (hplace : disk.entryAt? place = some .directory) :
    (removeAll cwd path).run.run disk = (.ok (), (disk.removeBelow place).remove place) := by
  obtain ⟨tail, htail, hsteps⟩ := steps_eq_names_append path
  have hfind : disk.find cwd false path path.steps = .ok (.entry place .directory) := by
    rw [hsteps]
    exact h.find_directory (extends_keep disk _) hplace false htail
  have hbelow : (disk.removeBelow place).entryAt? place = some .directory := by
    rw [entryAt?_removeBelow _ _ h.ne_nil, if_neg (by simp [isBelow]), hplace]
  have hagain := h.find_directory (extends_removeBelow h.ne_nil) hbelow false (.inl rfl)
  rw [List.append_nil] at hagain
  have hwalk := walk_of_follows (find_eq_ok_iff.1 hagain).2
  -- the last step is the name of the place
  obtain ⟨directory, name, -, hfree⟩ := h.free
  obtain ⟨hname, hlast⟩ := (find_eq_ok_iff.1 hfree).2.last_of_vacant rfl rfl
  rw [Disk.run_removeAll, hfind]
  dsimp only
  rw [hwalk, hlast]
  dsimp only
  split
  · rename_i hdot
    exact absurd (Option.some.inj hdot) hname.ne_here
  · rename_i hup
    exact absurd (Option.some.inj hup) hname.ne_up
  · rfl

theorem Designates.agrees_of_not_found (h : disk.Designates cwd path place) (hclosed : disk.Closed)
    (hnone : ∀ l held, disk.find cwd false path path.steps ≠ .ok (.entry l held)) {made : Disk}
    (hmake : (makeAll cwd path).Gives disk () made) : disk.Agrees (disk.remove place) := by
  rcases hplace : disk.entryAt? place with _ | held
  · intro l
    by_cases hl : place <+: l
    · rw [hclosed.eq_none_inside hplace hl, entryAt?_remove_inside _ h.ne_nil hl]
    · rw [entryAt?_remove_outside _ hl]
  · -- what stands there is not followed to a directory, so none can be made
    have hfind := h.find_entry hplace false (.inl rfl)
    obtain ⟨l, hlookup⟩ := isDirectory_iff.1 (isDirectory_of_makeAll_of_entry hfind hmake)
    obtain ⟨hadmits, hfollows⟩ := find_eq_ok_iff.1 (locate_of_lookup hlookup)
    obtain ⟨l', held', hfound⟩ := hfollows.exists_entry rfl
    exact absurd (find_eq_ok_iff.2 ⟨hadmits, hfound⟩) (hnone l' held')

theorem Designates.agrees_of_clear (h : disk.Designates cwd path place) (hclosed : disk.Closed)
    {cleared made : Disk} (hclear : (clear cwd path).Gives disk () cleared)
    (hmake : (makeAll cwd path).Gives cleared () made) : cleared.Agrees (disk.remove place) := by
  obtain ⟨hresult, rfl⟩ := gives_clear_iff.1 hclear
  rcases hfind : disk.find cwd false path path.steps with
    reason | ⟨l, ⟨content, executable⟩ | _ | target⟩ | ⟨directory, name⟩
  · rw [Disk.run_removeAll, hfind] at hmake ⊢
    exact h.agrees_of_not_found hclosed (by simp [hfind]) hmake
  · rw [Disk.run_removeAll, hfind] at hresult
    rcases hresult with hresult | hresult <;> cases hresult
  · obtain rfl := h.taken hfind
    obtain ⟨hadmits, hfollows⟩ := find_eq_ok_iff.1 hfind
    have hplace := hfollows.entryAt?_eq_directory hclosed hadmits.entryAt?_start rfl
    rw [h.run_removeAll hplace]
    exact agrees_remove_removeBelow h.ne_nil
  · obtain rfl := h.taken hfind
    rw [Disk.run_removeAll, hfind]
    exact .refl _
  · rw [Disk.run_removeAll, hfind] at hmake ⊢
    exact h.agrees_of_not_found hclosed (by simp [hfind]) hmake

theorem Designates.makeAll_of_agrees (h : disk.Designates cwd path place) {cleared : Disk}
    (hcleared : cleared.Agrees (disk.remove place)) :
    (makeAll cwd path).Gives cleared () (cleared.put place .directory) := by
  obtain ⟨directory, name, rfl, hfree⟩ := h.free
  exact gives_makeAll (find_eq_ok_iff.1 hfree).1.nonempty
    (makeDirectory_of_vacant ((hcleared.find_eq ..).trans hfree))

/-- Clearing a designated place and making its directory leaves all else as it was. -/
theorem Designates.agrees_of_clear_makeAll (h : disk.Designates cwd path place)
    (hclosed : disk.Closed) {cleared made : Disk} (hclear : (clear cwd path).Gives disk () cleared)
    (hmake : (makeAll cwd path).Gives cleared () made) :
    made.Agrees ((disk.remove place).put place .directory) := by
  have hcleared := h.agrees_of_clear hclosed hclear hmake
  obtain ⟨-, rfl⟩ := (h.makeAll_of_agrees hcleared).unique hmake
  exact hcleared.put _ _

/-- When a directory stands there, this can be done. -/
theorem Designates.clear_makeAll_of_directory (h : disk.Designates cwd path place)
    (hplace : disk.entryAt? place = some .directory) :
    ∃ cleared made, (clear cwd path).Gives disk () cleared ∧
      (makeAll cwd path).Gives cleared () made ∧
      made.Agrees ((disk.remove place).put place .directory) := by
  have hcleared : ((disk.removeBelow place).remove place).Agrees (disk.remove place) :=
    agrees_remove_removeBelow h.ne_nil
  refine ⟨_, _, ?_, h.makeAll_of_agrees hcleared, hcleared.put _ _⟩
  rw [gives_clear_iff, h.run_removeAll hplace]
  exact ⟨.inl rfl, rfl⟩

/-- What is left does not depend on what stood at the place. -/
theorem agrees_of_clear_makeAll {disk' cleared cleared' made made' : Disk} (hclosed : disk.Closed)
    (hclosed' : disk'.Closed) (helsewhere : ∀ l, ¬ place <+: l → disk'.entryAt? l = disk.entryAt? l)
    (hplace : (disk.Designates cwd path place ∧ disk'.Designates cwd path place) ∨
      disk.entryAt? place = none ∧ disk'.entryAt? place = none)
    (hclear : (clear cwd path).Gives disk () cleared)
    (hmake : (makeAll cwd path).Gives cleared () made)
    (hclear' : (clear cwd path).Gives disk' () cleared')
    (hmake' : (makeAll cwd path).Gives cleared' () made') : made.Agrees made' := by
  rcases hplace with ⟨h, h'⟩ | ⟨hnone, hnone'⟩
  · have hrest : (disk.remove place).Agrees (disk'.remove place) :=
      agrees_remove h.ne_nil fun l hl => (helsewhere l hl).symm
    exact ((h.agrees_of_clear_makeAll hclosed hclear hmake).trans (hrest.put _ _)).trans
      (h'.agrees_of_clear_makeAll hclosed' hclear' hmake').symm
  · have hsame : disk.Agrees disk' := by
      intro l
      by_cases hl : place <+: l
      · rw [hclosed.eq_none_inside hnone hl, hclosed'.eq_none_inside hnone' hl]
      · exact (helsewhere l hl).symm
    obtain ⟨left, hleft, hcleared⟩ := (uniform_clear cwd path).gives hsame hclear
    obtain ⟨-, rfl⟩ := hleft.unique hclear'
    obtain ⟨last, hlast, hmade⟩ := (uniform_makeAll cwd path).gives hcleared hmake
    obtain ⟨-, rfl⟩ := hlast.unique hmake'
    exact hmade

end Designating

/-! ## Clearing once more

Something is written below the directory that was made. When the place is cleared again, the same
disk is left as the first time. -/

/-- Clearing the place that a path designates on the disk `after`, and making its directory, leaves
the disk `prepared`. -/
structure ClearsTo (after prepared : Disk) (cwd : Location) (path : Path) (place : Location) :
    Prop where
  designates : after.Designates cwd path place
  directory : after.entryAt? place = some .directory
  agrees : prepared.Agrees ((after.remove place).put place .directory)

section ClearingAgain

variable {before cleared prepared after : Disk} {cwd place : Location} {path : Path}

/-- A disk is what is left of another when it has a directory at the place, nothing below, and the
same elsewhere. -/
theorem agrees_remove_put (hplace : place ≠ [])
    (hdirectory : prepared.entryAt? place = some .directory)
    (hbelow : ∀ names, names ≠ [] → prepared.entryAt? (place ++ names) = none)
    (helsewhere : ∀ l, ¬ place <+: l → prepared.entryAt? l = after.entryAt? l) :
    prepared.Agrees ((after.remove place).put place .directory) := by
  intro l
  by_cases hl : l = place
  · subst hl
    rw [hdirectory, entryAt?_put_self _ _ hplace]
  rw [entryAt?_put_of_ne _ _ hl]
  by_cases hprefix : place <+: l
  · rw [entryAt?_remove_inside _ hplace hprefix]
    obtain ⟨names, rfl⟩ := hprefix
    exact hbelow names (by rintro rfl; simp at hl)
  · rw [entryAt?_remove_outside _ hprefix, helsewhere l hprefix]

theorem ChangesBelow.elsewhere_outside (h : ChangesBelow place prepared after) {l : Location}
    (hl : ¬ place <+: l) : after.entryAt? l = prepared.entryAt? l :=
  h.elsewhere (by simp [isBelow, hl])

theorem ChangesBelow.entryAt?_self (h : ChangesBelow place prepared after) :
    after.entryAt? place = prepared.entryAt? place :=
  h.elsewhere (by simp [isBelow])

/-- The path designated the place before it was cleared. -/
theorem Designates.clearsTo (h : before.Designates cwd path place)
    (hprepared : prepared.Agrees ((before.remove place).put place .directory))
    (hwritten : ∀ base, prepared.Hosts cwd path base → ChangesBelow base prepared after) :
    after.ClearsTo prepared cwd path place := by
  have hplace := h.ne_nil
  have hdirectory : prepared.entryAt? place = some .directory := by
    rw [hprepared, entryAt?_put_self _ _ hplace]
  have hbelow (names : List String) (hnames : names ≠ []) :
      prepared.entryAt? (place ++ names) = none := by
    rw [hprepared, entryAt?_put_of_ne _ _ (by simpa using hnames),
      entryAt?_remove_inside _ hplace (List.prefix_append ..)]
  have houtside (l : Location) (hl : ¬ place <+: l) :
      prepared.entryAt? l = before.entryAt? l := by
    have hne : l ≠ place := by
      rintro rfl
      exact hl List.prefix_rfl
    rw [hprepared, entryAt?_put_of_ne _ _ hne, entryAt?_remove_outside _ hl]
  -- the path leads to the place, so all is written below
  obtain ⟨tail, htail, hsteps⟩ := steps_eq_names_append path
  have hextends : (before.remove place).Extends prepared := by
    intro l hsome
    have hl : ¬ place <+: l := fun hl => hsome (entryAt?_remove_inside _ hplace hl)
    rw [houtside l hl, entryAt?_remove_outside _ hl]
  have hlookup : prepared.lookup cwd path = .ok (place, .directory) := by
    apply lookup_of_locate
    unfold locate
    rw [hsteps]
    exact h.find_directory hextends hdirectory true htail
  have hchanges := hwritten place (hosts_of_empty hlookup hbelow)
  have hafter : (after.remove place).Agrees (before.remove place) :=
    agrees_remove hplace fun l hl => (hchanges.elsewhere_outside hl).trans (houtside l hl)
  have hdirectory' : after.entryAt? place = some .directory := by
    rw [hchanges.entryAt?_self, hdirectory]
  refine ⟨⟨?_, fun {l held} hfind => ?_⟩, hdirectory', hprepared.trans (hafter.symm.put _ _)⟩
  · obtain ⟨directory, name, heq, hfree⟩ := h.free
    exact ⟨directory, name, heq, (hafter.find_eq ..).trans hfree⟩
  · have hextends' : (before.remove place).Extends after := by
      intro l hsome
      rw [← hafter] at hsome ⊢
      exact extends_keep after _ l hsome
    rw [hsteps, h.find_directory hextends' hdirectory' false htail] at hfind
    cases hfind
    rfl

/-- On a disk on which nothing stands at a place, steps do not lead there from elsewhere. -/
theorem Follows.not_inside {disk : Disk} (hplace : place ≠ [])
    (hnone : ∀ l, place <+: l → disk.entryAt? l = none) {followLast : Bool} {links : Nat}
    {here l : Location} {steps : List String} {found : Found}
    (h : disk.Follows followLast links here steps found) (hhere : ¬ place <+: here)
    (hfound : found = .entry l .directory) : ¬ place <+: l := by
  induction h with
  | stop =>
    cases hfound
    exact hhere
  | stay _ ih => exact ih hhere hfound
  | up _ ih => exact ih (fun hup => hhere (hup.trans (List.dropLast_prefix _))) hfound
  | into _ hentry _ ih =>
    refine ih (fun hinto => ?_) hfound
    rw [hnone _ hinto] at hentry
    cases hentry
  | file => cases hfound
  | vacant => cases hfound
  | link => cases hfound
  | through _ _ _ _ _ ih =>
    refine ih ?_ hfound
    split
    · exact fun hroot => hplace (List.prefix_nil.1 hroot)
    · exact hhere

/-- When a designating path leads to a directory, this stands at the place, or a link does. -/
theorem Designates.directory_or_link (h : after.Designates cwd path place) {l : Location}
    (hleads : after.Follows true maxLinks (start cwd path) path.names (.entry l .directory)) :
    (after.entryAt? place = some .directory ∧ l = place) ∨
      ∃ target, after.entryAt? place = some (.link target) := by
  rcases hentry : after.entryAt? place with _ | ⟨content, executable⟩ | _ | target
  · obtain ⟨directory, name, rfl, hfree⟩ := h.free
    have hname := ((find_eq_ok_iff.1 hfree).2.last_of_vacant rfl rfl).1
    have hvacant : after.Follows false maxLinks (start cwd path) (path.names ++ [])
        (.vacant directory name) :=
      (find_eq_ok_iff.1 hfree).2.at_place (extends_keep after _) rfl fun _ => .vacant hname hentry
    rw [List.append_nil] at hvacant
    obtain ⟨l', held, hheld⟩ := hleads.exists_entry rfl
    cases hvacant.found_eq hheld
  · have hfile := h.find_entry hentry true (.inr (by simp))
    cases (find_eq_ok_iff.1 hfile).2.found_eq hleads
  · have hdirectory := h.find_entry hentry true (.inr (by simp))
    cases (find_eq_ok_iff.1 hdirectory).2.found_eq hleads
    exact .inl ⟨rfl, rfl⟩
  · exact .inr ⟨target, rfl⟩

/-- The way to a designated place does not run through it. -/
theorem Designates.not_inside (h : after.Designates cwd path place) {front back : List String}
    (hnames : path.names = front ++ back) (hback : back ≠ []) {l : Location}
    (hfront : after.Follows true maxLinks (start cwd path) front (.entry l .directory)) :
    ¬ place <+: l := by
  have hplace := h.ne_nil
  obtain ⟨directory, name, -, hfree⟩ := h.free
  obtain ⟨hadmits, hfollows⟩ := find_eq_ok_iff.1 hfree
  obtain ⟨left, l', -, hfront', -⟩ := hfollows.split hnames hback
  have hextends : (after.remove place).Extends after := extends_keep after _
  have hsame := hfront'.directory_of_keeps hextends.entryAt? hextends.entryAt? rfl
  cases hfront.found_eq hsame
  have hnone (l : Location) (hl : place <+: l) : (after.remove place).entryAt? l = none :=
    entryAt?_remove_inside after hplace hl
  refine hfront'.not_inside hplace hnone (fun hstart => ?_) rfl
  have hentry := hadmits.entryAt?_start
  rw [hnone _ hstart] at hentry
  cases hentry

/-- The path designates the place only afterwards, and nothing stood there before. -/
theorem Designates.clearsTo_of_free (h : after.Designates cwd path place)
    (hnone : ∀ l, place <+: l → cleared.entryAt? l = none)
    (hway : MakesWay cwd path cleared prepared)
    (hlast : prepared.isDirectory cwd path = true) (hgrows : Grows prepared after)
    (hwritten : ∀ base, prepared.Hosts cwd path base → ChangesBelow base prepared after) :
    after.ClearsTo prepared cwd path place := by
  obtain ⟨base, hlookup⟩ := isDirectory_iff.1 hlast
  have hnames : prepared.Follows true maxLinks (start cwd path) path.names
      (.entry base .directory) :=
    follows_steps_iff.1 (find_eq_ok_iff.1 (locate_of_lookup hlookup)).2
  have hnames' := hnames.directory_of_grows hgrows rfl
  rcases h.directory_or_link hnames' with ⟨hdirectory, rfl⟩ | ⟨target, hlink⟩
  · -- the directories that were made before it do not lie below it
    have hbelow (names : List String) (hne : names ≠ []) :
        prepared.entryAt? (base ++ names) = none := by
      rcases hheld : prepared.entryAt? (base ++ names) with _ | held
      · rfl
      exfalso
      obtain ⟨-, front, ⟨back, hback⟩, hfront⟩ :=
        hway.made (hnone (base ++ names) (List.prefix_append ..)) (by simp [hheld])
      by_cases hnil : back = []
      · subst hnil
        rw [List.append_nil] at hback
        subst hback
        obtain ⟨heq, -⟩ := Found.entry.inj (hfront.found_eq hnames)
        exact hne (List.append_right_eq_self.1 heq)
      · exact h.not_inside hback.symm hnil (hfront.directory_of_grows hgrows rfl)
          (List.prefix_append ..)
    have hchanges := hwritten base (hosts_of_empty hlookup hbelow)
    refine ⟨h, hdirectory, agrees_remove_put h.ne_nil ?_ hbelow fun l hl =>
      (hchanges.elsewhere_outside hl).symm⟩
    rw [← hchanges.entryAt?_self, hdirectory]
  · -- a link there would have been there before
    have hbefore := hway.of_entry (hgrows.link.1 hlink) (by simp)
    rw [hnone place List.prefix_rfl] at hbefore
    cases hbefore

end ClearingAgain

end LiterateCheck.Disk
