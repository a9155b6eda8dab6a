import LiterateCheck.Proofs.Disk.Agreement
import LiterateCheck.Proofs.Disk.Confining

/-!
# Disks with more on them

A disk extends another when it has all that the other has. Steps that lead to a free place on the
one lead to whatever stands there on the other (`Follows.at_place`). What is removed from a disk is
what the disk extends the result by.
-/

namespace LiterateCheck.Disk

/-- What stands on a disk stands on the other as well. -/
def Extends (disk larger : Disk) : Prop :=
  ∀ l, disk.entryAt? l ≠ none → larger.entryAt? l = disk.entryAt? l

theorem Extends.refl (disk : Disk) : Extends disk disk := fun _ _ => rfl

theorem Extends.trans {a b c : Disk} (hab : Extends a b) (hbc : Extends b c) : Extends a c := by
  intro l hsome
  have hb := hab l hsome
  exact (hbc l (hb ▸ hsome)).trans hb

theorem Extends.entryAt? {disk larger : Disk} (h : disk.Extends larger) {l : Location}
    {entry : Entry} (hentry : disk.entryAt? l = some entry) : larger.entryAt? l = some entry :=
  (h l (by simp [hentry])).trans hentry

/-- Steps that lead to a free place lead, on a larger disk, to what stands there. Further steps may
follow the last one. -/
theorem Follows.at_place {disk larger : Disk} (hextends : disk.Extends larger) {followLast : Bool}
    {links : Nat} {here directory : Location} {steps tail : List String} {name : String}
    {free found : Found} (h : disk.Follows false links here steps free)
    (hfree : free = .vacant directory name)
    (hplace : ∀ links, larger.Follows followLast links directory (name :: tail) found) :
    larger.Follows followLast links here (steps ++ tail) found := by
  induction h with
  | stop => cases hfree
  | stay _ ih => exact .stay (ih hfree)
  | up _ ih => exact .up (ih hfree)
  | into hname hentry _ ih => exact .into hname (hextends.entryAt? hentry) (ih hfree)
  | file => cases hfree
  | vacant =>
    cases hfree
    exact hplace _
  | link => cases hfree
  | through hname hentry hgo hempty _ ih =>
    have hrest := hgo.resolve_right Bool.false_ne_true
    have hgo' := ih hfree
    rw [List.append_assoc] at hgo'
    exact .through hname (hextends.entryAt? hentry) (.inl (by simp [hrest])) hempty hgo'

theorem Admits.of_extends {disk larger : Disk} {cwd : Location} {path : Path}
    (h : disk.Admits cwd path) (hextends : disk.Extends larger) : larger.Admits cwd path :=
  ⟨h.noNul, h.nonempty, h.size_lt, fun hrelative => hextends.entryAt? (h.starts hrelative)⟩

theorem find_at_place {disk larger : Disk} (hextends : disk.Extends larger) {followLast : Bool}
    {cwd directory : Location} {path : Path} {steps tail : List String} {name : String}
    {found : Found} (h : disk.find cwd false path steps = .ok (.vacant directory name))
    (hplace : ∀ links, larger.Follows followLast links directory (name :: tail) found) :
    larger.find cwd followLast path (steps ++ tail) = .ok found := by
  obtain ⟨hadmits, hfollows⟩ := find_eq_ok_iff.1 h
  exact find_eq_ok_iff.2 ⟨hadmits.of_extends hextends, hfollows.at_place hextends rfl hplace⟩

theorem Follows.last_of_vacant {disk : Disk} {followLast : Bool} {links : Nat}
    {here directory : Location} {steps : List String} {name : String} {found : Found}
    (h : disk.Follows followLast links here steps found) (hlast : followLast = false)
    (hfound : found = .vacant directory name) :
    IsName name ∧ steps.getLast? = some name := by
  induction h with
  | stop => cases hfound
  | @stay _ _ rest _ _ ih =>
    obtain ⟨hname, ih⟩ := ih hfound
    exact ⟨hname, by simp [List.getLast?_cons, ih]⟩
  | up _ ih =>
    obtain ⟨hname, ih⟩ := ih hfound
    exact ⟨hname, by simp [List.getLast?_cons, ih]⟩
  | into _ _ _ ih =>
    obtain ⟨hname, ih⟩ := ih hfound
    exact ⟨hname, by simp [List.getLast?_cons, ih]⟩
  | file => cases hfound
  | vacant hname =>
    cases hfound
    exact ⟨hname, rfl⟩
  | link => cases hfound
  | @through _ _ _ rest _ _ _ _ hgo _ _ ih =>
    have hrest : rest ≠ [] := hgo.resolve_right (by simp [hlast])
    obtain ⟨hname, ih⟩ := ih hfound
    refine ⟨hname, ?_⟩
    rw [List.getLast?_append, Option.or_eq_some_iff] at ih
    rcases ih with ih | ⟨hnone, -⟩
    · simp [List.getLast?_cons, ih]
    · exact absurd (List.getLast?_eq_none_iff.1 hnone) hrest

/-! ## What stands in a directory -/

/-- What stands at a location stands in a directory. -/
def Closed (disk : Disk) : Prop :=
  ∀ directory name, disk.entryAt? (directory ++ [name]) ≠ none →
    disk.entryAt? directory = some .directory

theorem closed_empty : Disk.empty.Closed := by
  intro directory name hsome
  rw [entryAt?, if_neg (by simp)] at hsome
  exact absurd rfl hsome

theorem Closed.put {disk : Disk} (h : disk.Closed) {directory : Location} {name : String}
    (hdirectory : disk.entryAt? directory = some .directory)
    (hnone : disk.entryAt? (directory ++ [name]) = none) (entry : Entry) :
    (disk.put (directory ++ [name]) entry).Closed := by
  have hstays {l : Location} (hl : disk.entryAt? l = some .directory) :
      (disk.put (directory ++ [name]) entry).entryAt? l = some .directory := by
    rw [entryAt?_put_of_ne _ _ (by rintro rfl; simp [hnone] at hl), hl]
  intro directory' name' hsome
  by_cases hplace : directory' ++ [name'] = directory ++ [name]
  · rw [(List.append_inj' hplace rfl).1]
    exact hstays hdirectory
  · rw [entryAt?_put_of_ne _ _ hplace] at hsome
    exact hstays (h directory' name' hsome)

theorem Closed.eq_none_inside {disk : Disk} (h : disk.Closed) {place l : Location}
    (hplace : disk.entryAt? place = none) (hl : place <+: l) : disk.entryAt? l = none := by
  obtain ⟨names, rfl⟩ := hl
  induction names generalizing place with
  | nil => rwa [List.append_nil]
  | cons name names ih =>
    rw [List.append_cons]
    apply ih
    rcases hentry : disk.entryAt? (place ++ [name]) with _ | entry
    · rfl
    · rw [h place name (by simp [hentry])] at hplace
      cases hplace

theorem Closed.dropLast {disk : Disk} (h : disk.Closed) {l : Location}
    (hl : disk.entryAt? l = some .directory) : disk.entryAt? l.dropLast = some .directory := by
  rcases List.eq_nil_or_concat l with rfl | ⟨front, last, rfl⟩
  · exact hl
  · rw [List.concat_eq_append] at hl ⊢
    rw [List.dropLast_concat]
    exact h front last (by simp [hl])

theorem Follows.entryAt?_eq_directory {disk : Disk} (hclosed : disk.Closed) {followLast : Bool}
    {links : Nat} {here l : Location} {steps : List String} {found : Found}
    (h : disk.Follows followLast links here steps found)
    (hhere : disk.entryAt? here = some .directory) (hfound : found = .entry l .directory) :
    disk.entryAt? l = some .directory := by
  induction h with
  | stop =>
    cases hfound
    exact hhere
  | stay _ ih => exact ih hhere hfound
  | up _ ih => exact ih (hclosed.dropLast hhere) hfound
  | into _ hentry _ ih => exact ih hentry hfound
  | file => cases hfound
  | vacant => cases hfound
  | link => cases hfound
  | through _ _ _ _ _ ih =>
    refine ih ?_ hfound
    split
    · exact entryAt?_nil disk
    · exact hhere

theorem Admits.entryAt?_start {disk : Disk} {cwd : Location} {path : Path}
    (h : disk.Admits cwd path) : disk.entryAt? (start cwd path) = some .directory := by
  unfold start
  split
  · exact entryAt?_nil disk
  · rename_i hrelative
    exact h.starts (by simpa using hrelative)

/-- What is found stands there. -/
theorem Closed.entryAt?_of_lookup {disk : Disk} (h : disk.Closed) {cwd l : Location} {path : Path}
    {held : Entry} (hlookup : disk.lookup cwd path = .ok (l, held)) :
    disk.entryAt? l = some held := by
  obtain ⟨hadmits, hfollows⟩ := find_eq_ok_iff.1 (locate_of_lookup hlookup)
  by_cases hheld : held = .directory
  · subst hheld
    exact hfollows.entryAt?_eq_directory h hadmits.entryAt?_start rfl
  · exact hfollows.entryAt?_eq_some rfl hheld

/-! ## Removing -/

theorem entryAt?_remove_outside (disk : Disk) {place l : Location} (h : ¬ place <+: l) :
    (disk.remove place).entryAt? l = disk.entryAt? l := by
  by_cases hl : l = []
  · subst hl
    rfl
  · rw [entryAt?_remove _ _ hl, if_neg (by simpa using h)]

theorem entryAt?_remove_inside (disk : Disk) {place l : Location} (hplace : place ≠ [])
    (h : place <+: l) : (disk.remove place).entryAt? l = none := by
  have hl : l ≠ [] := by
    rintro rfl
    exact hplace (List.prefix_nil.1 h)
  rw [entryAt?_remove _ _ hl, if_pos (by simpa using h)]

theorem extends_keep (disk : Disk) (p : Location → Bool) : (disk.keep p).Extends disk := by
  intro l hsome
  by_cases hl : l = []
  · subst hl
    rfl
  · rw [entryAt?_keep _ _ hl] at hsome ⊢
    split at hsome
    · rename_i hp
      rw [if_pos hp]
    · exact absurd rfl hsome

/-- What stands elsewhere stays when what lies below the place goes. -/
theorem extends_removeBelow {disk : Disk} {place : Location} (hplace : place ≠ []) :
    (disk.remove place).Extends (disk.removeBelow place) := by
  intro l hsome
  have hl : ¬ place <+: l := fun h => hsome (entryAt?_remove_inside disk hplace h)
  rw [entryAt?_remove_outside _ hl]
  by_cases hnil : l = []
  · subst hnil
    rfl
  · rw [entryAt?_removeBelow _ _ hnil, if_neg]
    unfold isBelow
    simp [List.isPrefixOf_iff_prefix, hl]

theorem extends_removeAll (cwd : Location) (path : Path) (disk : Disk) :
    ((removeAll cwd path).run.run disk).2.Extends disk := by
  rw [run_removeAll]
  split
  · exact .refl disk
  · exact .refl disk
  · exact extends_keep _ _
  · exact .refl disk
  · rename_i l _
    have hbelow : (disk.removeBelow l).Extends disk := extends_keep _ _
    split
    · exact hbelow
    · exact hbelow
    · exact hbelow
    · split
      · exact hbelow
      · exact hbelow
      · exact (extends_keep _ _).trans hbelow

theorem agrees_remove {disk disk' : Disk} {place : Location} (hplace : place ≠ [])
    (helsewhere : ∀ l, ¬ place <+: l → disk.entryAt? l = disk'.entryAt? l) :
    (disk.remove place).Agrees (disk'.remove place) := by
  intro l
  by_cases hl : place <+: l
  · rw [entryAt?_remove_inside _ hplace hl, entryAt?_remove_inside _ hplace hl]
  · rw [entryAt?_remove_outside _ hl, entryAt?_remove_outside _ hl, helsewhere l hl]

theorem agrees_remove_removeBelow {disk : Disk} {place : Location} (hplace : place ≠ []) :
    ((disk.removeBelow place).remove place).Agrees (disk.remove place) := by
  refine agrees_remove hplace fun l hl => ?_
  by_cases hnil : l = []
  · subst hnil
    rfl
  · rw [entryAt?_removeBelow _ _ hnil, if_neg]
    simp [isBelow, hl]

end LiterateCheck.Disk
