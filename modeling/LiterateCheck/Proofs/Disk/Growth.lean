import LiterateCheck.Proofs.Disk.Following

/-!
# Disks that grow

A disk grows when nothing on it goes: directories stay, files stay files whatever they then hold,
and the links are the same ones. What a path led to before, it leads to afterwards
(`walk_directory_of_grows`, `walk_file_of_grows`).

1. `Grows` is a preorder, and putting a directory where nothing stands, or a file where nothing or
   a file stands, is one step of it.
2. Following steps reads directories and links only, so it ends alike on a disk that grew.
3. Where no link stands below a directory, following steps from there goes just where they say
   (`Follows.location_eq`).
-/

namespace LiterateCheck

/-- The location that a path leads to, taken or not. -/
def Found.location : Found → Location
  | .entry location _ => location
  | .vacant directory name => directory ++ [name]

/-- Whether a file may be written where a path leads: to a file, or to nothing. -/
def Found.takesFile : Found → Bool
  | .entry _ held => held.isFile
  | .vacant .. => true

namespace Disk

/-- Nothing goes from one disk to the other. -/
structure Grows (before after : Disk) : Prop where
  directory {l : Location} :
    before.entryAt? l = some .directory → after.entryAt? l = some .directory
  link {l : Location} {target : Path} :
    after.entryAt? l = some (.link target) ↔ before.entryAt? l = some (.link target)
  file {l : Location} {content : ByteArray} {executable : Bool} :
    before.entryAt? l = some (.file content executable) →
      ∃ content' executable', after.entryAt? l = some (.file content' executable')

theorem Grows.refl (disk : Disk) : Grows disk disk where
  directory h := h
  link := Iff.rfl
  file h := ⟨_, _, h⟩

theorem Grows.trans {a b c : Disk} (hab : Grows a b) (hbc : Grows b c) : Grows a c where
  directory h := hbc.directory (hab.directory h)
  link := hbc.link.trans hab.link
  file h := by
    obtain ⟨content, executable, hb⟩ := hab.file h
    exact hbc.file hb

theorem ne_nil_of_entryAt?_eq_none {disk : Disk} {l : Location} (h : disk.entryAt? l = none) :
    l ≠ [] := by
  rintro rfl
  rw [entryAt?_nil] at h
  cases h

theorem entryAt?_put_self (disk : Disk) {l : Location} (entry : Entry) (h : l ≠ []) :
    (disk.put l entry).entryAt? l = some entry := by
  rw [entryAt?_put disk l entry h, if_pos rfl]

theorem entryAt?_put_of_ne (disk : Disk) {l place : Location} (entry : Entry) (h : l ≠ place) :
    (disk.put place entry).entryAt? l = disk.entryAt? l := by
  by_cases hl : l = []
  · subst hl
    rfl
  · rw [entryAt?_put disk place entry hl, if_neg h]

theorem grows_put_directory {disk : Disk} {place : Location}
    (hplace : disk.entryAt? place = none) : Grows disk (disk.put place .directory) := by
  have hne := ne_nil_of_entryAt?_eq_none hplace
  refine ⟨fun {l} h => ?_, fun {l target} => ?_, fun {l content executable} h => ?_⟩
  all_goals
    by_cases hl : l = place
    · subst hl
      simp_all [entryAt?_put_self]
    · simp_all [entryAt?_put_of_ne]

/-- Whether a file may be put at a location: nothing or a file stands there. -/
def TakesFile (disk : Disk) (place : Location) : Prop :=
  ∀ entry, disk.entryAt? place = some entry → entry.isFile = true

theorem ne_nil_of_takesFile {disk : Disk} {place : Location} (h : disk.TakesFile place) :
    place ≠ [] := by
  rintro rfl
  cases h .directory (entryAt?_nil disk)

theorem grows_put_file {disk : Disk} {place : Location} (hplace : disk.TakesFile place)
    (content : ByteArray) (executable : Bool) :
    Grows disk (disk.put place (.file content executable)) := by
  have hne := ne_nil_of_takesFile hplace
  refine ⟨fun {l} h => ?_, fun {l target} => ?_, fun {l content' executable'} h => ?_⟩
  · by_cases hl : l = place
    · subst hl
      cases hplace _ h
    · rwa [entryAt?_put_of_ne disk _ hl]
  · by_cases hl : l = place
    · subst hl
      rw [entryAt?_put_self disk _ hne]
      constructor
      · intro h
        cases h
      · intro h
        cases hplace _ h
    · rw [entryAt?_put_of_ne disk _ hl]
  · by_cases hl : l = place
    · subst hl
      exact ⟨content, executable, entryAt?_put_self disk _ hne⟩
    · exact ⟨content', executable', by rwa [entryAt?_put_of_ne disk _ hl]⟩

/-! ## Following steps on a disk that grew -/

/-- A directory that steps lead to is there on a disk that has all directories and links, and maybe
more. -/
theorem Follows.directory_of_keeps {before after : Disk}
    (hdirectory : ∀ {l : Location},
      before.entryAt? l = some .directory → after.entryAt? l = some .directory)
    (hlink : ∀ {l : Location} {target : Path},
      before.entryAt? l = some (.link target) → after.entryAt? l = some (.link target))
    {followLast : Bool} {links : Nat} {here : Location} {steps : List String} {found : Found}
    (h : before.Follows followLast links here steps found) {l : Location}
    (hfound : found = .entry l .directory) :
    after.Follows followLast links here steps found := by
  induction h with
  | stop => exact .stop
  | stay _ ih => exact .stay (ih hfound)
  | up _ ih => exact .up (ih hfound)
  | into hname hentry _ ih => exact .into hname (hdirectory hentry) (ih hfound)
  | file => cases hfound
  | vacant => cases hfound
  | link => cases hfound
  | through hname hentry hgo hempty _ ih =>
    exact .through hname (hlink hentry) hgo hempty (ih hfound)

/-- A directory that steps lead to is there on a disk that grew. -/
theorem Follows.directory_of_grows {before after : Disk} (hgrows : Grows before after)
    {followLast : Bool} {links : Nat} {here : Location} {steps : List String} {found : Found}
    (h : before.Follows followLast links here steps found) {l : Location}
    (hfound : found = .entry l .directory) :
    after.Follows followLast links here steps found :=
  h.directory_of_keeps hgrows.directory hgrows.link.2 hfound

/-- Where steps lead to a file or to nothing, they lead to the file that a disk has there once it
grew. -/
theorem Follows.file_of_grows {before after : Disk} (hgrows : Grows before after)
    {followLast : Bool} {links : Nat} {here : Location} {steps : List String} {found : Found}
    (h : before.Follows followLast links here steps found) {content : ByteArray}
    {executable : Bool}
    (hfound : found.takesFile = true)
    (hafter : after.entryAt? found.location = some (.file content executable)) :
    after.Follows followLast links here steps
      (.entry found.location (.file content executable)) := by
  induction h with
  | stop => cases hfound
  | stay _ ih => exact .stay (ih hfound hafter)
  | up _ ih => exact .up (ih hfound hafter)
  | into hname hentry _ ih => exact .into hname (hgrows.directory hentry) (ih hfound hafter)
  | file hname hentry => exact .file hname hafter
  | vacant hname hentry => exact .file hname hafter
  | link => cases hfound
  | through hname hentry hgo hempty _ ih =>
    exact .through hname (hgrows.link.2 hentry) hgo hempty (ih hfound hafter)

/-- What is found at the end of steps stands there, directories apart: the one that steps start
from is not looked up. -/
theorem Follows.entryAt?_eq_some {disk : Disk} {followLast : Bool} {links : Nat}
    {here : Location} {steps : List String} {found : Found}
    (h : disk.Follows followLast links here steps found) {l : Location} {held : Entry}
    (hfound : found = .entry l held) (hheld : held ≠ .directory) :
    disk.entryAt? l = some held := by
  induction h with
  | stop =>
    cases hfound
    exact absurd rfl hheld
  | stay _ ih => exact ih hfound
  | up _ ih => exact ih hfound
  | into _ _ _ ih => exact ih hfound
  | file _ hentry =>
    cases hfound
    exact hentry
  | vacant => cases hfound
  | link _ hentry _ =>
    cases hfound
    exact hentry
  | through _ _ _ _ _ ih => exact ih hfound

theorem Follows.entryAt?_eq_none {disk : Disk} {followLast : Bool} {links : Nat}
    {here : Location} {steps : List String} {found : Found}
    (h : disk.Follows followLast links here steps found) {directory : Location} {name : String}
    (hfound : found = .vacant directory name) :
    disk.entryAt? (directory ++ [name]) = none := by
  induction h with
  | stop => cases hfound
  | stay _ ih => exact ih hfound
  | up _ ih => exact ih hfound
  | into _ _ _ ih => exact ih hfound
  | file => cases hfound
  | vacant _ hentry =>
    cases hfound
    exact hentry
  | link => cases hfound
  | through _ _ _ _ _ ih => exact ih hfound

theorem Follows.takesFile {disk : Disk} {followLast : Bool} {links : Nat} {here : Location}
    {steps : List String} {found : Found} (h : disk.Follows followLast links here steps found)
    (hfound : found.takesFile = true) : disk.TakesFile found.location := by
  intro held hentry
  cases found with
  | entry l held' =>
    have hne : held' ≠ .directory := by
      rintro rfl
      cases hfound
    obtain rfl := Option.some.inj ((h.entryAt?_eq_some rfl hne).symm.trans hentry)
    exact hfound
  | vacant directory name => cases (h.entryAt?_eq_none rfl).symm.trans hentry

/-! ## Steps one after the other -/

/-- Steps that lead to a directory, and further steps, go as the further ones do from there. -/
theorem walk_append {disk : Disk} {links : Nat} {here : Location} {front : List String}
    {found : Found} (h : disk.Follows true links here front found) {middle : Location}
    (hfound : found = .entry middle .directory) :
    ∃ left, ∀ (followLast : Bool) (back : List String), back ≠ [] →
      disk.walk followLast links here (front ++ back) = disk.walk followLast left middle back := by
  induction h with
  | @stop links here =>
    cases hfound
    exact ⟨links, fun _ _ _ => rfl⟩
  | stay _ ih =>
    obtain ⟨left, h⟩ := ih hfound
    exact ⟨left, fun followLast back hback => by
      rw [List.cons_append, walk_here, h followLast back hback]⟩
  | up _ ih =>
    obtain ⟨left, h⟩ := ih hfound
    exact ⟨left, fun followLast back hback => by
      rw [List.cons_append, walk_up, h followLast back hback]⟩
  | into hname hentry _ ih =>
    obtain ⟨left, h⟩ := ih hfound
    exact ⟨left, fun followLast back hback => by
      rw [List.cons_append, walk_directory hname hentry, h followLast back hback]⟩
  | file => cases hfound
  | vacant => cases hfound
  | link => cases hfound
  | through hname hentry hgo hempty _ ih =>
    obtain ⟨left, h⟩ := ih hfound
    refine ⟨left, fun followLast back hback => ?_⟩
    -- the link is not the last step any more, so it is followed in either case
    rw [List.cons_append, walk_link hname hentry, if_neg (by simp [hback]), hempty,
      if_neg Bool.false_ne_true, ← h followLast back hback, List.append_assoc]

/-- Steps in two parts that can be followed: the first part leads to a directory, and the second
goes on from there. -/
theorem Follows.split {disk : Disk} {followLast : Bool} {links : Nat} {here : Location}
    {front back whole : List String} {found : Found}
    (h : disk.Follows followLast links here whole found) (hwhole : whole = front ++ back)
    (hback : back ≠ []) :
    ∃ left middle, left ≤ links ∧
      disk.Follows true links here front (.entry middle .directory) ∧
      disk.Follows followLast left middle back found := by
  -- a single step belongs to the second part
  have hsingle {name : String} {front : List String} (hname : [name] = front ++ back) :
      front = [] ∧ back = [name] := by
    rcases List.append_eq_singleton_iff.1 hname.symm with h | ⟨-, hnil⟩
    · exact h
    · exact absurd hnil hback
  induction h generalizing front with
  | stop => exact absurd (List.append_eq_nil_iff.1 hwhole.symm).2 hback
  | stay hrest ih =>
    cases front with
    | nil =>
      obtain rfl := hwhole
      exact ⟨_, _, Nat.le_refl _, .stop, .stay hrest⟩
    | cons step front =>
      obtain ⟨rfl, hend⟩ := List.cons.inj hwhole
      obtain ⟨left, middle, hle, hfront, hgo⟩ := ih hend
      exact ⟨left, middle, hle, .stay hfront, hgo⟩
  | up hrest ih =>
    cases front with
    | nil =>
      obtain rfl := hwhole
      exact ⟨_, _, Nat.le_refl _, .stop, .up hrest⟩
    | cons step front =>
      obtain ⟨rfl, hend⟩ := List.cons.inj hwhole
      obtain ⟨left, middle, hle, hfront, hgo⟩ := ih hend
      exact ⟨left, middle, hle, .up hfront, hgo⟩
  | into hname hentry hrest ih =>
    cases front with
    | nil =>
      obtain rfl := hwhole
      exact ⟨_, _, Nat.le_refl _, .stop, .into hname hentry hrest⟩
    | cons step front =>
      obtain ⟨rfl, hend⟩ := List.cons.inj hwhole
      obtain ⟨left, middle, hle, hfront, hgo⟩ := ih hend
      exact ⟨left, middle, hle, .into hname hentry hfront, hgo⟩
  | file hname hentry =>
    obtain ⟨rfl, rfl⟩ := hsingle hwhole
    exact ⟨0, _, Nat.zero_le _, .stop, .file hname hentry⟩
  | vacant hname hentry =>
    obtain ⟨rfl, rfl⟩ := hsingle hwhole
    exact ⟨0, _, Nat.zero_le _, .stop, .vacant hname hentry⟩
  | link hname hentry hlast =>
    obtain ⟨rfl, rfl⟩ := hsingle hwhole
    exact ⟨0, _, Nat.zero_le _, .stop, .link hname hentry hlast⟩
  | through hname hentry hgo hempty hrest ih =>
    cases front with
    | nil =>
      obtain rfl := hwhole
      exact ⟨_, _, Nat.le_refl _, .stop, .through hname hentry hgo hempty hrest⟩
    | cons step front =>
      obtain ⟨rfl, rfl⟩ := List.cons.inj hwhole
      obtain ⟨left, middle, hle, hfront, hback⟩ := ih (List.append_assoc ..).symm
      exact ⟨left, middle, Nat.le_succ_of_le hle,
        .through hname hentry (.inr rfl) hempty hfront, hback⟩

theorem Follows.more_links {disk : Disk} {followLast : Bool} {links : Nat} {here : Location}
    {steps : List String} {found : Found} (h : disk.Follows followLast links here steps found)
    {more : Nat} (hle : links ≤ more) : disk.Follows followLast more here steps found := by
  induction h generalizing more with
  | stop => exact .stop
  | stay _ ih => exact .stay (ih hle)
  | up _ ih => exact .up (ih hle)
  | into hname hentry _ ih => exact .into hname hentry (ih hle)
  | file hname hentry => exact .file hname hentry
  | vacant hname hentry => exact .vacant hname hentry
  | link hname hentry hlast => exact .link hname hentry hlast
  | through hname hentry hgo hempty _ ih =>
    obtain ⟨more, rfl⟩ := Nat.exists_eq_add_of_le' hle
    exact .through hname hentry hgo hempty (ih (Nat.le_add_left ..))

theorem Follows.fewer_links {disk : Disk} {followLast : Bool} {links : Nat} {here : Location}
    {steps : List String} {found : Found} (h : disk.Follows followLast links here steps found)
    (left : Nat) :
    disk.walk followLast left here steps = .ok found ∨
      disk.walk followLast left here steps = .error .linkLoop := by
  induction h generalizing left with
  | stop => exact .inl walk_nil
  | stay _ ih => rw [walk_here]; exact ih left
  | up _ ih => rw [walk_up]; exact ih left
  | into hname hentry _ ih => rw [walk_directory hname hentry]; exact ih left
  | file hname hentry => exact .inl (walk_of_follows (.file hname hentry))
  | vacant hname hentry => exact .inl (walk_of_follows (.vacant hname hentry))
  | link hname hentry hlast => exact .inl (walk_of_follows (.link hname hentry hlast))
  | @through _ _ name rest _ _ hname hentry hgo hempty _ ih =>
    have hnot : ¬ (rest.isEmpty && !followLast) = true := by
      rcases hgo with hgo | hgo <;> simp [hgo]
    rw [walk_link hname hentry, if_neg hnot, hempty, if_neg Bool.false_ne_true]
    cases left with
    | zero => exact .inr rfl
    | succ left => exact ih left

/-- A `.` at the end asks for a directory and changes nothing else. -/
theorem Follows.of_append_here {disk : Disk} {links : Nat} {here middle : Location}
    {steps whole : List String} {found : Found} (h : disk.Follows true links here whole found)
    (hwhole : whole = steps ++ ["."]) (hfound : found = .entry middle .directory) :
    disk.Follows true links here steps (.entry middle .directory) := by
  induction h generalizing steps with
  | stop => simp at hwhole
  | stay hrest ih =>
    cases steps with
    | nil =>
      obtain rfl := (List.cons.inj hwhole).2
      rwa [hfound] at hrest
    | cons step steps =>
      obtain ⟨rfl, hend⟩ := List.cons.inj hwhole
      exact .stay (ih hend hfound)
  | up _ ih =>
    cases steps with
    | nil => simp at hwhole
    | cons step steps =>
      obtain ⟨rfl, hend⟩ := List.cons.inj hwhole
      exact .up (ih hend hfound)
  | into hname hentry _ ih =>
    cases steps with
    | nil => exact absurd (List.cons.inj hwhole).1 hname.ne_here
    | cons step steps =>
      obtain ⟨rfl, hend⟩ := List.cons.inj hwhole
      exact .into hname hentry (ih hend hfound)
  | file => cases hfound
  | vacant => cases hfound
  | link => cases hfound
  | through hname hentry hgo hempty _ ih =>
    cases steps with
    | nil => exact absurd (List.cons.inj hwhole).1 hname.ne_here
    | cons step steps =>
      obtain ⟨rfl, rfl⟩ := List.cons.inj hwhole
      exact .through hname hentry (.inr rfl) hempty (ih (List.append_assoc ..).symm hfound)

theorem Follows.append_here {disk : Disk} {links : Nat} {here middle : Location}
    {steps : List String} (h : disk.Follows true links here steps (.entry middle .directory)) :
    disk.Follows true links here (steps ++ ["."]) (.entry middle .directory) := by
  obtain ⟨left, hwalk⟩ := walk_append h rfl
  rw [← walk_eq_ok_iff, hwalk true ["."] (by simp), walk_here, walk_nil]

/-- The steps of a path are its names, and a `.` when a separator ends it. -/
theorem steps_eq_names_append (path : Path) :
    ∃ tail, (tail = [] ∨ tail = ["."]) ∧ path.steps = path.names ++ tail := by
  unfold Path.steps
  split
  · exact ⟨["."], .inr rfl, rfl⟩
  · exact ⟨[], .inl rfl, (List.append_nil _).symm⟩

/-- A separator at the end of a path that leads to a directory makes no difference. -/
theorem follows_steps_iff {disk : Disk} {links : Nat} {here l : Location} {path : Path} :
    disk.Follows true links here path.steps (.entry l .directory) ↔
      disk.Follows true links here path.names (.entry l .directory) := by
  unfold Path.steps
  split
  · exact ⟨fun h => h.of_append_here rfl rfl, .append_here⟩
  · exact Iff.rfl

/-- No link stands strictly below a location. -/
def NoLinksBelow (disk : Disk) (base : Location) : Prop :=
  ∀ names ≠ [], ∀ target, disk.entryAt? (base ++ names) ≠ some (.link target)

theorem NoLinksBelow.of_grows {before after : Disk} {base : Location}
    (h : before.NoLinksBelow base) (hgrows : Grows before after) : after.NoLinksBelow base :=
  fun names hne target hlink => h names hne target (hgrows.link.1 hlink)

/-- Where no link stands below a directory, steps without `..` go just where they say. -/
theorem Follows.location_eq {disk : Disk} {base : Location} (hlinks : disk.NoLinksBelow base)
    {followLast : Bool} {links : Nat} {here : Location} {steps : List String} {found : Found}
    (h : disk.Follows followLast links here steps found) (hup : ".." ∉ steps)
    (hhere : base <+: here) : found.location = here ++ steps.filter (· ≠ ".") := by
  have hkeep : ∀ {name : String} {rest : List String}, IsName name →
      (name :: rest).filter (· ≠ ".") = name :: rest.filter (· ≠ ".") := by
    intro name rest hname
    rw [List.filter_cons_of_pos (by simpa using hname.ne_here)]
  induction h with
  | stop => simp [Found.location]
  | stay _ ih => simpa using ih (fun hmem => hup (List.mem_cons_of_mem _ hmem)) hhere
  | up => simp at hup
  | into hname hentry _ ih =>
    rw [ih (fun hmem => hup (List.mem_cons_of_mem _ hmem)) (hhere.trans (List.prefix_append ..)),
      hkeep hname, List.append_assoc, List.singleton_append]
  | file hname hentry => rw [hkeep hname, Found.location, List.filter_nil]
  | vacant hname hentry => rw [hkeep hname, Found.location, List.filter_nil]
  | link hname hentry hlast =>
    obtain ⟨names, rfl⟩ := hhere
    rw [List.append_assoc] at hentry
    exact absurd hentry (hlinks _ (by simp) _)
  | through hname hentry hgo hempty _ ih =>
    obtain ⟨names, rfl⟩ := hhere
    rw [List.append_assoc] at hentry
    exact absurd hentry (hlinks _ (by simp) _)

end Disk

end LiterateCheck
