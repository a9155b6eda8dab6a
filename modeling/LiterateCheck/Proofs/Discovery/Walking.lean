import LiterateCheck.Discovery
import LiterateCheck.Proofs.Disk.Listing

/-!
# What a walk finds

A walk that succeeds adds the documents of a directory to those it has, each of them once.

1. The turn of one entry enters it, takes it as a document, or leaves it out (`Enters`, `Takes`).
2. `Finds` says by which names a document is found below a directory: each name on the way is
   entered, and the last is taken.
3. `Gathers` relates the states of a walk before and after some documents are found. It is held by
   the turn of one entry (`gathers_takeEntry`), by the turns of all entries of a directory, whose
   names are different (`gathers_foldlM`), and so by a whole walk, by induction on what its paths
   may still get longer (`gathers_run`).
-/

namespace LiterateCheck

/-- Neither the ignore rules nor the exclude patterns keep a path out. -/
structure Selection.Passes (selection : Selection) (disk : Disk) (cwd : Location)
    (path : Path) : Prop where
  notIgnored : selection.ignored path (disk.isDirectory cwd path) = false
  notExcluded : selection.excluded path (disk.isDirectory cwd path) = false

theorem Selection.Passes.congr {selection : Selection} {disk disk' : Disk} {cwd : Location}
    {path : Path} (h : selection.Passes disk cwd path)
    (hsame : disk.isDirectory cwd path = disk'.isDirectory cwd path) :
    selection.Passes disk' cwd path :=
  ⟨hsame ▸ h.notIgnored, hsame ▸ h.notExcluded⟩

namespace Walk

/-! ## The turn of one entry -/

section Turn

variable (disk : Disk) (cwd : Location) (selection : Selection)

/-- An entry is a directory that is entered. -/
structure Enters (isRoot : Bool) (path : Path) (name : String) : Prop where
  looked : isPassedOver name = false
  passes : selection.Passes disk cwd path
  isDirectory : disk.isDirectory cwd path = true
  notOutput : path.same selection.outputRoot = false
  /-- Only in the root are directories with a configuration of their own entered. -/
  isRoot_of_hasConfig : hasConfig disk cwd path = true → isRoot = true

/-- An entry is a document that is taken. -/
structure Takes (path : Path) (name : String) : Prop where
  looked : isPassedOver name = false
  passes : selection.Passes disk cwd path
  notDirectory : disk.isDirectory cwd path = false
  literate : isLiterate path = true

variable {disk cwd selection} {isRoot : Bool} {path : Path} {name : String}
  {enter : Path → Walk → Except CheckError Walk} {walk : Walk}

theorem not_takes_of_enters (h : Enters disk cwd selection isRoot path name) :
    ¬Takes disk cwd selection path name := by
  intro htakes
  cases h.isDirectory.symm.trans htakes.notDirectory

theorem takeEntry_of_passes (hlooked : isPassedOver name = false)
    (hpasses : selection.Passes disk cwd path) :
    takeEntry disk cwd selection isRoot enter path name walk =
      if disk.isDirectory cwd path then
        if path.same selection.outputRoot || (!isRoot && hasConfig disk cwd path) then .ok walk
        else enter path walk
      else if isLiterate path then .ok { walk with files := walk.files ++ [path] }
      else .ok walk := by
  unfold takeEntry
  rw [hlooked, if_neg Bool.false_ne_true]
  dsimp only
  rw [hpasses.notIgnored, hpasses.notExcluded, Bool.or_self, if_neg Bool.false_ne_true]

theorem takeEntry_of_enters (h : Enters disk cwd selection isRoot path name) :
    takeEntry disk cwd selection isRoot enter path name walk = enter path walk := by
  have hown : (!isRoot && hasConfig disk cwd path) = false := by
    cases hconfig : hasConfig disk cwd path with
    | false => exact Bool.and_false _
    | true => rw [h.isRoot_of_hasConfig hconfig]; rfl
  rw [takeEntry_of_passes h.looked h.passes, if_pos h.isDirectory, h.notOutput, hown, Bool.or_self,
    if_neg Bool.false_ne_true]

theorem takeEntry_of_takes (h : Takes disk cwd selection path name) :
    takeEntry disk cwd selection isRoot enter path name walk =
      .ok { walk with files := walk.files ++ [path] } := by
  rw [takeEntry_of_passes h.looked h.passes, h.notDirectory, if_neg Bool.false_ne_true,
    if_pos h.literate]

theorem takeEntry_of_neither (henters : ¬Enters disk cwd selection isRoot path name)
    (htakes : ¬Takes disk cwd selection path name) :
    takeEntry disk cwd selection isRoot enter path name walk = .ok walk := by
  by_cases hlooked : isPassedOver name = true
  · unfold takeEntry
    rw [if_pos hlooked]
  rw [Bool.not_eq_true] at hlooked
  by_cases hpasses : selection.Passes disk cwd path
  · rw [takeEntry_of_passes hlooked hpasses]
    by_cases hdirectory : disk.isDirectory cwd path = true
    · rw [if_pos hdirectory]
      split
      · rfl
      rename_i hin
      rw [Bool.or_eq_true, not_or, Bool.not_eq_true, Bool.and_eq_true, not_and] at hin
      refine absurd ⟨hlooked, hpasses, hdirectory, hin.1, fun hconfig => ?_⟩ henters
      cases isRoot with
      | true => rfl
      | false => exact absurd hconfig (hin.2 rfl)
    · rw [Bool.not_eq_true] at hdirectory
      rw [hdirectory, if_neg Bool.false_ne_true, if_neg]
      exact fun hliterate => htakes ⟨hlooked, hpasses, hdirectory, hliterate⟩
  · unfold takeEntry
    rw [hlooked, if_neg Bool.false_ne_true]
    dsimp only
    split
    · rfl
    rename_i hin
    rw [Bool.or_eq_true, not_or, Bool.not_eq_true, Bool.not_eq_true] at hin
    exact absurd ⟨hin.1, hin.2⟩ hpasses

end Turn

/-- Below a directory, a document is found by some names, the last of which is its own. -/
inductive Finds (disk : Disk) (cwd : Location) (selection : Selection) :
    Bool → Path → List String → Prop
  | document {isRoot : Bool} {directory : Path} {name : String} :
    disk.Lists cwd directory name → Takes disk cwd selection (directory.join ⟨name⟩) name →
      Finds disk cwd selection isRoot directory [name]
  | inside {isRoot : Bool} {directory : Path} {name : String} {names : List String} :
    disk.Lists cwd directory name →
      Enters disk cwd selection isRoot (directory.join ⟨name⟩) name →
      Finds disk cwd selection false (directory.join ⟨name⟩) names →
      Finds disk cwd selection isRoot directory (name :: names)

/-! ## States of a walk before and after -/

/-- From one state of a walk to the other, the documents that some names lead to below a directory
are found, each once. -/
def Gathers (directory : Path) (P : List String → Prop) (before after : Walk) : Prop :=
  ∃ found : List (List String), after.files = before.files ++ found.map directory.under ∧
    found.Nodup ∧ ∀ names, names ∈ found ↔ P names

section Gathers

variable {directory : Path} {P Q : List String → Prop} {a b c : Walk}

theorem gathers_none (hfiles : b.files = a.files) (h : ∀ names, ¬P names) :
    Gathers directory P a b :=
  ⟨[], by rw [hfiles, List.map_nil, List.append_nil], .nil, fun names =>
    iff_of_false List.not_mem_nil (h names)⟩

theorem gathers_one {names : List String} (hfiles : b.files = a.files ++ [directory.under names]) :
    Gathers directory (· = names) a b :=
  ⟨[names], hfiles, List.pairwise_singleton .., fun _ => List.mem_singleton⟩

theorem Gathers.congr (h : Gathers directory P a b) (hiff : ∀ names, P names ↔ Q names) :
    Gathers directory Q a b := by
  obtain ⟨found, hfiles, hnodup, hmem⟩ := h
  exact ⟨found, hfiles, hnodup, fun names => (hmem names).trans (hiff names)⟩

theorem Gathers.append (hab : Gathers directory P a b) (hbc : Gathers directory Q b c)
    (hdisjoint : ∀ names, P names → ¬Q names) :
    Gathers directory (fun names => P names ∨ Q names) a c := by
  obtain ⟨found, hfiles, hnodup, hmem⟩ := hab
  obtain ⟨found', hfiles', hnodup', hmem'⟩ := hbc
  refine ⟨found ++ found', ?_, ?_, fun names => ?_⟩
  · rw [hfiles', hfiles, List.map_append, List.append_assoc]
  · refine List.nodup_append.2 ⟨hnodup, hnodup', ?_⟩
    rintro names hnames names' hnames' rfl
    exact hdisjoint names ((hmem names).1 hnames) ((hmem' names).1 hnames')
  · rw [List.mem_append, hmem, hmem']

theorem Gathers.inside {name : String} (h : Gathers (directory.join ⟨name⟩) P a b) :
    Gathers directory (fun names => ∃ rest, names = name :: rest ∧ P rest) a b := by
  obtain ⟨found, hfiles, hnodup, hmem⟩ := h
  refine ⟨found.map (name :: ·), ?_, ?_, fun names => ?_⟩
  · rw [hfiles, List.map_map]
    rfl
  · exact List.pairwise_map.2 (hnodup.imp fun hne heq => hne (List.cons.inj heq).2)
  · rw [List.mem_map]
    constructor
    · rintro ⟨rest, hrest, rfl⟩
      exact ⟨rest, rfl, (hmem rest).1 hrest⟩
    · rintro ⟨rest, rfl, hrest⟩
      exact ⟨rest, (hmem rest).2 hrest, rfl⟩

/-- One entry after the other: each finds what begins with its own name. -/
theorem gathers_foldlM {step : Walk → String × Entry → Except CheckError Walk}
    {items : List (String × Entry)} (hitems : (items.map Prod.fst).Nodup)
    (hstep : ∀ item ∈ items, ∀ a b, step a item = .ok b →
      Gathers directory (fun names => names.head? = some item.1 ∧ P names) a b)
    (h : items.foldlM step a = .ok b) :
    Gathers directory
      (fun names => ∃ name ∈ items.map Prod.fst, names.head? = some name ∧ P names) a b := by
  induction items generalizing a with
  | nil =>
    obtain rfl : a = b := Except.ok.inj h
    exact gathers_none rfl (by simp)
  | cons item others ih =>
    obtain ⟨hitem, hothers⟩ := List.forall_mem_cons.1 hstep
    obtain ⟨hnew, hnodup⟩ := List.nodup_cons.1 (List.map_cons ▸ hitems)
    rw [List.foldlM_cons] at h
    obtain ⟨middle, hfirst, hrest⟩ := bind_eq_ok_iff.1 h
    refine ((hitem a middle hfirst).append (ih hnodup hothers hrest) ?_).congr fun names => ?_
    · rintro names ⟨hhead, -⟩ ⟨name, hname, hhead', -⟩
      obtain rfl := Option.some.inj (hhead.symm.trans hhead')
      exact hnew hname
    · simp only [List.map_cons, List.mem_cons, exists_eq_or_imp]

end Gathers

/-! ## The walk -/

section Run

variable {disk : Disk} {cwd : Location} {selection : Selection} {isRoot : Bool}
  {directory : Path} {name : String}

theorem Finds.exists_head {names : List String}
    (h : Finds disk cwd selection isRoot directory names) :
    ∃ name, names.head? = some name ∧ disk.Lists cwd directory name := by
  cases h with
  | document hlists => exact ⟨_, rfl, hlists⟩
  | inside hlists => exact ⟨_, rfl, hlists⟩

theorem finds_iff_of_enters (hlists : disk.Lists cwd directory name)
    (henters : Enters disk cwd selection isRoot (directory.join ⟨name⟩) name)
    (names : List String) :
    (∃ rest, names = name :: rest ∧ Finds disk cwd selection false (directory.join ⟨name⟩) rest) ↔
      names.head? = some name ∧ Finds disk cwd selection isRoot directory names := by
  constructor
  · rintro ⟨rest, rfl, hrest⟩
    exact ⟨rfl, .inside hlists henters hrest⟩
  · rintro ⟨hhead, hfinds⟩
    cases hfinds with
    | document _ htakes =>
      cases hhead
      exact absurd htakes (not_takes_of_enters henters)
    | inside _ _ hrest =>
      cases hhead
      exact ⟨_, rfl, hrest⟩

theorem finds_iff_of_not_enters (hlists : disk.Lists cwd directory name)
    (henters : ¬Enters disk cwd selection isRoot (directory.join ⟨name⟩) name)
    (names : List String) :
    names = [name] ∧ Takes disk cwd selection (directory.join ⟨name⟩) name ↔
      names.head? = some name ∧ Finds disk cwd selection isRoot directory names := by
  constructor
  · rintro ⟨rfl, htakes⟩
    exact ⟨rfl, .document hlists htakes⟩
  · rintro ⟨hhead, hfinds⟩
    cases hfinds with
    | document _ htakes =>
      cases hhead
      exact ⟨rfl, htakes⟩
    | inside _ hother =>
      cases hhead
      exact absurd hother henters

theorem gathers_takeEntry (hlists : disk.Lists cwd directory name)
    {enter : Path → Walk → Except CheckError Walk}
    (henter : ∀ a b, enter (directory.join ⟨name⟩) a = .ok b →
      Gathers (directory.join ⟨name⟩) (Finds disk cwd selection false (directory.join ⟨name⟩)) a b)
    {a b : Walk}
    (h : takeEntry disk cwd selection isRoot enter (directory.join ⟨name⟩) name a = .ok b) :
    Gathers directory
      (fun names => names.head? = some name ∧ Finds disk cwd selection isRoot directory names)
      a b := by
  by_cases henters : Enters disk cwd selection isRoot (directory.join ⟨name⟩) name
  · rw [takeEntry_of_enters henters] at h
    exact (henter a b h).inside.congr (finds_iff_of_enters hlists henters)
  by_cases htakes : Takes disk cwd selection (directory.join ⟨name⟩) name
  · rw [takeEntry_of_takes htakes] at h
    have hone : Gathers directory (· = [name]) a b :=
      gathers_one (congrArg Walk.files (Except.ok.inj h).symm)
    exact hone.congr fun names =>
      (and_iff_left htakes).symm.trans (finds_iff_of_not_enters hlists henters names)
  · rw [takeEntry_of_neither henters htakes] at h
    exact gathers_none (congrArg Walk.files (Except.ok.inj h).symm) fun names hfinds =>
      htakes ((finds_iff_of_not_enters hlists henters names).2 hfinds).2

/-- No path that is too long leads to a directory. -/
theorem lookup_ne_ok_of_long (hlong : maxPathSize ≤ directory.size)
    (found : Location × Entry) : disk.lookup cwd directory ≠ .ok found := fun hlookup =>
  Nat.not_lt.2 hlong (Disk.find_eq_ok_iff.1 (Disk.locate_of_lookup hlookup)).1.size_lt

theorem run_of_absent (habsent : ∀ l, disk.lookup cwd directory ≠ .ok (l, .directory)) (fuel : Nat)
    (walk : Walk) : run disk cwd selection fuel isRoot directory walk = .ok walk := by
  cases fuel with
  | zero => rfl
  | succ fuel =>
    rw [run]
    split
    · rename_i l hlookup
      exact absurd hlookup (habsent l)
    · rfl

theorem Finds.exists_lookup {names : List String}
    (h : Finds disk cwd selection isRoot directory names) :
    ∃ l, disk.lookup cwd directory = .ok (l, .directory) := by
  obtain ⟨name, -, hname⟩ := h.exists_head
  obtain ⟨l, hlookup, -⟩ := Disk.lists_iff.1 hname
  exact ⟨l, hlookup⟩

/-- A walk that succeeds finds what can be found below its directory. -/
theorem gathers_run (hnamed : disk.WellNamed) {fuel : Nat}
    (hfuel : maxPathSize ≤ fuel + directory.size) {a b : Walk}
    (h : run disk cwd selection fuel isRoot directory a = .ok b) :
    Gathers directory (Finds disk cwd selection isRoot directory) a b := by
  have hnothing {directory : Path} (hno : ∀ l, disk.lookup cwd directory ≠ .ok (l, .directory))
      (isRoot : Bool) (a : Walk) :
      Gathers directory (Finds disk cwd selection isRoot directory) a a := by
    refine gathers_none rfl fun names hfinds => ?_
    obtain ⟨l, hlookup⟩ := hfinds.exists_lookup
    exact hno l hlookup
  induction fuel generalizing isRoot directory a b with
  | zero =>
    obtain rfl := Except.ok.inj h
    exact hnothing (fun l => lookup_ne_ok_of_long (by omega) _) isRoot a
  | succ fuel ih =>
    rw [run] at h
    split at h
    · rename_i l hlookup
      split at h
      · cases h
      have hlists {name : String} (hname : name ∈ (disk.children l).map Prod.fst) :
          disk.Lists cwd directory name := Disk.lists_iff.2 ⟨l, hlookup, hname⟩
      have hlonger {name : String} (hname : name ∈ (disk.children l).map Prod.fst) :
          maxPathSize ≤ fuel + (directory.join ⟨name⟩).size := by
        have hlt := ((hlists hname).isFileName hnamed).size_lt_join directory
        omega
      have hfold : Gathers directory (fun names => ∃ name ∈ (disk.children l).map Prod.fst,
          names.head? = some name ∧ Finds disk cwd selection isRoot directory names) _ b :=
        gathers_foldlM (disk.nodup_children l) (fun item hitem a b hturn =>
          have hname := List.mem_map_of_mem hitem
          gathers_takeEntry (hlists hname) (fun a b => ih (hlonger hname)) hturn) h
      -- the directory that is noted as visited is no document
      refine Gathers.congr (show Gathers directory _ a b from hfold) fun names => ?_
      constructor
      · rintro ⟨name, -, -, hfinds⟩
        exact hfinds
      · intro hfinds
        obtain ⟨name, hhead, hname⟩ := hfinds.exists_head
        obtain ⟨l', hlookup', hmem⟩ := Disk.lists_iff.1 hname
        cases hlookup.symm.trans hlookup'
        exact ⟨name, hmem, hhead, hfinds⟩
    · rename_i hno
      obtain rfl := Except.ok.inj h
      exact hnothing hno isRoot a

end Run

end Walk

end LiterateCheck
