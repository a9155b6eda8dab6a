import LiterateCheck.Proofs.Disk.Settling
import LiterateCheck.Proofs.Path.Absolute

/-!
# Paths without links

The system gives the canonical path of what a path leads to, unless something on the way has a path
of its own that is too long.

1. A canonical path is that of the location where the path leads (`eq_path_of_canonical?`).
2. There is one wherever all entries of the disk have paths that are short enough
   (`canonical?_of_lookup`), and there is none for an entry whose own path is too long
   (`canonical?_eq_none_of_long`).
3. The canonical path is that of the place in which the path lies (`path_settled`) and lies there
   itself (`settled_canonical`). Paths with the same components lie in one place (`settled_congr`).
-/

namespace LiterateCheck.Disk

variable {disk : Disk} {cwd l : Location} {path canonical : Path} {held : Entry}

theorem canonical?_eq_some_iff : disk.canonical? cwd path = some canonical ↔
    (Text.holdsNul path.text = false ∧ path.text ≠ "" ∧
      (path.isAbsolute = false → disk.entryAt? cwd = some .directory)) ∧
    ∃ l held, disk.withinReach.Follows true maxLinks (start cwd path) path.steps (.entry l held) ∧
      l.path = canonical := by
  have hempty : path.isEmpty = true ↔ path.text = "" := by
    unfold Path.isEmpty
    exact String.isEmpty_iff
  have hstarts : (path.isAbsolute || (disk.entryAt? cwd).any Entry.isDirectory) = true ↔
      (path.isAbsolute = false → disk.entryAt? cwd = some .directory) := by
    rw [Bool.or_eq_true, Entry.any_isDirectory]
    cases path.isAbsolute <;> simp
  unfold canonical?
  split
  · rename_i hrefused
    refine iff_of_false (by simp) fun h => ?_
    rw [Bool.or_eq_true, hempty] at hrefused
    exact hrefused.elim (fun hnul => by cases h.1.1.symm.trans hnul) h.1.2.1
  rename_i htaken
  rw [Bool.or_eq_true, not_or, hempty] at htaken
  split
  · rename_i hgo
    rw [and_iff_right ⟨by simpa using htaken.1, htaken.2, hstarts.1 hgo⟩]
    constructor
    · intro h
      split at h
      · rename_i l held hwalk
        exact ⟨l, held, follows_of_walk hwalk, Option.some.inj h⟩
      · cases h
    · rintro ⟨l, held, hfollows, rfl⟩
      rw [walk_of_follows hfollows]
  · rename_i hstay
    exact iff_of_false (by simp) fun h => hstay (hstarts.2 h.1.2.2)

theorem Follows.of_withinReach {followLast : Bool} {links : Nat} {here : Location}
    {steps : List String} {found : Found}
    (h : disk.withinReach.Follows followLast links here steps found)
    (hfound : found = .entry l held) : disk.Follows followLast links here steps found := by
  have hheld {l : Location} {entry : Entry} (hentry : disk.withinReach.entryAt? l = some entry) :
      disk.entryAt? l = some entry := (extends_keep disk _).entryAt? hentry
  induction h with
  | stop => exact .stop
  | stay _ ih => exact .stay (ih hfound)
  | up _ ih => exact .up (ih hfound)
  | into hname hentry _ ih => exact .into hname (hheld hentry) (ih hfound)
  | file hname hentry => exact .file hname (hheld hentry)
  | vacant => cases hfound
  | link hname hentry hlast => exact .link hname (hheld hentry) hlast
  | through hname hentry hgo hempty _ ih =>
    exact .through hname (hheld hentry) hgo hempty (ih hfound)

theorem eq_path_of_canonical? (hlookup : disk.lookup cwd path = .ok (l, held))
    (h : disk.canonical? cwd path = some canonical) : l.path = canonical := by
  obtain ⟨-, l', held', hfollows, rfl⟩ := canonical?_eq_some_iff.1 h
  obtain ⟨-, hwhole⟩ := find_eq_ok_iff.1 (locate_of_lookup hlookup)
  cases hwhole.found_eq (hfollows.of_withinReach rfl)
  rfl

theorem isAbsolute_of_canonical? (h : disk.canonical? cwd path = some canonical) :
    canonical.isAbsolute = true := by
  obtain ⟨-, l, -, -, rfl⟩ := canonical?_eq_some_iff.1 h
  exact isAbsolute_path l

theorem canonical?_root (disk : Disk) (cwd : Location) :
    disk.canonical? cwd ⟨"/"⟩ = some ⟨"/"⟩ :=
  canonical?_eq_some_iff.2
    ⟨⟨by decide, by decide, fun h => nomatch h⟩, [], .directory, .stay .stop, rfl⟩

/-! ## Whether there is one -/

/-- All entries have paths that are short enough. -/
def Fits (disk : Disk) : Prop :=
  ∀ item ∈ disk.entries, item.1.size < maxPathSize

theorem Fits.withinReach_eq (h : disk.Fits) : disk.withinReach = disk := by
  have hentries : disk.withinReach.entries = disk.entries :=
    List.filter_eq_self.2 fun item hitem => decide_eq_true (h item hitem)
  cases disk
  unfold withinReach keep at hentries ⊢
  congr 1

theorem canonical?_of_lookup (hfits : disk.Fits)
    (hlookup : disk.lookup cwd path = .ok (l, held)) : disk.canonical? cwd path = some l.path := by
  obtain ⟨hadmits, hfollows⟩ := find_eq_ok_iff.1 (locate_of_lookup hlookup)
  refine canonical?_eq_some_iff.2 ⟨⟨hadmits.noNul, hadmits.text_ne_empty, hadmits.starts⟩,
    l, held, ?_, rfl⟩
  rw [hfits.withinReach_eq]
  exact hfollows

theorem canonical?_ne_none (hfits : disk.Fits) (hlookup : disk.lookup cwd path = .ok (l, held)) :
    disk.canonical? cwd path ≠ none := by
  rw [canonical?_of_lookup hfits hlookup]
  exact Option.some_ne_none _

theorem size_append (l l' : Location) : Location.size (l ++ l') = l.size + l'.size := by
  induction l with
  | nil => exact (Nat.zero_add _).symm
  | cons name l ih =>
    show Text.rawSize name + 1 + Location.size (l ++ l') = _
    rw [ih, ← Nat.add_assoc]
    rfl

theorem Closed.withinReach (hclosed : disk.Closed) : disk.withinReach.Closed := by
  intro directory name hsome
  have hne : directory ++ [name] ≠ [] := List.append_ne_nil_of_right_ne_nil _ (by simp)
  unfold Disk.withinReach at hsome ⊢
  rw [entryAt?_keep _ _ hne] at hsome
  split at hsome
  · rename_i hshort
    have hdirectory := hclosed directory name hsome
    by_cases hnil : directory = []
    · rw [hnil, entryAt?_nil]
    rw [entryAt?_keep _ _ hnil, if_pos, hdirectory]
    rw [decide_eq_true_iff, size_append] at hshort
    exact decide_eq_true (Nat.lt_of_le_of_lt (Nat.le_add_right _ _) hshort)
  · exact absurd rfl hsome

theorem canonical?_eq_none_of_long (hclosed : disk.Closed) (habsolute : path.isAbsolute = true)
    (hlookup : disk.lookup cwd path = .ok (l, .directory)) (hlong : maxPathSize ≤ l.size) :
    disk.canonical? cwd path = none := by
  rw [Option.eq_none_iff_forall_ne_some]
  intro canonical h
  obtain ⟨-, l', held, hfollows, rfl⟩ := canonical?_eq_some_iff.1 h
  obtain ⟨-, hwhole⟩ := find_eq_ok_iff.1 (locate_of_lookup hlookup)
  cases hwhole.found_eq (hfollows.of_withinReach rfl)
  unfold start at hfollows
  rw [if_pos habsolute] at hfollows
  have hentry := hfollows.entryAt?_eq_directory hclosed.withinReach (entryAt?_nil _) rfl
  have hnil : l ≠ [] := by
    rintro rfl
    cases hlong
  unfold Disk.withinReach at hentry
  rw [entryAt?_keep _ _ hnil, if_neg (by simpa using hlong)] at hentry
  cases hentry

/-! ## Where paths lie -/

/-- The canonical path is that of the place in which the path lies. -/
theorem path_settled (h : disk.canonical? cwd path = some canonical) :
    (disk.settled cwd path).path = canonical := by
  obtain ⟨-, l, held, hfollows, rfl⟩ := canonical?_eq_some_iff.1 h
  rw [settled_of_follows (hfollows.of_withinReach rfl)]

theorem straight_settled (hclosed : disk.Closed) (hnamed : disk.WellNamed)
    (h : disk.canonical? cwd path = some canonical) : disk.Straight [] (disk.settled cwd path) := by
  obtain ⟨⟨-, -, hstarts⟩, l, held, hfollows, rfl⟩ := canonical?_eq_some_iff.1 h
  have hwhole := hfollows.of_withinReach rfl
  have hstart : disk.entryAt? (start cwd path) = some .directory := by
    unfold start
    split
    · exact entryAt?_nil disk
    · rename_i hrelative
      exact hstarts (by simpa using hrelative)
  rw [settled_of_follows hwhole]
  exact hwhole.straight hclosed hnamed hstart

/-- The canonical path lies where the path does. -/
theorem settled_canonical (hclosed : disk.Closed) (hnamed : disk.WellNamed)
    (h : disk.canonical? cwd path = some canonical) :
    disk.settled cwd canonical = disk.settled cwd path := by
  have hstraight := straight_settled hclosed hnamed h
  rw [← path_settled h]
  unfold settled at hstraight ⊢
  rw [start, if_pos (isAbsolute_path _), Path.way_path hstraight.isFileName]
  exact settle_append walk_nil hstraight

theorem settled_congr {other : Path} (h : path.components = other.components) :
    disk.settled cwd path = disk.settled cwd other := by
  have habsolute : path.isAbsolute = other.isAbsolute := by
    rw [Bool.eq_iff_iff, Path.isAbsolute_iff_head?, Path.isAbsolute_iff_head?, h]
  have hway : path.way = other.way := by
    refine List.map_injective_iff.2 Component.ofName_injective ?_
    rw [← Path.filter_components, ← Path.filter_components, h]
  unfold settled start
  rw [habsolute, hway]

end LiterateCheck.Disk
