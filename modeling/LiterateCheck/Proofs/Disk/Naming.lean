import LiterateCheck.Proofs.Disk.Writing
import LiterateCheck.Proofs.Path.Joining

/-!
# Names on a disk

On a well named disk every step of every location is a name that a file can have. Following a path
on such a disk ends at a well named location, taken or not.
-/

namespace LiterateCheck

/-- Every step is a name that a file can have. -/
def Location.WellNamed (location : Location) : Prop :=
  ∀ name ∈ location, Path.IsFileName name

instance (location : Location) : Decidable location.WellNamed :=
  inferInstanceAs (Decidable (∀ name ∈ location, Path.IsFileName name))

namespace Disk

/-- Every step of every location is a name that a file can have, as on every file system. -/
def WellNamed (disk : Disk) : Prop :=
  ∀ item ∈ disk.entries, item.1.WellNamed

theorem wellNamed_empty : Disk.empty.WellNamed := by
  intro item hitem
  cases hitem

theorem WellNamed.location {disk : Disk} (h : disk.WellNamed) {l : Location} {entry : Entry}
    (hentry : disk.entryAt? l = some entry) : l.WellNamed := by
  unfold entryAt? at hentry
  split at hentry
  · rename_i hl
    subst hl
    exact fun name hname => absurd hname List.not_mem_nil
  · obtain ⟨front, back, hentries, -⟩ := List.lookup_eq_some_iff.1 hentry
    exact h (l, entry) (hentries ▸ List.mem_append_right _ (List.mem_cons_self ..))

theorem WellNamed.put {disk : Disk} (h : disk.WellNamed) {place : Location} (entry : Entry)
    (hplace : place.WellNamed) : (disk.put place entry).WellNamed := by
  intro item hitem
  rcases fst_mem_putEntry.1 (List.mem_map_of_mem hitem) with hfst | hfst
  · rw [hfst]
    exact hplace
  · obtain ⟨item', hitem', heq⟩ := List.mem_map.1 hfst
    rw [← heq]
    exact h item' hitem'

theorem WellNamed.keep {disk : Disk} (h : disk.WellNamed) (p : Location → Bool) :
    (disk.keep p).WellNamed :=
  fun item hitem => h item (List.mem_filter.1 hitem).1

theorem Follows.wellNamed {disk : Disk} (hdisk : disk.WellNamed) {followLast : Bool}
    {links : Nat} {here : Location} {steps : List String} {found : Found}
    (h : disk.Follows followLast links here steps found) (hhere : here.WellNamed)
    (hsteps : ∀ step ∈ steps, step ≠ "." → step ≠ ".." → Path.IsFileName step) :
    found.location.WellNamed := by
  induction h with
  | stop => exact hhere
  | stay _ ih => exact ih hhere (List.forall_mem_cons.1 hsteps).2
  | up _ ih =>
    exact ih (fun name hname => hhere name ((List.dropLast_sublist _).subset hname))
      (List.forall_mem_cons.1 hsteps).2
  | into _ hentry _ ih => exact ih (hdisk.location hentry) (List.forall_mem_cons.1 hsteps).2
  | file _ hentry => exact hdisk.location hentry
  | vacant hname _ =>
    refine List.forall_mem_append.2 ⟨hhere, List.forall_mem_singleton.2 ?_⟩
    exact hsteps _ (List.mem_singleton_self _) hname.ne_here hname.ne_up
  | link _ hentry _ => exact hdisk.location hentry
  | through _ _ _ _ _ ih =>
    refine ih ?_ (List.forall_mem_append.2 ⟨fun step hstep => Path.isFileName_of_mem_steps hstep,
      (List.forall_mem_cons.1 hsteps).2⟩)
    split
    · exact fun name hname => absurd hname List.not_mem_nil
    · exact hhere

theorem WellNamed.find {disk : Disk} (h : disk.WellNamed) {cwd : Location} {followLast : Bool}
    {path : Path} {steps : List String} {found : Found}
    (hfind : disk.find cwd followLast path steps = .ok found)
    (hsteps : ∀ step ∈ steps, step ≠ "." → step ≠ ".." → Path.IsFileName step) :
    found.location.WellNamed := by
  obtain ⟨hadmits, hfollows⟩ := find_eq_ok_iff.1 hfind
  refine hfollows.wellNamed h ?_ hsteps
  unfold start
  split
  · exact fun name hname => absurd hname List.not_mem_nil
  · rename_i hrelative
    exact h.location (hadmits.starts (by simpa using hrelative))

end Disk

end LiterateCheck
