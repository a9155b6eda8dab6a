import LiterateCheck.Proofs.Discovery.Routes
import Mathlib.Data.List.Nodup
import Mathlib.Data.List.Perm.Subperm

/-!
# How a walk goes

A walk follows links, so nothing that it meets gets it closer to its end. What does is that its
paths get longer, while the system takes no more than so many bytes for one.

1. `Goes` is a walk without a bound on its depth: what is ahead of it, its state, the directories
   that it lists, in their order, and how it ends. It goes one way only (`Goes.unique`).
2. Of no two directories that it lists the same is noted, on the way into a directory and back out
   of it (`Goes.visited`). So none that has a canonical path is listed twice (`Goes.canonical`).
3. The bound on the depth is never reached, and what a bounded walk gives is where the walk ends
   (`exists_goes_run`, by induction on the depth). Where it succeeds, all its routes were listed
   (`Goes.mem_listed`).
-/

namespace LiterateCheck

/-! ## Directories on a disk -/

namespace Disk

/-- Besides the root, different directories are different entries. -/
theorem length_le_of_directories {disk : Disk} {found : List Location} (hnodup : found.Nodup)
    (hfound : ∀ l ∈ found, disk.entryAt? l = some .directory) :
    found.length ≤ disk.entries.length + 1 := by
  have hplaces : found ⊆ [] :: disk.entries.map Prod.fst := by
    intro l hl
    by_cases hnil : l = []
    · rw [hnil]
      exact List.mem_cons_self
    · have hentry := (mem_entries_iff hnil).2 (hfound l hl)
      exact List.mem_cons_of_mem _ (List.mem_map_of_mem hentry)
  have hle := (hnodup.subperm hplaces).length_le
  rwa [List.length_cons, List.length_map] at hle

end Disk

namespace Walk

/-! ## A walk without bound -/

/-- What is ahead of a walk. -/
inductive Ahead where
  | directory (isRoot : Bool) (path : Path)
  /-- Those entries of a directory, one after the other. -/
  | entries (isRoot : Bool) (directory : Path) (names : List String)

/-- From a state, a walk lists some directories and ends. -/
inductive Goes (disk : Disk) (cwd : Location) (selection : Selection) :
    Ahead → Walk → List Path → Except CheckError Walk → Prop
  | absent {isRoot : Bool} {path : Path} {walk : Walk} :
    (∀ l, disk.lookup cwd path ≠ .ok (l, .directory)) →
      Goes disk cwd selection (.directory isRoot path) walk [] (.ok walk)
  | again {isRoot : Bool} {path : Path} {walk : Walk} {l : Location} :
    disk.lookup cwd path = .ok (l, .directory) → mark disk cwd path ∈ walk.visited →
      Goes disk cwd selection (.directory isRoot path) walk [] (.error (.symlinkCycle path))
  | lists {isRoot : Bool} {path : Path} {walk : Walk} {l : Location} {listed : List Path}
    {result : Except CheckError Walk} :
    disk.lookup cwd path = .ok (l, .directory) → mark disk cwd path ∉ walk.visited →
      Goes disk cwd selection (.entries isRoot path ((disk.children l).map Prod.fst))
        { walk with visited := mark disk cwd path :: walk.visited } listed result →
      Goes disk cwd selection (.directory isRoot path) walk (path :: listed) result
  | done {isRoot : Bool} {directory : Path} {walk : Walk} :
    Goes disk cwd selection (.entries isRoot directory []) walk [] (.ok walk)
  | enters {isRoot : Bool} {directory : Path} {name : String} {names : List String}
    {walk middle : Walk} {inside listed : List Path} {result : Except CheckError Walk} :
    Enters disk cwd selection isRoot (directory.join ⟨name⟩) name →
      Goes disk cwd selection (.directory false (directory.join ⟨name⟩)) walk inside
        (.ok middle) →
      Goes disk cwd selection (.entries isRoot directory names) middle listed result →
      Goes disk cwd selection (.entries isRoot directory (name :: names)) walk (inside ++ listed)
        result
  | fails {isRoot : Bool} {directory : Path} {name : String} {names : List String} {walk : Walk}
    {listed : List Path} {error : CheckError} :
    Enters disk cwd selection isRoot (directory.join ⟨name⟩) name →
      Goes disk cwd selection (.directory false (directory.join ⟨name⟩)) walk listed
        (.error error) →
      Goes disk cwd selection (.entries isRoot directory (name :: names)) walk listed
        (.error error)
  | takes {isRoot : Bool} {directory : Path} {name : String} {names : List String} {walk : Walk}
    {listed : List Path} {result : Except CheckError Walk} :
    Takes disk cwd selection (directory.join ⟨name⟩) name →
      Goes disk cwd selection (.entries isRoot directory names)
        { walk with files := walk.files ++ [directory.join ⟨name⟩] } listed result →
      Goes disk cwd selection (.entries isRoot directory (name :: names)) walk listed result
  | leavesOut {isRoot : Bool} {directory : Path} {name : String} {names : List String}
    {walk : Walk} {listed : List Path} {result : Except CheckError Walk} :
    ¬Enters disk cwd selection isRoot (directory.join ⟨name⟩) name →
      ¬Takes disk cwd selection (directory.join ⟨name⟩) name →
      Goes disk cwd selection (.entries isRoot directory names) walk listed result →
      Goes disk cwd selection (.entries isRoot directory (name :: names)) walk listed result

section Goes

variable {disk : Disk} {cwd : Location} {selection : Selection} {ahead : Ahead} {walk : Walk}
  {listed listed' : List Path} {result result' : Except CheckError Walk}

/-- A walk goes one way only. -/
theorem Goes.unique (h : Goes disk cwd selection ahead walk listed result)
    (h' : Goes disk cwd selection ahead walk listed' result') :
    listed' = listed ∧ result' = result := by
  induction h generalizing listed' result' with
  | absent hno =>
    cases h' with
    | absent => exact ⟨rfl, rfl⟩
    | again hlookup => exact absurd hlookup (hno _)
    | lists hlookup => exact absurd hlookup (hno _)
  | again hlookup hvisited =>
    cases h' with
    | absent hno => exact absurd hlookup (hno _)
    | again => exact ⟨rfl, rfl⟩
    | lists _ hnew => exact absurd hvisited hnew
  | lists hlookup hnew _ ih =>
    cases h' with
    | absent hno => exact absurd hlookup (hno _)
    | again _ hvisited => exact absurd hvisited hnew
    | lists hlookup' _ hentries =>
      cases hlookup.symm.trans hlookup'
      obtain ⟨rfl, rfl⟩ := ih hentries
      exact ⟨rfl, rfl⟩
  | done =>
    cases h'
    exact ⟨rfl, rfl⟩
  | enters henters _ _ ih ihrest =>
    cases h' with
    | enters _ hinside hrest =>
      obtain ⟨rfl, hmiddle⟩ := ih hinside
      cases hmiddle
      obtain ⟨rfl, rfl⟩ := ihrest hrest
      exact ⟨rfl, rfl⟩
    | fails _ hinside => cases (ih hinside).2
    | takes htakes => exact absurd htakes (not_takes_of_enters henters)
    | leavesOut hnot => exact absurd henters hnot
  | fails henters _ ih =>
    cases h' with
    | enters _ hinside => cases (ih hinside).2
    | fails _ hinside => exact ih hinside
    | takes htakes => exact absurd htakes (not_takes_of_enters henters)
    | leavesOut hnot => exact absurd henters hnot
  | takes htakes _ ih =>
    cases h' with
    | enters henters => exact absurd htakes (not_takes_of_enters henters)
    | fails henters => exact absurd htakes (not_takes_of_enters henters)
    | takes _ hrest => exact ih hrest
    | leavesOut _ hnot => exact absurd htakes hnot
  | leavesOut henters htakes _ ih =>
    cases h' with
    | enters hin => exact absurd hin henters
    | fails hin => exact absurd hin henters
    | takes hin => exact absurd hin htakes
    | leavesOut _ _ hrest => exact ih hrest

/-- What a walk notes of the directories that it lists is different from what was noted before, and
of each it is something else. Where it goes on, all of this is noted. -/
theorem Goes.visited (h : Goes disk cwd selection ahead walk listed result)
    (hvisited : walk.visited.Nodup) :
    ((listed.map (mark disk cwd)).reverse ++ walk.visited).Nodup ∧
      ∀ after, result = .ok after →
        after.visited = (listed.map (mark disk cwd)).reverse ++ walk.visited := by
  induction h with
  | absent => exact ⟨hvisited, fun _ hafter => by rw [← Except.ok.inj hafter]; rfl⟩
  | again => exact ⟨hvisited, fun _ hafter => nomatch hafter⟩
  | lists _ hnew _ ih =>
    rw [List.map_cons, List.reverse_cons, List.append_assoc, List.singleton_append]
    exact ih (List.nodup_cons.2 ⟨hnew, hvisited⟩)
  | done => exact ⟨hvisited, fun _ hafter => by rw [← Except.ok.inj hafter]; rfl⟩
  | enters _ _ _ ih ihrest =>
    obtain ⟨hinside, hmiddle⟩ := ih hvisited
    rw [← hmiddle _ rfl] at hinside
    rw [List.map_append, List.reverse_append, List.append_assoc, ← hmiddle _ rfl]
    exact ihrest hinside
  | fails _ _ ih => exact ⟨(ih hvisited).1, fun _ hafter => nomatch hafter⟩
  | takes _ _ ih => exact ih hvisited
  | leavesOut _ _ _ ih => exact ih hvisited

theorem Goes.exists_lookup (h : Goes disk cwd selection ahead walk listed result) :
    ∀ path ∈ listed, ∃ l, disk.lookup cwd path = .ok (l, .directory) := by
  induction h with
  | absent => simp
  | again => simp
  | lists hlookup _ _ ih => exact List.forall_mem_cons.2 ⟨⟨_, hlookup⟩, ih⟩
  | done => simp
  | enters _ _ _ ih ihrest => exact List.forall_mem_append.2 ⟨ih, ihrest⟩
  | fails _ _ ih => exact ih
  | takes _ _ ih => exact ih
  | leavesOut _ _ _ ih => exact ih

/-- No canonical path is listed twice, so no more of them than the disk has entries, and the
root. -/
theorem Goes.canonical (hclosed : disk.Closed) (hnamed : disk.WellNamed)
    (h : Goes disk cwd selection ahead walk listed result)
    (hnodup : (listed.map (mark disk cwd)).Nodup) :
    (listed.filterMap (disk.canonical? cwd)).Nodup ∧
      (listed.filterMap (disk.canonical? cwd)).length ≤ disk.entries.length + 1 := by
  have hcanonical : (listed.filterMap (disk.canonical? cwd)).Nodup := by
    refine List.pairwise_filterMap.2 ((List.pairwise_map.1 hnodup).imp ?_)
    rintro a b hne canonical ha canonical' hb rfl
    unfold mark at hne
    rw [ha, hb] at hne
    exact hne rfl
  have hplace : ∀ canonical ∈ listed.filterMap (disk.canonical? cwd),
      disk.entryAt? canonical.way = some .directory ∧ Location.path canonical.way = canonical := by
    intro canonical hmem
    obtain ⟨path, hpath, hsome⟩ := List.mem_filterMap.1 hmem
    obtain ⟨l, hlookup⟩ := h.exists_lookup path hpath
    obtain rfl := Disk.eq_path_of_canonical? hlookup hsome
    have hentry := hclosed.entryAt?_of_lookup hlookup
    rw [Path.way_path (hnamed.location hentry)]
    exact ⟨hentry, rfl⟩
  refine ⟨hcanonical, ?_⟩
  have hways : ((listed.filterMap (disk.canonical? cwd)).map Path.way).Nodup := by
    refine List.Nodup.map_on (fun a ha b hb heq => ?_) hcanonical
    rw [← (hplace a ha).2, ← (hplace b hb).2, heq]
  have hle := Disk.length_le_of_directories hways fun l hl => by
    obtain ⟨canonical, hmem, rfl⟩ := List.mem_map.1 hl
    exact (hplace canonical hmem).1
  rwa [List.length_map] at hle

end Goes

/-! ## A bound that is not reached -/

section Bound

variable {disk : Disk} {cwd : Location} {selection : Selection} {isRoot : Bool} {directory : Path}

/-- The entries of a directory one after the other, where each directory can be gone through from
any state. -/
theorem exists_goes_foldlM {enter : Path → Walk → Except CheckError Walk}
    {items : List (String × Entry)}
    (henter : ∀ name ∈ items.map Prod.fst, ∀ walk, ∃ listed, Goes disk cwd selection
      (.directory false (directory.join ⟨name⟩)) walk listed (enter (directory.join ⟨name⟩) walk))
    (walk : Walk) :
    ∃ listed, Goes disk cwd selection (.entries isRoot directory (items.map Prod.fst)) walk listed
      (items.foldlM (fun walk item =>
        takeEntry disk cwd selection isRoot enter (directory.join ⟨item.1⟩) item.1 walk) walk) := by
  induction items generalizing walk with
  | nil => exact ⟨[], .done⟩
  | cons item others ih =>
    obtain ⟨name, entry⟩ := item
    rw [List.map_cons] at henter ⊢
    obtain ⟨hname, hothers⟩ := List.forall_mem_cons.1 henter
    rw [List.foldlM_cons]
    by_cases henters : Enters disk cwd selection isRoot (directory.join ⟨name⟩) name
    · rw [takeEntry_of_enters henters]
      obtain ⟨inside, hinside⟩ := hname walk
      cases hresult : enter (directory.join ⟨name⟩) walk with
      | error error =>
        rw [hresult] at hinside
        exact ⟨inside, .fails henters hinside⟩
      | ok middle =>
        rw [hresult] at hinside
        obtain ⟨listed, hrest⟩ := ih hothers middle
        exact ⟨inside ++ listed, .enters henters hinside hrest⟩
    by_cases htakes : Takes disk cwd selection (directory.join ⟨name⟩) name
    · rw [takeEntry_of_takes htakes]
      obtain ⟨listed, hrest⟩ :=
        ih hothers { walk with files := walk.files ++ [directory.join ⟨name⟩] }
      exact ⟨listed, .takes htakes hrest⟩
    · rw [takeEntry_of_neither henters htakes]
      obtain ⟨listed, hrest⟩ := ih hothers walk
      exact ⟨listed, .leavesOut henters htakes hrest⟩

/-- With fuel for all that a path may still get longer, a bounded walk ends where the walk does. -/
theorem exists_goes_run (hnamed : disk.WellNamed) {fuel : Nat}
    (hfuel : maxPathSize ≤ fuel + directory.size) (walk : Walk) :
    ∃ listed, Goes disk cwd selection (.directory isRoot directory) walk listed
      (run disk cwd selection fuel isRoot directory walk) := by
  induction fuel generalizing isRoot directory walk with
  | zero => exact ⟨[], .absent fun l => lookup_ne_ok_of_long (by omega) _⟩
  | succ fuel ih =>
    rw [run]
    split
    · rename_i l hlookup
      split
      · rename_i hvisited
        exact ⟨[], .again hlookup hvisited⟩
      rename_i hnew
      have hlonger : ∀ name ∈ (disk.children l).map Prod.fst,
          maxPathSize ≤ fuel + (directory.join ⟨name⟩).size := by
        intro name hname
        have hlists : disk.Lists cwd directory name := Disk.lists_iff.2 ⟨l, hlookup, hname⟩
        have hlt := (hlists.isFileName hnamed).size_lt_join directory
        omega
      obtain ⟨listed, hentries⟩ := @exists_goes_foldlM disk cwd selection isRoot directory
        (run disk cwd selection fuel false) (disk.children l)
        (fun name hname walk => ih (hlonger name hname) walk)
        { walk with visited := mark disk cwd directory :: walk.visited }
      exact ⟨directory :: listed, .lists hlookup hnew hentries⟩
    · rename_i hno
      exact ⟨[], .absent hno⟩

end Bound

/-- A walk that succeeds lists what its routes lead to. -/
theorem Goes.mem_listed {disk : Disk} (hnamed : disk.WellNamed) {cwd : Location}
    {selection : Selection} {isRoot : Bool} {directory : Path} {walk : Walk} {listed : List Path}
    (h : Goes disk cwd selection (.directory isRoot directory) ⟨[], []⟩ listed (.ok walk))
    {names : List String} {noted : List Component}
    (hnotes : Notes disk cwd selection isRoot directory names noted) :
    noted ∈ listed.map (mark disk cwd) := by
  have hfuel : maxPathSize ≤ maxPathSize + directory.size := Nat.le_add_right ..
  obtain ⟨listed', hrun⟩ := @exists_goes_run disk cwd selection isRoot directory hnamed _ hfuel
    ⟨[], []⟩
  have hmem := ((visits_run hnamed hfuel ⟨[], []⟩).mem_iff walk (h.unique hrun).2 noted).2
    (.inr ⟨names, hnotes⟩)
  rw [(h.visited .nil).2 walk rfl, List.append_nil, List.mem_reverse] at hmem
  exact hmem

end Walk

end LiterateCheck
