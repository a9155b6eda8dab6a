import LiterateCheck.Proofs.Discovery.Marks
import LiterateCheck.Proofs.Discovery.Walking

/-!
# When a walk succeeds

Whether a walk succeeds does not depend on the order in which it takes the entries of a directory.

1. `Reaches` says by which names a directory is reached from another: each name on the way is
   entered. What a walk has to go through are these routes, and of each it notes something
   (`Notes`).
2. A walk succeeds exactly when its routes are `Free`: of none something is noted that was noted
   before, and of no two the same.
3. `Visits` says this of one step of a walk, and what is noted afterwards. It is held by the turn of
   one entry (`visits_takeEntry`), by the turns of all entries of a directory (`visits_foldlM`) and
   so by a whole walk, by induction on what its paths may still get longer (`visits_run`).
4. Of different directories different things are noted. So a walk succeeds where its routes lead to
   different ones (`free_of_apart`), and only there as long as the canonical paths of the disk are
   short enough (`apart_of_free`).
-/

namespace LiterateCheck.Walk

/-- From a directory, names that are entered lead to the directory at a location. -/
inductive Reaches (disk : Disk) (cwd : Location) (selection : Selection) :
    Bool → Path → List String → Location → Prop
  | here {isRoot : Bool} {directory : Path} {l : Location} :
    disk.lookup cwd directory = .ok (l, .directory) →
      Reaches disk cwd selection isRoot directory [] l
  | inside {isRoot : Bool} {directory : Path} {name : String} {names : List String}
    {l : Location} :
    disk.Lists cwd directory name →
      Enters disk cwd selection isRoot (directory.join ⟨name⟩) name →
      Reaches disk cwd selection false (directory.join ⟨name⟩) names l →
      Reaches disk cwd selection isRoot directory (name :: names) l

/-- By some names a directory is reached, of which a walk notes this. -/
def Notes (disk : Disk) (cwd : Location) (selection : Selection) (isRoot : Bool)
    (directory : Path) (names : List String) (noted : List Component) : Prop :=
  (∃ l, Reaches disk cwd selection isRoot directory names l) ∧
    mark disk cwd (directory.under names) = noted

/-- Routes that can all be taken: of none something is noted that was noted before, and of no two
the same. -/
structure Free (R : List String → List Component → Prop) (visited : List (List Component)) :
    Prop where
  fresh : ∀ names noted, R names noted → noted ∉ visited
  apart : ∀ names names' noted, R names noted → R names' noted → names = names'

/-- A step of a walk succeeds exactly when its routes can all be taken, and then this is noted of
them. -/
structure Visits (R : List String → List Component → Prop) (before : Walk)
    (result : Except CheckError Walk) : Prop where
  exists_iff : (∃ after, result = .ok after) ↔ Free R before.visited
  mem_iff : ∀ after, result = .ok after →
    ∀ noted, noted ∈ after.visited ↔ noted ∈ before.visited ∨ ∃ names, R names noted

/-! ## Steps one after the other -/

section Steps

variable {R S : List String → List Component → Prop} {a b : Walk}
  {result : Except CheckError Walk}

theorem visits_none (hvisited : b.visited = a.visited) (h : ∀ names noted, ¬R names noted) :
    Visits R a (.ok b) where
  exists_iff := iff_of_true ⟨b, rfl⟩
    ⟨fun names noted hR => absurd hR (h names noted),
      fun names _ noted hR => absurd hR (h names noted)⟩
  mem_iff after hafter noted := by
    obtain rfl := Except.ok.inj hafter
    rw [hvisited]
    exact (or_iff_left fun ⟨names, hR⟩ => h names noted hR).symm

theorem visits_here {own : List Component} (hown : own ∉ a.visited) :
    Visits (fun names noted => names = [] ∧ noted = own) a
      (.ok { a with visited := own :: a.visited }) where
  exists_iff := by
    refine iff_of_true ⟨_, rfl⟩ ⟨?_, ?_⟩
    · rintro names noted ⟨-, rfl⟩
      exact hown
    · rintro names names' noted ⟨rfl, -⟩ ⟨rfl, -⟩
      rfl
  mem_iff after hafter noted := by
    obtain rfl := Except.ok.inj hafter
    rw [List.mem_cons, or_comm]
    exact or_congr_right ⟨fun h => ⟨[], rfl, h⟩, fun ⟨_, _, h⟩ => h⟩

theorem Visits.congr (h : Visits R a result) (hiff : ∀ names noted, R names noted ↔ S names noted) :
    Visits S a result := by
  obtain rfl : R = S := funext fun names => funext fun noted => propext (hiff names noted)
  exact h

/-- Two steps one after the other, whose routes have different names: they fail together if of the
second's something is noted that was of the first's. -/
theorem Visits.bind {next : Walk → Except CheckError Walk} (hfirst : Visits R a result)
    (hnext : ∀ b, Visits S b (next b))
    (hdisjoint : ∀ names noted noted', R names noted → ¬S names noted') :
    Visits (fun names noted => R names noted ∨ S names noted) a (result >>= next) where
  exists_iff := by
    constructor
    · rintro ⟨c, hc⟩
      obtain ⟨b, hb, hc⟩ := bind_eq_ok_iff.1 hc
      have hR := hfirst.exists_iff.1 ⟨b, hb⟩
      have hS := (hnext b).exists_iff.1 ⟨c, hc⟩
      have hmem := hfirst.mem_iff b hb
      refine ⟨?_, ?_⟩
      · rintro names noted (h | h) hvisited
        · exact hR.fresh names noted h hvisited
        · exact hS.fresh names noted h ((hmem noted).2 (.inl hvisited))
      · rintro names names' noted (h | h) (h' | h')
        · exact hR.apart names names' noted h h'
        · exact absurd ((hmem noted).2 (.inr ⟨names, h⟩)) (hS.fresh names' noted h')
        · exact absurd ((hmem noted).2 (.inr ⟨names', h'⟩)) (hS.fresh names noted h)
        · exact hS.apart names names' noted h h'
    · intro hfree
      obtain ⟨b, hb⟩ := hfirst.exists_iff.2
        ⟨fun names noted h => hfree.fresh names noted (.inl h),
          fun names names' noted h h' => hfree.apart names names' noted (.inl h) (.inl h')⟩
      -- the first step has noted nothing that is noted in the second
      have hfresh (names : List String) (noted : List Component) (h : S names noted) :
          noted ∉ b.visited := by
        intro hvisited
        rcases (hfirst.mem_iff b hb noted).1 hvisited with hvisited | ⟨names', h'⟩
        · exact hfree.fresh names noted (.inr h) hvisited
        · obtain rfl := hfree.apart names names' noted (.inr h) (.inl h')
          exact hdisjoint names noted noted h' h
      obtain ⟨c, hc⟩ := (hnext b).exists_iff.2
        ⟨hfresh, fun names names' noted h h' => hfree.apart names names' noted (.inr h) (.inr h')⟩
      exact ⟨c, bind_eq_ok_iff.2 ⟨b, hb, hc⟩⟩
  mem_iff c hc noted := by
    obtain ⟨b, hb, hc⟩ := bind_eq_ok_iff.1 hc
    rw [(hnext b).mem_iff c hc, hfirst.mem_iff b hb, or_assoc, exists_or]

/-- The routes below an entry are those of its directory, one name shorter. -/
theorem Visits.inside (h : Visits R a result) (name : String) :
    Visits (fun names noted => ∃ rest, names = name :: rest ∧ R rest noted) a result where
  exists_iff := by
    rw [h.exists_iff]
    constructor
    · intro hfree
      refine ⟨?_, ?_⟩
      · rintro names noted ⟨rest, -, hR⟩
        exact hfree.fresh rest noted hR
      · rintro names names' noted ⟨rest, rfl, hR⟩ ⟨rest', rfl, hR'⟩
        rw [hfree.apart rest rest' noted hR hR']
    · intro hfree
      refine ⟨fun rest noted hR => hfree.fresh _ noted ⟨rest, rfl, hR⟩,
        fun rest rest' noted hR hR' => ?_⟩
      exact (List.cons.inj (hfree.apart _ _ noted ⟨rest, rfl, hR⟩ ⟨rest', rfl, hR'⟩)).2
  mem_iff after hafter noted := by
    rw [h.mem_iff after hafter]
    refine or_congr_right ⟨fun ⟨rest, hR⟩ => ⟨_, rest, rfl, hR⟩, ?_⟩
    rintro ⟨-, rest, -, hR⟩
    exact ⟨rest, hR⟩

/-- One entry after the other: the routes of each begin with its own name. -/
theorem visits_foldlM {step : Walk → String × Entry → Except CheckError Walk}
    {items : List (String × Entry)} (hitems : (items.map Prod.fst).Nodup)
    (hstep : ∀ item ∈ items, ∀ a,
      Visits (fun names noted => names.head? = some item.1 ∧ R names noted) a (step a item)) :
    Visits (fun names noted => ∃ name ∈ items.map Prod.fst,
        names.head? = some name ∧ R names noted) a (items.foldlM step a) := by
  induction items generalizing a with
  | nil => exact visits_none rfl (by simp)
  | cons item others ih =>
    obtain ⟨hitem, hothers⟩ := List.forall_mem_cons.1 hstep
    obtain ⟨hnew, hnodup⟩ := List.nodup_cons.1 (List.map_cons ▸ hitems)
    rw [List.foldlM_cons]
    refine ((hitem a).bind (fun b => ih hnodup hothers) ?_).congr fun names noted => ?_
    · rintro names noted noted' ⟨hhead, -⟩ ⟨name, hname, hhead', -⟩
      obtain rfl := Option.some.inj (hhead.symm.trans hhead')
      exact hnew hname
    · simp only [List.map_cons, List.mem_cons, exists_eq_or_imp]

end Steps

/-! ## The walk -/

section Run

variable {disk : Disk} {cwd : Location} {selection : Selection} {isRoot : Bool}
  {directory : Path} {name : String} {names : List String} {noted : List Component}

theorem takeEntry_of_not_enters {enter : Path → Walk → Except CheckError Walk} {path : Path}
    {walk : Walk} (h : ¬Enters disk cwd selection isRoot path name) :
    ∃ files, takeEntry disk cwd selection isRoot enter path name walk =
      .ok { walk with files := files } := by
  by_cases htakes : Takes disk cwd selection path name
  · exact ⟨_, takeEntry_of_takes htakes⟩
  · exact ⟨_, takeEntry_of_neither h htakes⟩

theorem reaches_cons_iff {l : Location} :
    Reaches disk cwd selection isRoot directory (name :: names) l ↔
      disk.Lists cwd directory name ∧
        Enters disk cwd selection isRoot (directory.join ⟨name⟩) name ∧
        Reaches disk cwd selection false (directory.join ⟨name⟩) names l := by
  constructor
  · intro h
    cases h with
    | inside hlists henters hrest => exact ⟨hlists, henters, hrest⟩
  · rintro ⟨hlists, henters, hrest⟩
    exact .inside hlists henters hrest

theorem Reaches.exists_lookup {l : Location}
    (h : Reaches disk cwd selection isRoot directory names l) :
    ∃ l', disk.lookup cwd directory = .ok (l', .directory) := by
  cases h with
  | here hlookup => exact ⟨l, hlookup⟩
  | inside hlists =>
    obtain ⟨l', hlookup, -⟩ := Disk.lists_iff.1 hlists
    exact ⟨l', hlookup⟩

theorem notes_nil_iff : Notes disk cwd selection isRoot directory [] noted ↔
    (∃ l, disk.lookup cwd directory = .ok (l, .directory)) ∧ mark disk cwd directory = noted := by
  refine and_congr_left fun _ => exists_congr fun l => ⟨fun h => ?_, .here⟩
  cases h with
  | here hlookup => exact hlookup

theorem notes_cons_iff : Notes disk cwd selection isRoot directory (name :: names) noted ↔
    disk.Lists cwd directory name ∧ Enters disk cwd selection isRoot (directory.join ⟨name⟩) name ∧
      Notes disk cwd selection false (directory.join ⟨name⟩) names noted := by
  unfold Notes
  rw [Path.under_cons]
  simp only [reaches_cons_iff, exists_and_left, and_assoc]

theorem visits_takeEntry {a : Walk} (hlists : disk.Lists cwd directory name)
    {enter : Path → Walk → Except CheckError Walk}
    (henter : ∀ a, Visits (Notes disk cwd selection false (directory.join ⟨name⟩)) a
      (enter (directory.join ⟨name⟩) a)) :
    Visits (fun names noted => names.head? = some name ∧
        Notes disk cwd selection isRoot directory names noted) a
      (takeEntry disk cwd selection isRoot enter (directory.join ⟨name⟩) name a) := by
  by_cases henters : Enters disk cwd selection isRoot (directory.join ⟨name⟩) name
  · rw [takeEntry_of_enters henters]
    refine ((henter a).inside name).congr fun names noted => ?_
    constructor
    · rintro ⟨rest, rfl, hrest⟩
      exact ⟨rfl, notes_cons_iff.2 ⟨hlists, henters, hrest⟩⟩
    · rintro ⟨hhead, hnotes⟩
      obtain ⟨rest, rfl⟩ := List.head?_eq_some_iff.1 hhead
      exact ⟨rest, rfl, (notes_cons_iff.1 hnotes).2.2⟩
  · obtain ⟨files, htake⟩ := takeEntry_of_not_enters henters
    rw [htake]
    refine visits_none rfl ?_
    rintro names noted ⟨hhead, hnotes⟩
    obtain ⟨rest, rfl⟩ := List.head?_eq_some_iff.1 hhead
    exact henters (notes_cons_iff.1 hnotes).2.1

/-- A walk succeeds exactly when its routes can all be taken. -/
theorem visits_run (hnamed : disk.WellNamed) {fuel : Nat}
    (hfuel : maxPathSize ≤ fuel + directory.size) (a : Walk) :
    Visits (Notes disk cwd selection isRoot directory) a
      (run disk cwd selection fuel isRoot directory a) := by
  have hnothing {directory : Path} (hno : ∀ l, disk.lookup cwd directory ≠ .ok (l, .directory))
      (isRoot : Bool) (a : Walk) :
      Visits (Notes disk cwd selection isRoot directory) a (.ok a) := by
    refine visits_none rfl ?_
    rintro names noted ⟨⟨l, hreaches⟩, -⟩
    obtain ⟨l', hlookup⟩ := hreaches.exists_lookup
    exact hno l' hlookup
  induction fuel generalizing isRoot directory a with
  | zero => exact hnothing (fun l => lookup_ne_ok_of_long (by omega) _) isRoot a
  | succ fuel ih =>
    rw [run]
    split
    · rename_i l hlookup
      have hhere : Notes disk cwd selection isRoot directory [] (mark disk cwd directory) :=
        notes_nil_iff.2 ⟨⟨l, hlookup⟩, rfl⟩
      split
      · rename_i hvisited
        refine ⟨iff_of_false (by simp) fun hfree => ?_, fun _ h => by cases h⟩
        exact hfree.fresh [] _ hhere hvisited
      rename_i hnew
      have hlists {name : String} (hname : name ∈ (disk.children l).map Prod.fst) :
          disk.Lists cwd directory name := Disk.lists_iff.2 ⟨l, hlookup, hname⟩
      have hlonger {name : String} (hname : name ∈ (disk.children l).map Prod.fst) :
          maxPathSize ≤ fuel + (directory.join ⟨name⟩).size := by
        have hlt := ((hlists hname).isFileName hnamed).size_lt_join directory
        omega
      have hentries (b : Walk) : Visits (fun names noted =>
          ∃ name ∈ (disk.children l).map Prod.fst, names.head? = some name ∧
            Notes disk cwd selection isRoot directory names noted) b
          ((disk.children l).foldlM (fun walk entry => takeEntry disk cwd selection isRoot
            (run disk cwd selection fuel false) (directory.join ⟨entry.1⟩) entry.1 walk) b) :=
        visits_foldlM (disk.nodup_children l) fun item hitem b =>
          have hname := List.mem_map_of_mem hitem
          visits_takeEntry (hlists hname) (ih (hlonger hname))
      refine ((visits_here hnew).bind hentries ?_).congr fun names noted => ?_
      · rintro names noted noted' ⟨rfl, -⟩ ⟨name, -, hhead, -⟩
        cases hhead
      cases names with
      | nil =>
        constructor
        · rintro (⟨-, rfl⟩ | ⟨name, -, hhead, -⟩)
          · exact hhere
          · cases hhead
        · exact fun hnotes => .inl ⟨rfl, hnotes.2.symm⟩
      | cons name names =>
        constructor
        · rintro (⟨hnil, -⟩ | ⟨other, -, -, hnotes⟩)
          · cases hnil
          · exact hnotes
        · intro hnotes
          obtain ⟨l', hlookup', hmem⟩ := Disk.lists_iff.1 (notes_cons_iff.1 hnotes).1
          cases hlookup.symm.trans hlookup'
          exact .inr ⟨name, hmem, rfl, hnotes⟩
    · rename_i hno
      exact hnothing hno isRoot a

end Run

/-! ## Routes to different directories -/

/-- No two routes lead to one directory. -/
def Apart (R : List String → Location → Prop) : Prop :=
  ∀ names names' l, R names l → R names' l → names = names'

section Apart

variable {disk : Disk} {cwd : Location} {selection : Selection} {isRoot : Bool}
  {directory : Path} {names : List String} {l : Location}

theorem Reaches.lookup_under (h : Reaches disk cwd selection isRoot directory names l) :
    disk.lookup cwd (directory.under names) = .ok (l, .directory) := by
  induction h with
  | here hlookup => exact hlookup
  | inside _ _ _ ih => exact ih

theorem Reaches.isFileName (hnamed : disk.WellNamed)
    (h : Reaches disk cwd selection isRoot directory names l) :
    ∀ name ∈ names, Path.IsFileName name := by
  induction h with
  | here => simp
  | inside hlists _ _ ih => exact List.forall_mem_cons.2 ⟨hlists.isFileName hnamed, ih⟩

/-- Routes to different directories can all be taken. -/
theorem free_of_apart (hclosed : disk.Closed) (hnamed : disk.WellNamed)
    (hapart : Apart (Reaches disk cwd selection isRoot directory)) :
    Free (Notes disk cwd selection isRoot directory) [] := by
  refine ⟨fun _ _ _ => List.not_mem_nil, ?_⟩
  rintro names names' noted ⟨⟨l, h⟩, hnoted⟩ ⟨⟨l', h'⟩, hnoted'⟩
  obtain rfl := location_eq_of_mark_eq hclosed hnamed h.lookup_under h'.lookup_under
    (hnoted.trans hnoted'.symm)
  exact hapart names names' l h h'

/-- Of routes to one directory the same is noted when its path is short enough. -/
theorem apart_of_free (hfits : disk.Fits)
    (hfree : Free (Notes disk cwd selection isRoot directory) []) :
    Apart (Reaches disk cwd selection isRoot directory) := by
  intro names names' l h h'
  exact hfree.apart names names' l.path.components ⟨⟨l, h⟩, mark_of_lookup hfits h.lookup_under⟩
    ⟨⟨l, h'⟩, mark_of_lookup hfits h'.lookup_under⟩

end Apart

end LiterateCheck.Walk
