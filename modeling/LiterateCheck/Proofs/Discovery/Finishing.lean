import LiterateCheck.Proofs.Discovery.Cycles
import LiterateCheck.Proofs.Discovery.Going
import LiterateCheck.Proofs.Disk.Joining

/-!
# The end of a walk

1. `Opens` says which directories there are to be entered, links or not, and however far away: each
   is seen from the directory in which the entry stands.
2. A walk ends, and it lists no directory twice that has a canonical path. A directory that opens
   again from itself ends it with an error, where the system still takes the way there and gives the
   same canonical path (`walk_ends`).
3. Where it takes the way no further, or gives no canonical path, a walk does not notice that it
   comes back (`walk_unnoticed`).
-/

namespace LiterateCheck

namespace Walk

/-! ## Directories that open -/

/-- A configuration stands in a directory. -/
def HasOwnConfig (disk : Disk) (l : Location) : Prop :=
  ∃ candidate ∈ Config.candidates, disk.isFile l candidate = true

/-- Nothing keeps a walk out of a directory that it meets by this path. -/
structure LetsIn (disk : Disk) (selection : Selection) (isRoot : Bool) (path : Path)
    (name : String) (l : Location) : Prop where
  looked : isPassedOver name = false
  notIgnored : selection.ignored path true = false
  notExcluded : selection.excluded path true = false
  notOutput : path.same selection.outputRoot = false
  isRoot_of_hasOwnConfig : HasOwnConfig disk l → isRoot = true

/-- From a root, entries that are not skipped lead to a directory, each seen from the directory it
stands in, so there is no end to the links on the way, nor to its length. -/
inductive Opens (disk : Disk) (cwd : Location) (selection : Selection) (root : Path) :
    List String → Location → Prop
  | root {l : Location} : disk.lookup cwd root = .ok (l, .directory) →
    Opens disk cwd selection root [] l
  | entry {names : List String} {l l' : Location} {name : String} :
    Opens disk cwd selection root names l → name ∈ (disk.children l).map Prod.fst →
      disk.lookup l ⟨name⟩ = .ok (l', .directory) →
      LetsIn disk selection names.isEmpty (root.under (names ++ [name])) name l' →
      Opens disk cwd selection root (names ++ [name]) l'

section Opens

variable {disk : Disk} {cwd : Location} {selection : Selection} {isRoot : Bool}
  {root directory : Path} {names : List String} {name : String} {l l' : Location}

theorem Opens.isFileName (hnamed : disk.WellNamed) (h : Opens disk cwd selection root names l) :
    ∀ name ∈ names, Path.IsFileName name := by
  induction h with
  | root => simp
  | entry _ hname _ _ ih =>
    obtain ⟨item, hitem, rfl⟩ := List.mem_map.1 hname
    refine List.forall_mem_append.2 ⟨ih, List.forall_mem_singleton.2 ?_⟩
    exact hnamed.location (Disk.mem_children_iff.1 hitem) _ (by simp)

theorem Opens.exists_root (h : Opens disk cwd selection root names l) :
    ∃ l', disk.lookup cwd root = .ok (l', .directory) := by
  induction h with
  | root hlookup => exact ⟨_, hlookup⟩
  | entry _ _ _ _ ih => exact ih

theorem Reaches.concat (h : Reaches disk cwd selection isRoot directory names l)
    (hlists : disk.Lists cwd (directory.under names) name)
    (henters : Enters disk cwd selection (isRoot && names.isEmpty)
      (directory.under (names ++ [name])) name)
    (hlookup : disk.lookup cwd (directory.under (names ++ [name])) = .ok (l', .directory)) :
    Reaches disk cwd selection isRoot directory (names ++ [name]) l' := by
  induction h with
  | here =>
    rw [List.isEmpty_nil, Bool.and_true] at henters
    exact .inside hlists henters (.here hlookup)
  | inside hfirst hentersFirst _ ih =>
    rw [List.isEmpty_cons, Bool.and_false] at henters
    exact .inside hfirst hentersFirst (ih hlists henters hlookup)

/-- A configuration that is found behind a path stands in its directory. -/
theorem hasOwnConfig_of_hasConfig (hclosed : disk.Closed)
    (hlookup : disk.lookup cwd directory = .ok (l, .directory))
    (hconfig : hasConfig disk cwd directory = true) : HasOwnConfig disk l := by
  have hdirectory := (Disk.find_eq_ok_iff.1 (Disk.locate_of_lookup hlookup)).1.text_ne_empty
  unfold hasConfig Config.path? at hconfig
  rw [List.find?_isSome] at hconfig
  obtain ⟨path, hpath, hfile⟩ := hconfig
  obtain ⟨candidate, hcandidate, rfl⟩ := List.mem_map.1 hpath
  obtain ⟨l', content, executable, hfound⟩ := Disk.isFile_iff.1 hfile
  have hrelative : ∀ candidate ∈ Config.candidates,
      candidate.isAbsolute = false ∧ candidate.steps ≠ [] := by decide
  obtain ⟨habsolute, hsteps⟩ := hrelative candidate hcandidate
  have hin := Disk.lookupIn_of_join hclosed hdirectory habsolute hsteps hfound
  rw [Disk.lookupIn_of_lookup hlookup] at hin
  exact ⟨candidate, hcandidate, Disk.isFile_iff.2 ⟨l', content, executable, hin⟩⟩

/-- As far as the system takes the way, a walk enters what opens. -/
theorem Opens.reaches (hclosed : disk.Closed) (hnamed : disk.WellNamed)
    (h : Opens disk cwd selection root names l)
    (hdirectory : disk.isDirectory cwd (root.under names) = true) :
    Reaches disk cwd selection true root names l := by
  induction h with
  | root hlookup => exact .here hlookup
  | @entry names l l' name hopens hname hstep hlets ih =>
    have hfile := (Opens.entry hopens hname hstep hlets).isFileName hnamed
    obtain ⟨hnames, hlast⟩ := List.forall_mem_append.1 hfile
    rw [List.forall_mem_singleton] at hlast
    obtain ⟨first, hfirst⟩ := hopens.exists_root
    have hroot := (Disk.find_eq_ok_iff.1 (Disk.locate_of_lookup hfirst)).1.text_ne_empty
    have habove := Disk.isDirectory_under_of_prefix hroot hfile (List.prefix_append ..) hdirectory
    have hreaches := ih habove
    -- what the whole path leads to is what its last name leads to
    obtain ⟨found, hfound⟩ := Disk.isDirectory_iff.1 hdirectory
    have hin := hfound
    rw [Path.under_concat] at hin
    have hstep' := Disk.lookupIn_of_join hclosed (Path.text_under_ne_empty hroot hnames)
      hlast.isAbsolute (by simp [hlast.steps]) hin
    rw [Disk.lookupIn_of_lookup hreaches.lookup_under, hstep] at hstep'
    cases hstep'
    refine hreaches.concat (Disk.lists_iff.2 ⟨l, hreaches.lookup_under, hname⟩) ?_ hfound
    rw [Bool.true_and]
    refine ⟨hlets.looked, ⟨?_, ?_⟩, hdirectory, hlets.notOutput, fun hconfig =>
      hlets.isRoot_of_hasOwnConfig (hasOwnConfig_of_hasConfig hclosed hfound hconfig)⟩
    · rw [hdirectory, hlets.notIgnored]
    · rw [hdirectory, hlets.notExcluded]

/-- Where there is a canonical path, it is noted. -/
theorem Reaches.notes (h : Reaches disk cwd selection isRoot directory names l)
    (hcanonical : disk.canonical? cwd (directory.under names) ≠ none) :
    Notes disk cwd selection isRoot directory names l.path.components := by
  obtain ⟨canonical, hsome⟩ := Option.ne_none_iff_exists'.1 hcanonical
  exact ⟨⟨l, h⟩, mark_of_canonical? h.lookup_under hsome⟩

end Opens

end Walk

/-! ## The end -/

/-- **A walk ends.** Whatever links there are, a walk goes one way and ends. It lists nothing twice
that has a canonical path, so no more of this than the disk holds. Discovery gives what was found
where it ends, and any further bound on the depth would make no difference. If a directory opens
again from itself, by a way that the system takes, and there is a canonical path in both cases, the
walk ends with an error. -/
theorem walk_ends {disk : Disk} (hclosed : disk.Closed) (hnamed : disk.WellNamed) {cwd : Location}
    {root : Path} {config : Config} {selection : Selection}
    (hselection : Selection.ofConfig disk cwd root config = .ok selection) :
    ∃ listed result,
      Walk.Goes disk cwd selection (.directory true root) ⟨[], []⟩ listed result ∧
      (∀ listed' result',
        Walk.Goes disk cwd selection (.directory true root) ⟨[], []⟩ listed' result' →
          listed' = listed ∧ result' = result) ∧
      (listed.map (Walk.mark disk cwd)).Nodup ∧
      (listed.filterMap (disk.canonical? cwd)).Nodup ∧
      (listed.filterMap (disk.canonical? cwd)).length ≤ disk.entries.length + 1 ∧
      discover disk cwd root config = result.map (fun walk => Path.sort
        (walk.files.filter fun path => selection.included (relativePath root path))) ∧
      (∀ fuel, maxPathSize ≤ fuel →
        Walk.run disk cwd selection fuel true root ⟨[], []⟩ = result) ∧
      ∀ names more l, more ≠ [] → Walk.Opens disk cwd selection root names l →
        Walk.Opens disk cwd selection root (names ++ more) l →
        disk.isDirectory cwd (root.under (names ++ more)) = true →
        disk.canonical? cwd (root.under names) ≠ none →
        disk.canonical? cwd (root.under (names ++ more)) ≠ none →
          ∃ path, result = .error (.symlinkCycle path) := by
  have hbound (fuel : Nat) (hfuel : maxPathSize ≤ fuel) :=
    @Walk.exists_goes_run disk cwd selection true root hnamed fuel
      (Nat.le_add_right_of_le hfuel) ⟨[], []⟩
  obtain ⟨listed, hgoes⟩ := hbound maxPathSize (Nat.le_refl _)
  have hmarks : (listed.map (Walk.mark disk cwd)).Nodup := by
    have h := (hgoes.visited .nil).1
    rwa [List.append_nil, List.nodup_reverse] at h
  obtain ⟨hnodup, hlength⟩ := hgoes.canonical hclosed hnamed hmarks
  have hdiscover : discover disk cwd root config = discoverWith disk cwd root selection := by
    unfold discover
    rw [hselection]
    rfl
  refine ⟨listed, _, hgoes, fun _ _ h => hgoes.unique h, hmarks, hnodup, hlength, ?result,
    fun fuel hfuel => ?fuel, ?again⟩
  case result =>
    rw [hdiscover]
    unfold discoverWith
    cases Walk.run disk cwd selection maxPathSize true root ⟨[], []⟩ <;> rfl
  case fuel =>
    obtain ⟨listed', hgoes'⟩ := hbound fuel hfuel
    exact (hgoes.unique hgoes').2
  case again =>
    intro names more l hmore hopens hagain hdirectory hcanonical hcanonical'
    obtain ⟨first, hfirst⟩ := hopens.exists_root
    have hroot := (Disk.find_eq_ok_iff.1 (Disk.locate_of_lookup hfirst)).1.text_ne_empty
    have habove := Disk.isDirectory_under_of_prefix hroot (hagain.isFileName hnamed)
      (List.prefix_append names more) hdirectory
    -- both ways are routes, and the same is noted at their ends
    have hnotes := (hopens.reaches hclosed hnamed habove).notes hcanonical
    have hnotes' := (hagain.reaches hclosed hnamed hdirectory).notes hcanonical'
    have hvisits := @Walk.visits_run disk cwd selection true root hnamed maxPathSize
      (Nat.le_add_right ..) ⟨[], []⟩
    cases hrun : Walk.run disk cwd selection maxPathSize true root ⟨[], []⟩ with
    | ok walk =>
      have hfree := hvisits.exists_iff.1 ⟨walk, hrun⟩
      exact absurd (List.append_right_eq_self.1 (hfree.apart _ _ _ hnotes' hnotes)) hmore
    | error error =>
      obtain ⟨path, rfl⟩ := Walk.symlinkCycle_of_run hrun
      exact ⟨path, rfl⟩

/-- The link leads back to the root, which opens again from itself, so the walk ends with an
error. -/
theorem walk_ends_loop : ∃ listed path,
    Walk.Goes loopDisk [] documentSelection (.directory true ⟨"/"⟩) ⟨[], []⟩ listed
      (.error (.symlinkCycle path)) ∧ (listed.filterMap (loopDisk.canonical? [])).Nodup := by
  have hentry : loopDisk.lookup [] ⟨"loop"⟩ = .ok ([], .directory) :=
    Disk.lookup_of_locate (Disk.find_eq_ok_iff.2 ⟨⟨by decide, by decide, by decide, fun _ => rfl⟩,
      .through (by decide) rfl (.inr rfl) rfl (.stay .stop)⟩)
  have hroot : Walk.Opens loopDisk [] documentSelection ⟨"/"⟩ [] [] := .root loopDisk.lookup_root
  have hloop : Walk.Opens loopDisk [] documentSelection ⟨"/"⟩ ([] ++ ["loop"]) [] :=
    .entry hroot (by decide) hentry ⟨by decide, rfl, rfl, by decide, fun _ => rfl⟩
  obtain ⟨listed, result, hgoes, -, -, hnodup, -, -, -, hagain⟩ :=
    walk_ends closed_loopDisk wellNamed_loopDisk ofConfig_loopDisk
  obtain ⟨path, rfl⟩ := hagain [] ["loop"] [] (by simp) hroot hloop
    (Disk.isDirectory_iff.2 ⟨_, lookup_loop⟩)
    (Disk.canonical?_ne_none fits_loopDisk loopDisk.lookup_root)
    (Disk.canonical?_ne_none fits_loopDisk lookup_loop)
  exact ⟨listed, path, hgoes, hnodup⟩

/-! ### Links that are not followed to their end -/

namespace Disk

section Detour

variable {disk : Disk} {here : Location} {name : String} {rest : List String}

theorem walk_through (hname : IsName name) {target : Path}
    (hentry : disk.entryAt? (here ++ [name]) = some (.link target))
    (hempty : target.isEmpty = false) (links : Nat) :
    disk.walk true (links + 1) here (name :: rest) =
      disk.walk true links (if target.isAbsolute then [] else here) (target.steps ++ rest) := by
  rw [walk_link hname hentry, Bool.not_true, Bool.and_false, if_neg Bool.false_ne_true, hempty,
    if_neg Bool.false_ne_true]

/-- A link to where it stands takes one link of those that are left. -/
theorem walk_replicate (hname : IsName name)
    (hentry : disk.entryAt? (here ++ [name]) = some (.link ⟨"."⟩)) (left count : Nat) :
    disk.walk true (left + count) here (List.replicate count name ++ rest) =
      disk.walk true left here rest := by
  induction count with
  | zero => rfl
  | succ count ih =>
    rw [List.replicate_succ, List.cons_append, ← Nat.add_assoc, walk_through hname hentry rfl]
    exact walk_here.trans ih

theorem walk_replicate_of_lt (hname : IsName name)
    (hentry : disk.entryAt? (here ++ [name]) = some (.link ⟨"."⟩)) {left count : Nat}
    (hlt : left < count) :
    disk.walk true left here (List.replicate count name ++ rest) = .error .linkLoop := by
  induction left generalizing count with
  | zero =>
    obtain ⟨count, rfl⟩ := Nat.exists_eq_add_of_lt hlt
    rw [Nat.zero_add, List.replicate_succ, List.cons_append, walk_link hname hentry, Bool.not_true,
      Bool.and_false, if_neg Bool.false_ne_true, if_neg (by decide)]
  | succ left ih =>
    obtain ⟨count, rfl⟩ := Nat.exists_eq_add_of_lt hlt
    rw [List.replicate_succ, List.cons_append, walk_through hname hentry rfl]
    exact walk_here.trans (ih (by omega))

end Detour

end Disk

theorem Walk.not_hasOwnConfig {disk : Disk} (hclosed : disk.Closed)
    (hfiles : ∀ l held, disk.entryAt? l = some held → held.isFile = false) (l : Location) :
    ¬Walk.HasOwnConfig disk l := by
  rintro ⟨candidate, -, hfile⟩
  obtain ⟨l', content, executable, hlookup⟩ := Disk.isFile_iff.1 hfile
  cases hfiles l' _ (hclosed.entryAt?_of_lookup hlookup)

/-- A path that goes through a link to where it stands, twenty-four times. -/
def detour (target : String) : Path :=
  ⟨String.join (List.replicate 24 ".s/") ++ target⟩

theorem steps_detour_q : (detour ".q").steps = List.replicate 24 ".s" ++ [".q"] := by
  decide +kernel

theorem steps_detour_up : (detour "..").steps = List.replicate 24 ".s" ++ [".."] := by
  decide +kernel

/-- Two directories, one of them hidden, and from each a link to the other, which goes through
another link twenty-four times. -/
def ringDisk : Disk :=
  ((((Disk.empty.put [".q"] .directory).put [".s"] (.link ⟨"."⟩)).put [".q", ".s"]
    (.link ⟨"."⟩)).put ["n"] (.link (detour ".q"))).put [".q", "m"] (.link (detour ".."))

section RingDisk

open Disk

theorem closed_ringDisk : ringDisk.Closed := by
  have hq := @Closed.put .empty closed_empty [] ".q" rfl rfl .directory
  have hs := @Closed.put _ hq [] ".s" rfl rfl (.link ⟨"."⟩)
  have hqs := @Closed.put _ hs [".q"] ".s" rfl rfl (.link ⟨"."⟩)
  have hn := @Closed.put _ hqs [] "n" rfl rfl (.link (detour ".q"))
  exact @Closed.put _ hn [".q"] "m" rfl rfl _

theorem wellNamed_ringDisk : ringDisk.WellNamed :=
  ((((wellNamed_empty.put _ (by decide)).put _ (by decide)).put _ (by decide)).put _
    (by decide)).put _ (by decide)

theorem ofConfig_ringDisk :
    Selection.ofConfig ringDisk [] ⟨"/"⟩ .default = .ok documentSelection :=
  ofConfig_of_no_ignore rfl

/-- The way from the root takes twenty-five links. -/
theorem walk_ring_n {left : Nat} {rest : List String} :
    ringDisk.walk true (left + 25) [] ("n" :: rest) = ringDisk.walk true left [".q"] rest := by
  have hlink : ringDisk.entryAt? ([] ++ ["n"]) = some (.link (detour ".q")) := rfl
  have hstay : ringDisk.entryAt? ([] ++ [".s"]) = some (.link ⟨"."⟩) := rfl
  rw [walk_through (by decide) hlink (by decide +kernel) (left + 24), steps_detour_q, ite_self,
    List.append_assoc, walk_replicate (by decide) hstay]
  exact walk_directory (by decide) rfl

theorem walk_ring_m {left : Nat} {rest : List String} :
    ringDisk.walk true (left + 25) [".q"] ("m" :: rest) = ringDisk.walk true left [] rest := by
  have hlink : ringDisk.entryAt? ([".q"] ++ ["m"]) = some (.link (detour "..")) := rfl
  have hstay : ringDisk.entryAt? ([".q"] ++ [".s"]) = some (.link ⟨"."⟩) := rfl
  have hrelative : (detour "..").isAbsolute = false := by decide +kernel
  rw [walk_through (by decide) hlink (by decide +kernel) (left + 24), steps_detour_up, hrelative,
    if_neg Bool.false_ne_true, List.append_assoc, walk_replicate (by decide) hstay]
  exact walk_up

/-- Both ways together take more links than the system follows. -/
theorem walk_ring_n_m : ringDisk.walk true maxLinks [] ["n", "m"] = .error .linkLoop := by
  have hlink : ringDisk.entryAt? ([".q"] ++ ["m"]) = some (.link (detour "..")) := rfl
  have hstay : ringDisk.entryAt? ([".q"] ++ [".s"]) = some (.link ⟨"."⟩) := rfl
  have hrelative : (detour "..").isAbsolute = false := by decide +kernel
  refine (@walk_ring_n 15 ["m"]).trans ?_
  rw [walk_through (by decide) hlink (by decide +kernel) 14, steps_detour_up, hrelative,
    if_neg Bool.false_ne_true, List.append_assoc]
  exact walk_replicate_of_lt (by decide) hstay (by decide)

theorem lookup_ring_n : ringDisk.lookup [] ⟨"/n"⟩ = .ok ([".q"], .directory) := by
  refine lookup_of_locate ((find_of_absolute ringDisk [] true (by decide) _).trans ?_)
  exact (@walk_ring_n 15 []).trans walk_nil

theorem lookup_ring_entry_n : ringDisk.lookup [] ⟨"n"⟩ = .ok ([".q"], .directory) :=
  lookup_of_locate (find_eq_ok_iff.2 ⟨⟨by decide, by decide, by decide, fun _ => rfl⟩,
    follows_of_walk ((@walk_ring_n 15 []).trans walk_nil)⟩)

theorem lookup_ring_entry_m : ringDisk.lookup [".q"] ⟨"m"⟩ = .ok ([], .directory) :=
  lookup_of_locate (find_eq_ok_iff.2 ⟨⟨by decide, by decide, by decide, fun _ => rfl⟩,
    follows_of_walk ((@walk_ring_m 15 []).trans walk_nil)⟩)

theorem isDirectory_ring_n_m : ringDisk.isDirectory [] ⟨"/n/m"⟩ = false := by
  rw [← Bool.not_eq_true, isDirectory_iff]
  rintro ⟨l, hlookup⟩
  obtain ⟨-, hfollows⟩ := find_eq_ok_iff.1 (locate_of_lookup hlookup)
  cases walk_ring_n_m.symm.trans (walk_of_follows hfollows)

/-- The only routes are the one that stays and the one through the link of the root. -/
theorem eq_of_reaches_ringDisk {names : List String} {l : Location}
    (h : Walk.Reaches ringDisk [] documentSelection true ⟨"/"⟩ names l) :
    names = [] ∧ l = [] ∨ names = ["n"] ∧ l = [".q"] := by
  cases h with
  | here hlookup =>
    cases ringDisk.lookup_root.symm.trans hlookup
    exact .inl ⟨rfl, rfl⟩
  | @inside _ _ name _ _ hlists henters hrest =>
    obtain ⟨l', hlookup, hmem⟩ := lists_iff.1 hlists
    cases ringDisk.lookup_root.symm.trans hlookup
    have hname : name ∈ [".q", ".s", "n"] := hmem
    simp only [List.mem_cons, List.not_mem_nil, or_false] at hname
    rcases hname with rfl | rfl | rfl
    · exact absurd henters.looked (by decide)
    · exact absurd henters.looked (by decide)
    cases hrest with
    | here hlookup' =>
      cases lookup_ring_n.symm.trans hlookup'
      exact .inr ⟨rfl, rfl⟩
    | @inside _ _ name _ _ hlists henters =>
      obtain ⟨l', hlookup, hmem⟩ := lists_iff.1 hlists
      cases lookup_ring_n.symm.trans hlookup
      have hname : name ∈ [".s", "m"] := hmem
      simp only [List.mem_cons, List.not_mem_nil, or_false] at hname
      rcases hname with rfl | rfl
      · exact absurd henters.looked (by decide)
      · cases isDirectory_ring_n_m.symm.trans henters.isDirectory

theorem exists_discover_ringDisk : ∃ files, discover ringDisk [] ⟨"/"⟩ .default = .ok files := by
  have hapart : Walk.Apart (Walk.Reaches ringDisk [] documentSelection true ⟨"/"⟩) := by
    intro names names' l h h'
    rcases eq_of_reaches_ringDisk h with ⟨rfl, rfl⟩ | ⟨rfl, rfl⟩
    · rcases eq_of_reaches_ringDisk h' with ⟨rfl, -⟩ | ⟨-, hl⟩
      · rfl
      · cases hl
    · rcases eq_of_reaches_ringDisk h' with ⟨-, hl⟩ | ⟨rfl, -⟩
      · cases hl
      · rfl
  unfold discover
  rw [ofConfig_ringDisk]
  exact (exists_discoverWith_iff wellNamed_ringDisk).2
    (Walk.free_of_apart closed_ringDisk wellNamed_ringDisk hapart)

theorem isFile_ringDisk (l : Location) (held : Entry) (h : ringDisk.entryAt? l = some held) :
    held.isFile = false := by
  have hall : ∀ item ∈ ringDisk.entries, item.2.isFile = false := by decide
  by_cases hl : l = []
  · rw [hl, entryAt?_nil] at h
    cases h
    rfl
  · exact hall _ ((mem_entries_iff hl).2 h)

/-- The root opens again from itself. -/
theorem opens_ringDisk : Walk.Opens ringDisk [] documentSelection ⟨"/"⟩ [] [] ∧
    Walk.Opens ringDisk [] documentSelection ⟨"/"⟩ ["n", "m"] [] := by
  have hroot : Walk.Opens ringDisk [] documentSelection ⟨"/"⟩ [] [] := .root ringDisk.lookup_root
  have hn : Walk.Opens ringDisk [] documentSelection ⟨"/"⟩ ([] ++ ["n"]) [".q"] :=
    .entry hroot (by decide) lookup_ring_entry_n ⟨by decide, rfl, rfl, by decide, fun _ => rfl⟩
  exact ⟨hroot, .entry hn (by decide) lookup_ring_entry_m ⟨by decide, rfl, rfl, by decide, fun h =>
    absurd h (Walk.not_hasOwnConfig closed_ringDisk isFile_ringDisk [])⟩⟩

end RingDisk

/-! ### A directory without a canonical path -/

/-- A hidden name that is as long as a name may be. -/
def longName : String := String.ofList ('.' :: List.replicate 254 'a')

/-- Such names, one below the other. -/
def chain (depth : Nat) : Location := List.replicate depth longName

def chainDisk : Nat → Disk
  | 0 => .empty
  | depth + 1 => (chainDisk depth).put (chain (depth + 1)) .directory

theorem toList_longName : longName.toList = '.' :: List.replicate 254 'a' := String.toList_ofList

theorem longName_ne {name : String} (h : name.toList.length ≠ 255) : longName ≠ name := by
  rintro rfl
  rw [toList_longName, List.length_cons, List.length_replicate] at h
  exact h rfl

theorem isFileName_longName : Path.IsFileName longName where
  ne_empty := longName_ne (by decide)
  ne_here := longName_ne (by decide)
  ne_up := longName_ne (by decide)
  noSeparator h := by
    rw [toList_longName, List.mem_cons] at h
    rcases h with h | h
    · cases h
    · cases List.eq_of_mem_replicate h

theorem isUtf8_longName : Text.isUtf8 longName = true := by
  apply Text.isUtf8_of_nul_not_mem
  rw [toList_longName, List.mem_cons, not_or]
  exact ⟨by decide, fun h => absurd (List.eq_of_mem_replicate h) (by decide)⟩

theorem rawSize_longName : Text.rawSize longName = 255 := by
  rw [Text.rawSize, Text.rawBytes_eq_of_isUtf8 isUtf8_longName]
  decide +kernel

theorem isPassedOver_longName : isPassedOver longName = true := by
  unfold isPassedOver
  rw [Text.utf8?_eq_some_iff.2 ⟨isUtf8_longName, rfl⟩]
  show (longName.toList.head? == some '.' || _ || _) = true
  rw [toList_longName]
  rfl

theorem length_chain (depth : Nat) : (chain depth).length = depth := List.length_replicate

theorem size_chain (depth : Nat) : (chain depth).size = depth * 256 := by
  induction depth with
  | zero => rfl
  | succ depth ih =>
    show Text.rawSize longName + 1 + (chain depth).size = _
    rw [ih, rawSize_longName]
    omega

theorem chain_succ (depth : Nat) : chain (depth + 1) = chain depth ++ [longName] :=
  List.replicate_succ'

theorem entryAt?_chainDisk (depth : Nat) (l : Location) :
    (chainDisk depth).entryAt? l = if l <+: chain depth then some .directory else none := by
  induction depth with
  | zero =>
    by_cases hl : l = []
    · rw [hl, if_pos (List.nil_prefix)]
      rfl
    · rw [if_neg (by simpa [chain] using hl), chainDisk, Disk.entryAt?, if_neg hl]
      rfl
  | succ depth ih =>
    by_cases hl : l = []
    · rw [hl, if_pos (List.nil_prefix)]
      rfl
    · rw [chainDisk, Disk.entryAt?_put _ _ _ hl, ih, chain_succ]
      simp only [List.prefix_concat_iff]
      by_cases h : l = chain depth ++ [longName] <;> simp [h]

theorem closed_chainDisk (depth : Nat) : (chainDisk depth).Closed := by
  induction depth with
  | zero => exact Disk.closed_empty
  | succ depth ih =>
    have hdirectory : (chainDisk depth).entryAt? (chain depth) = some .directory := by
      rw [entryAt?_chainDisk, if_pos List.prefix_rfl]
    have hnone : (chainDisk depth).entryAt? (chain depth ++ [longName]) = none := by
      rw [entryAt?_chainDisk, if_neg]
      exact fun h => absurd h.length_le (by simp [length_chain])
    rw [chainDisk, chain_succ]
    exact ih.put hdirectory hnone _

theorem isFileName_of_mem_chain {depth : Nat} : ∀ name ∈ chain depth, Path.IsFileName name := by
  intro name hname
  rw [List.eq_of_mem_replicate hname]
  exact isFileName_longName

theorem wellNamed_chainDisk (depth : Nat) : (chainDisk depth).WellNamed := by
  induction depth with
  | zero => exact Disk.wellNamed_empty
  | succ depth ih => exact ih.put _ isFileName_of_mem_chain

/-- A path down to the directory. -/
def deepTarget : Path := (Path.mk longName).under (chain 15)

/-- A directory whose path is just too long, with a link to itself, and a link to it from the
root. -/
def deepDisk : Disk :=
  ((chainDisk 16).put ["s"] (.link deepTarget)).put (chain 16 ++ ["n"])
    (.link ⟨"."⟩)

section DeepDisk

open Disk

theorem longName_ne_s : longName ≠ "s" := longName_ne (by decide)

theorem entryAt?_deepDisk {l : Location} (hs : l ≠ ["s"]) (hn : l ≠ chain 16 ++ ["n"]) :
    deepDisk.entryAt? l = if l <+: chain 16 then some .directory else none := by
  rw [deepDisk, entryAt?_put_of_ne _ _ hn, entryAt?_put_of_ne _ _ hs, entryAt?_chainDisk]

theorem entryAt?_deepDisk_s :
    deepDisk.entryAt? ["s"] = some (.link deepTarget) := by
  have hne : ["s"] ≠ chain 16 ++ ["n"] := fun h => by simpa [chain] using congrArg List.length h
  rw [deepDisk, entryAt?_put_of_ne _ _ hne, entryAt?_put_self _ _ (by simp)]

theorem entryAt?_deepDisk_n : deepDisk.entryAt? (chain 16 ++ ["n"]) = some (.link ⟨"."⟩) :=
  entryAt?_put_self _ _ (by simp)

theorem closed_deepDisk : deepDisk.Closed := by
  have hs : ((chainDisk 16).put ["s"] (.link deepTarget)).Closed := by
    refine @Closed.put _ (closed_chainDisk 16) [] "s" rfl ?_ _
    rw [entryAt?_chainDisk, if_neg]
    intro h
    exact longName_ne_s (List.eq_of_mem_replicate (h.subset (by simp))).symm
  refine hs.put ?_ ?_ _
  · rw [entryAt?_put_of_ne _ _ fun h => by simpa [chain] using congrArg List.length h,
      entryAt?_chainDisk, if_pos List.prefix_rfl]
  · rw [entryAt?_put_of_ne _ _ fun h => by simpa [chain] using congrArg List.length h,
      entryAt?_chainDisk, if_neg fun h => by simpa [length_chain] using h.length_le]

theorem wellNamed_deepDisk : deepDisk.WellNamed :=
  ((wellNamed_chainDisk 16).put _ (by decide)).put _
    (List.forall_mem_append.2 ⟨isFileName_of_mem_chain, by decide⟩)

theorem entryAt?_deepDisk_chain {depth : Nat} (hdepth : depth ≤ 16) :
    deepDisk.entryAt? (chain depth) = some .directory := by
  have hs : chain depth ≠ ["s"] := fun h =>
    have hmem : "s" ∈ chain depth := h ▸ List.mem_singleton_self "s"
    longName_ne_s (List.eq_of_mem_replicate hmem).symm
  have hn : chain depth ≠ chain 16 ++ ["n"] := fun h => by
    have hlength := congrArg List.length h
    rw [List.length_append, length_chain, length_chain, List.length_singleton] at hlength
    omega
  have hprefix : chain depth <+: chain 16 := ⟨chain (16 - depth), by
    rw [chain, chain, chain, ← List.replicate_add, Nat.add_sub_cancel' hdepth]⟩
  rw [entryAt?_deepDisk hs hn, if_pos hprefix]

theorem isName_longName : IsName longName :=
  ⟨isFileName_longName.ne_here, isFileName_longName.ne_up, by rw [rawSize_longName]; decide⟩

theorem walk_deep_chain {left count depth : Nat} (hdepth : depth + count ≤ 16)
    (rest : List String) :
    deepDisk.walk true left (chain depth) (chain count ++ rest) =
      deepDisk.walk true left (chain (depth + count)) rest := by
  induction count generalizing depth with
  | zero => rfl
  | succ count ih =>
    have hnext : deepDisk.entryAt? (chain depth ++ [longName]) = some .directory := by
      rw [← chain_succ]
      exact entryAt?_deepDisk_chain (by omega)
    show deepDisk.walk true left (chain depth) (longName :: (chain count ++ rest)) = _
    rw [walk_directory isName_longName hnext, ← chain_succ, ih (by omega), Nat.add_right_comm,
      Nat.add_assoc]

theorem text_longName_ne_empty : (Path.mk longName).text ≠ "" := isFileName_longName.ne_empty

theorem steps_deepTarget : deepTarget.steps = chain 16 := by
  have hgoes : (Path.mk longName).GoesOn (chain 14) _ :=
    Path.goesOn_under _ fun name hname => (isFileName_of_mem_chain name hname).isStep
  rw [deepTarget, chain_succ 14, Path.under_concat, Path.steps_join_name
    (Path.text_under_ne_empty text_longName_ne_empty isFileName_of_mem_chain) isFileName_longName,
    hgoes.names_eq, isFileName_longName.names]
  rfl

theorem walk_deep_s (left : Nat) (rest : List String) :
    deepDisk.walk true (left + 1) [] ("s" :: rest) = deepDisk.walk true left (chain 16) rest := by
  have hlink : deepDisk.entryAt? ([] ++ ["s"]) = _ := entryAt?_deepDisk_s
  have htext : deepTarget.text ≠ "" :=
    Path.text_under_ne_empty text_longName_ne_empty isFileName_of_mem_chain
  have hempty : deepTarget.isEmpty = false := by
    unfold Path.isEmpty
    simpa using htext
  rw [walk_through (by decide) hlink hempty, ite_self, steps_deepTarget]
  exact (@walk_deep_chain left 16 0 (by decide) rest).trans (by rw [Nat.zero_add])

theorem walk_deep_n (left : Nat) (rest : List String) :
    deepDisk.walk true (left + 1) (chain 16) ("n" :: rest) =
      deepDisk.walk true left (chain 16) rest :=
  walk_replicate (by decide) entryAt?_deepDisk_n left 1

theorem lookup_deep_s : deepDisk.lookup [] ⟨"/s"⟩ = .ok (chain 16, .directory) :=
  lookup_of_locate ((find_of_absolute deepDisk [] true (by decide) _).trans
    ((walk_deep_s 39 []).trans walk_nil))

theorem lookup_deep_s_n : deepDisk.lookup [] ⟨"/s/n"⟩ = .ok (chain 16, .directory) :=
  lookup_of_locate ((find_of_absolute deepDisk [] true (by decide) _).trans
    (((walk_deep_s 39 ["n"]).trans (walk_deep_n 38 [])).trans walk_nil))

theorem lookup_deep_entry_n : deepDisk.lookup (chain 16) ⟨"n"⟩ = .ok (chain 16, .directory) :=
  lookup_of_locate (find_eq_ok_iff.2 ⟨⟨by decide, by decide, by decide, fun _ =>
    entryAt?_deepDisk_chain (Nat.le_refl _)⟩, follows_of_walk ((walk_deep_n 39 []).trans walk_nil)⟩)

theorem eq_of_mem_children_deep {name : String}
    (h : name ∈ (deepDisk.children (chain 16)).map Prod.fst) : name = "n" := by
  obtain ⟨item, hitem, rfl⟩ := List.mem_map.1 h
  have hentry := mem_children_iff.1 hitem
  by_contra hne
  rw [entryAt?_deepDisk, if_neg] at hentry
  · cases hentry
  · exact fun h => by simpa [length_chain] using h.length_le
  · exact fun h => by simpa [length_chain] using congrArg List.length h
  · exact fun h => hne (List.singleton_inj.1 (List.append_cancel_left h))

theorem eq_of_mem_children_deep_root {name : String}
    (h : name ∈ (deepDisk.children []).map Prod.fst) : name = "s" ∨ name = longName := by
  obtain ⟨item, hitem, rfl⟩ := List.mem_map.1 h
  have hentry := mem_children_iff.1 hitem
  by_contra hne
  rw [not_or] at hne
  rw [entryAt?_deepDisk, if_neg] at hentry
  · cases hentry
  · exact fun h => hne.2 (List.eq_of_mem_replicate (h.subset (by simp)))
  · exact fun h => hne.1 (List.singleton_inj.1 h)
  · exact fun h => by simpa [length_chain] using congrArg List.length h

/-- From the directory no way leads out of it. -/
theorem location_of_reaches_deep {isRoot : Bool} {directory : Path} {names : List String}
    {l : Location}
    (h : Walk.Reaches deepDisk [] documentSelection isRoot directory names l)
    (hlookup : deepDisk.lookup [] directory = .ok (chain 16, .directory)) : l = chain 16 := by
  induction h with
  | here hlookup' =>
    cases hlookup.symm.trans hlookup'
    rfl
  | @inside _ directory name _ _ hlists _ hrest ih =>
    obtain ⟨l', hlookup', hmem⟩ := lists_iff.1 hlists
    cases hlookup.symm.trans hlookup'
    obtain rfl := eq_of_mem_children_deep hmem
    obtain ⟨l', hnext⟩ := hrest.exists_lookup
    have hdirectory := (find_eq_ok_iff.1 (locate_of_lookup hlookup)).1.text_ne_empty
    have hstep := lookupIn_of_join closed_deepDisk hdirectory rfl (by decide) hnext
    rw [lookupIn_of_lookup hlookup, lookup_deep_entry_n] at hstep
    cases hstep
    exact ih hnext

theorem eq_of_reaches_deepDisk {names : List String} {l : Location}
    (h : Walk.Reaches deepDisk [] documentSelection true ⟨"/"⟩ names l) :
    names = [] ∨ l = chain 16 := by
  cases h with
  | here => exact .inl rfl
  | @inside _ _ name _ _ hlists henters hrest =>
    obtain ⟨l', hlookup, hmem⟩ := lists_iff.1 hlists
    cases deepDisk.lookup_root.symm.trans hlookup
    rcases eq_of_mem_children_deep_root hmem with rfl | rfl
    · exact .inr (location_of_reaches_deep hrest lookup_deep_s)
    · cases isPassedOver_longName.symm.trans henters.looked

/-- There is no canonical path but the root's, so of each route its spelling is noted. -/
theorem mark_deepDisk {names : List String} {l : Location}
    (h : Walk.Reaches deepDisk [] documentSelection true ⟨"/"⟩ names l) :
    Walk.mark deepDisk [] ((Path.mk "/").under names) = ((Path.mk "/").under names).components := by
  rcases eq_of_reaches_deepDisk h with rfl | rfl
  · unfold Walk.mark
    rw [show (Path.mk "/").under [] = ⟨"/"⟩ from rfl, canonical?_root]
    rfl
  · have hlong : maxPathSize ≤ (chain 16).size := by
      rw [size_chain]
      decide
    have hgoes := Path.goesOn_under ⟨"/"⟩ fun name hname =>
      (h.isFileName wellNamed_deepDisk name hname).isStep
    have habsolute : ((Path.mk "/").under names).isAbsolute = true := hgoes.isAbsolute_eq
    unfold Walk.mark
    rw [canonical?_eq_none_of_long closed_deepDisk habsolute h.lookup_under hlong]
    rfl

theorem free_deepDisk : Walk.Free (Walk.Notes deepDisk [] documentSelection true ⟨"/"⟩) [] := by
  refine ⟨fun _ _ _ => List.not_mem_nil, ?_⟩
  rintro names names' noted ⟨⟨l, h⟩, hnoted⟩ ⟨⟨l', h'⟩, hnoted'⟩
  refine @Path.under_inj ⟨"/"⟩ names names' (h.isFileName wellNamed_deepDisk)
    (h'.isFileName wellNamed_deepDisk) ?_
  rw [← mark_deepDisk h, ← mark_deepDisk h', hnoted, hnoted']

theorem isFile_deepDisk (l : Location) (held : Entry) (h : deepDisk.entryAt? l = some held) :
    held.isFile = false := by
  by_cases hs : l = ["s"]
  · rw [hs, entryAt?_deepDisk_s] at h
    cases h
    rfl
  by_cases hn : l = chain 16 ++ ["n"]
  · rw [hn, entryAt?_deepDisk_n] at h
    cases h
    rfl
  · rw [entryAt?_deepDisk hs hn] at h
    split at h
    · cases h
      rfl
    · cases h

theorem mem_children_deep_s : "s" ∈ (deepDisk.children []).map Prod.fst := by
  have hchild : ("s", Entry.link deepTarget) ∈ deepDisk.children [] :=
    mem_children_iff.2 entryAt?_deepDisk_s
  exact List.mem_map_of_mem hchild

theorem mem_children_deep_n : "n" ∈ (deepDisk.children (chain 16)).map Prod.fst := by
  have hchild : ("n", Entry.link ⟨"."⟩) ∈ deepDisk.children (chain 16) :=
    mem_children_iff.2 entryAt?_deepDisk_n
  exact List.mem_map_of_mem hchild

theorem reaches_deep_n :
    Walk.Reaches deepDisk [] documentSelection false ⟨"/s"⟩ ["n"] (chain 16) := by
  have hconfig : hasConfig deepDisk [] ⟨"/s/n"⟩ = true → false = true := fun hconfig =>
    absurd (Walk.hasOwnConfig_of_hasConfig closed_deepDisk lookup_deep_s_n hconfig)
      (Walk.not_hasOwnConfig closed_deepDisk isFile_deepDisk _)
  exact .inside (lists_iff.2 ⟨_, lookup_deep_s, mem_children_deep_n⟩) ⟨by decide, ⟨rfl, rfl⟩,
    isDirectory_iff.2 ⟨_, lookup_deep_s_n⟩, by decide, hconfig⟩ (.here lookup_deep_s_n)

theorem reaches_deepDisk {names : List String}
    (h : Walk.Reaches deepDisk [] documentSelection false ⟨"/s"⟩ names (chain 16)) :
    Walk.Reaches deepDisk [] documentSelection true ⟨"/"⟩ ("s" :: names) (chain 16) :=
  .inside (lists_iff.2 ⟨_, deepDisk.lookup_root, mem_children_deep_s⟩) ⟨by decide, ⟨rfl, rfl⟩,
    isDirectory_iff.2 ⟨_, lookup_deep_s⟩, by decide, fun _ => rfl⟩ h

end DeepDisk

/-- Where the system does not take the way back, or gives no canonical path, a walk does not notice
that it comes back: a root that opens again from itself ends no walk, and a directory is listed by
two paths. -/
theorem walk_unnoticed :
    (ringDisk.Closed ∧ ringDisk.WellNamed ∧
      Selection.ofConfig ringDisk [] ⟨"/"⟩ .default = .ok documentSelection ∧
      Walk.Opens ringDisk [] documentSelection ⟨"/"⟩ [] [] ∧
      Walk.Opens ringDisk [] documentSelection ⟨"/"⟩ ["n", "m"] [] ∧
      ∃ files, discover ringDisk [] ⟨"/"⟩ .default = .ok files) ∧
    deepDisk.Closed ∧ deepDisk.WellNamed ∧
      Selection.ofConfig deepDisk [] ⟨"/"⟩ .default = .ok documentSelection ∧
      ∃ listed walk path path' l,
        Walk.Goes deepDisk [] documentSelection (.directory true ⟨"/"⟩) ⟨[], []⟩ listed
          (.ok walk) ∧
        path ∈ listed ∧ path' ∈ listed ∧ path ≠ path' ∧
        deepDisk.lookup [] path = .ok (l, .directory) ∧
        deepDisk.lookup [] path' = .ok (l, .directory) := by
  refine ⟨⟨closed_ringDisk, wellNamed_ringDisk, ofConfig_ringDisk, opens_ringDisk.1,
    opens_ringDisk.2, exists_discover_ringDisk⟩, closed_deepDisk, wellNamed_deepDisk, ?config, ?_⟩
  case config =>
    have hne : longName ≠ ".gitignore" := longName_ne (by decide)
    refine ofConfig_of_no_ignore ?_
    rw [entryAt?_deepDisk (by decide) fun h => by simpa [length_chain] using congrArg List.length h,
      if_neg fun h => hne (List.eq_of_mem_replicate (h.subset (by simp))).symm]
  have hvisits := @Walk.visits_run deepDisk [] documentSelection true ⟨"/"⟩ wellNamed_deepDisk
    maxPathSize (Nat.le_add_right ..) ⟨[], []⟩
  obtain ⟨walk, hrun⟩ := hvisits.exists_iff.2 free_deepDisk
  obtain ⟨listed, hgoes⟩ := @Walk.exists_goes_run deepDisk [] documentSelection true ⟨"/"⟩
    wellNamed_deepDisk maxPathSize (Nat.le_add_right ..) ⟨[], []⟩
  rw [hrun] at hgoes
  have hfirst := reaches_deepDisk (.here lookup_deep_s)
  have hsecond := reaches_deepDisk reaches_deep_n
  have hlisted {names : List String}
      (h : Walk.Reaches deepDisk [] documentSelection true ⟨"/"⟩ names (chain 16)) :
      ∃ path ∈ listed, Walk.mark deepDisk [] path = ((Path.mk "/").under names).components ∧
        deepDisk.lookup [] path = .ok (chain 16, .directory) := by
    obtain ⟨path, hpath, hmark⟩ := List.mem_map.1
      (hgoes.mem_listed wellNamed_deepDisk ⟨⟨_, h⟩, mark_deepDisk h⟩)
    obtain ⟨l, hlookup⟩ := hgoes.exists_lookup path hpath
    obtain rfl := Walk.location_eq_of_mark_eq closed_deepDisk wellNamed_deepDisk hlookup
      h.lookup_under (hmark.trans (mark_deepDisk h).symm)
    exact ⟨path, hpath, hmark, hlookup⟩
  obtain ⟨path, hpath, hmark, hlookup⟩ := hlisted hfirst
  obtain ⟨path', hpath', hmark', hlookup'⟩ := hlisted hsecond
  refine ⟨listed, walk, path, path', _, hgoes, hpath, hpath', ?_, hlookup, hlookup'⟩
  rintro rfl
  exact absurd (hmark.symm.trans hmark') (by decide)

end LiterateCheck
