import LiterateCheck.Proofs.Disk.Canonical
import LiterateCheck.Watch

/-!
# Events of the output root

An event is a run's own when all its paths begin with the components of the output root, as it is
written or as it is found. Whether they lie in it is another question, since links and `..` are
passed over.

1. `SpelledFrom` names the place of a path by how it is spelled: some components lead to a directory,
   links and `..` among them, and straight names go on from there.
2. A path that is spelled straight down from `/`, or from a directory from which the output root is
   spelled as well, lies in the output root just when it begins with it
   (`ToldBySpelling.beginsWith_iff`). For such paths the events passed over are those of the output
   root (`isOutputEvent_iff`).
3. Through a link an event of the output root is not passed over, and by a `..` one from outside is
   (`isOutputEvent_misled`).
-/

namespace LiterateCheck

namespace Path

/-- The names that components stand for, `..` among them. -/
def namesOf (components : List Component) : List String :=
  (components.filter fun step => step != .here && step != .root).map Component.text

theorem way_eq_namesOf (path : Path) : path.way = namesOf path.components := by
  unfold namesOf
  rw [filter_components, List.map_map]
  exact (List.map_id'' (fun name => Component.text_ofName name) path.way).symm

theorem namesOf_append_names (front : List Component) (names : List String) :
    namesOf (front ++ names.map .name) = namesOf front ++ names := by
  have hnames : (names.map Component.name).filter
      (fun step => step != .here && step != .root) = names.map .name := by
    rw [List.filter_eq_self]
    intro step hstep
    obtain ⟨name, -, rfl⟩ := List.mem_map.1 hstep
    rfl
  unfold namesOf
  rw [List.filter_append, hnames, List.map_append, List.map_map]
  exact congrArg _ (List.map_id names)

theorem way_prefix_of_startsWith {path stem : Path} (habsolute : path.isAbsolute = true)
    (hstem : stem.text ≠ "") (h : path.startsWith stem = true) :
    stem.isAbsolute = true ∧ stem.way <+: path.way := by
  obtain ⟨step, others, hcomponents⟩ := List.exists_cons_of_ne_nil (components_ne_nil hstem)
  have hbegins : stem.components <+: path.components := by
    unfold startsWith at h
    rwa [List.isPrefixOf_iff_prefix] at h
  have hstemAbsolute : stem.isAbsolute = true := by
    rw [isAbsolute_iff_head?, hcomponents]
    rw [hcomponents, components_of_absolute habsolute, List.cons_prefix_cons] at hbegins
    rw [hbegins.1]
    rfl
  exact ⟨hstemAbsolute, (startsWith_iff habsolute hstemAbsolute).1 h⟩

end Path

namespace Disk

/-- A path is spelled by components that lead to a directory and straight names from there. -/
structure SpelledFrom (disk : Disk) (cwd : Location) (front : List Component) (here : Location)
    (names : List String) (path : Path) : Prop where
  components_eq : path.components = front ++ names.map .name
  leads : disk.walk true maxLinks (if front.head? = some .root then [] else cwd)
    (Path.namesOf front) = .ok (.entry here .directory)
  straight : disk.Straight here names

/-- How a path and the output root are spelled tells whether the one lies in the other. -/
inductive ToldBySpelling (disk : Disk) (cwd : Location) (root path : Path) : Prop
  /-- The path goes straight down from `/`, and the output root has a canonical path. -/
  | resolved {canonical : Path} : path.isAbsolute = true →
    disk.Straight [] path.way → disk.canonical? cwd root = some canonical →
      ToldBySpelling disk cwd root path
  /-- Both are spelled from one directory. If this is spelled as a place in the output root, it lies
  there. -/
  | alongside {front : List Component} {here : Location} {names outNames : List String} :
    disk.SpelledFrom cwd front here names path → disk.SpelledFrom cwd front here outNames root →
      (∀ place : Location, disk.canonical? cwd root = some place.path →
        place.path.components <+: front → place <+: here) →
      ToldBySpelling disk cwd root path

section Spelled

variable {disk : Disk} {cwd : Location} {root path : Path}

theorem settled_of_straight (habsolute : path.isAbsolute = true)
    (hstraight : disk.Straight [] path.way) : disk.settled cwd path = path.way := by
  unfold settled start
  rw [if_pos habsolute]
  exact settle_append walk_nil hstraight

theorem SpelledFrom.settled_eq {front : List Component} {here : Location} {names : List String}
    (h : disk.SpelledFrom cwd front here names path) : disk.settled cwd path = here ++ names := by
  have hstart : start cwd path = if front.head? = some .root then [] else cwd := by
    have hhead : path.isAbsolute = true ↔ front.head? = some .root := by
      rw [Path.isAbsolute_iff_head?, h.components_eq]
      cases front with
      | nil => cases names <;> simp
      | cons => rfl
    unfold start
    simp only [hhead]
  unfold settled
  rw [hstart, Path.way_eq_namesOf, h.components_eq, Path.namesOf_append_names]
  exact settle_append h.leads h.straight

/-- A path that begins with the components of a place lies in it, unless these end among those in
front of its straight names. -/
theorem SpelledFrom.prefix_of_components {front : List Component} {here place : Location}
    {names : List String} (h : disk.SpelledFrom cwd front here names path)
    (hplace : disk.Straight [] place) (hbegins : place.path.components <+: path.components) :
    place.path.components <+: front ∨ place <+: here ++ names := by
  have hcomponents := Path.components_path hplace.isFileName
  rw [h.components_eq] at hbegins
  rcases List.prefix_or_prefix_of_prefix hbegins (List.prefix_append front _) with hin | hout
  · exact .inl hin
  right
  cases front with
  | nil =>
    -- no name is a root
    rw [hcomponents] at hbegins
    cases names with
    | nil => simp at hbegins
    | cons => simp at hbegins
  | cons step front =>
    rw [hcomponents] at hout hbegins
    obtain ⟨rfl, hfront⟩ := List.cons_prefix_cons.1 hout
    obtain ⟨above, ⟨rest, rfl⟩, rfl⟩ := List.prefix_map_iff.1 hfront
    have hleads := h.leads
    rw [← List.singleton_append, Path.namesOf_append_names] at hleads
    -- what is in front spells a directory above the place, and leads there
    obtain rfl : here = above :=
      (follows_of_walk hleads).location_of_straight (straight_append_iff.1 hplace).1
    rw [List.cons_append, List.cons_prefix_cons, ← List.map_append,
      List.prefix_map_iff_of_injective Component.name_injective] at hbegins
    exact hbegins.2

/-- A path begins with the components of the output root, as it is written or as it is found. -/
def BeginsWith (disk : Disk) (cwd : Location) (root path : Path) : Prop :=
  path.startsWith root = true ∨ ∃ canonical, disk.canonical? cwd root = some canonical ∧
    path.startsWith canonical = true

/-- A path that goes straight down from `/` lies in an output root that exists just when it begins
with it. -/
theorem beginsWith_iff_of_straight (hclosed : disk.Closed) (hnamed : disk.WellNamed)
    (habsolute : path.isAbsolute = true) (hstraight : disk.Straight [] path.way)
    {canonical : Path} (hroot : disk.canonical? cwd root = some canonical) :
    disk.BeginsWith cwd root path ↔ disk.settled cwd root <+: disk.settled cwd path := by
  have hplace := straight_settled hclosed hnamed hroot
  have hfound : path.startsWith canonical = true ↔ disk.settled cwd root <+: path.way := by
    rw [← path_settled hroot, Path.startsWith_iff habsolute (isAbsolute_path _),
      Path.way_path hplace.isFileName]
  rw [settled_of_straight habsolute hstraight]
  constructor
  · rintro (hwritten | ⟨canonical', hcanonical, hbegins⟩)
    · obtain ⟨hrootAbsolute, rest, hrest⟩ := Path.way_prefix_of_startsWith habsolute
        (canonical?_eq_some_iff.1 hroot).1.2.1 hwritten
      -- the root as written is a part of the path, so it is straight as well
      rw [← hrest] at hstraight
      rw [settled_of_straight hrootAbsolute (straight_append_iff.1 hstraight).1, ← hrest]
      exact List.prefix_append ..
    · obtain rfl := Option.some.inj (hroot.symm.trans hcanonical)
      exact hfound.1 hbegins
  · exact fun hin => .inr ⟨_, hroot, hfound.2 hin⟩

/-- A path that is spelled from the same directory as the output root lies in it just when it begins
with it. -/
theorem beginsWith_iff_of_spelledFrom (hclosed : disk.Closed) (hnamed : disk.WellNamed)
    {front : List Component} {here : Location} {names outNames : List String}
    (hpath : disk.SpelledFrom cwd front here names path)
    (hout : disk.SpelledFrom cwd front here outNames root)
    (habove : ∀ place : Location, disk.canonical? cwd root = some place.path →
      place.path.components <+: front → place <+: here) :
    disk.BeginsWith cwd root path ↔ disk.settled cwd root <+: disk.settled cwd path := by
  have hwritten : path.startsWith root = true ↔ outNames <+: names := by
    unfold Path.startsWith
    rw [List.isPrefixOf_iff_prefix, hpath.components_eq, hout.components_eq,
      List.prefix_append_right_inj,
      List.prefix_map_iff_of_injective Component.name_injective]
  rw [hpath.settled_eq, hout.settled_eq, List.prefix_append_right_inj, ← hwritten]
  refine ⟨?_, .inl⟩
  rintro (hbegins | ⟨canonical, hroot, hbegins⟩)
  · exact hbegins
  · obtain rfl := path_settled hroot
    have hstraight := straight_settled hclosed hnamed hroot
    rw [hout.settled_eq] at hroot hbegins hstraight
    unfold Path.startsWith at hbegins
    rw [List.isPrefixOf_iff_prefix] at hbegins
    have hin : here ++ outNames <+: here ++ names := by
      rcases hpath.prefix_of_components hstraight hbegins with hfront | hin
      · exact (habove _ hroot hfront).trans (List.prefix_append ..)
      · exact hin
    rwa [hwritten, ← List.prefix_append_right_inj here]

/-- Where the spelling tells, a path lies in the output root just when it begins with it. -/
theorem ToldBySpelling.beginsWith_iff (hclosed : disk.Closed) (hnamed : disk.WellNamed)
    (h : disk.ToldBySpelling cwd root path) :
    disk.BeginsWith cwd root path ↔ disk.settled cwd root <+: disk.settled cwd path := by
  cases h with
  | resolved habsolute hstraight hroot =>
    exact beginsWith_iff_of_straight hclosed hnamed habsolute hstraight hroot
  | alongside hpath hout habove =>
    exact beginsWith_iff_of_spelledFrom hclosed hnamed hpath hout habove

end Spelled

end Disk

theorem isOutputEvent_eq_true_iff {disk : Disk} {cwd : Location} {paths : List Path} {root : Path} :
    isOutputEvent disk cwd paths root = true ↔
      paths ≠ [] ∧ ∀ path ∈ paths, disk.BeginsWith cwd root path := by
  unfold isOutputEvent Disk.BeginsWith
  cases disk.canonical? cwd root <;> simp

/-- **Which events are passed over.** Where the paths of an event go straight down from `/`, or from
a directory from which the output root is spelled as well, the event is passed over exactly when it
has a path and all its paths lie in the output root. -/
theorem isOutputEvent_iff {disk : Disk} (hclosed : disk.Closed) (hnamed : disk.WellNamed)
    {cwd : Location} {root : Path} {paths : List Path}
    (hpaths : ∀ path ∈ paths, disk.ToldBySpelling cwd root path) :
    isOutputEvent disk cwd paths root = true ↔
      paths ≠ [] ∧ ∀ path ∈ paths, disk.settled cwd root <+: disk.settled cwd path := by
  rw [isOutputEvent_eq_true_iff]
  exact and_congr_right fun _ => forall₂_congr fun path hpath =>
    (hpaths path hpath).beginsWith_iff hclosed hnamed

/-! ### A project and a link to it -/

/-- A disk with an output root in a project, and a link to the project beside it. -/
def linkDisk : Disk :=
  ((Disk.empty.put ["p"] .directory).put ["p", "out"] .directory).put ["link"] (.link ⟨"p"⟩)

section LinkDisk

open Disk

theorem closed_linkDisk : linkDisk.Closed := by
  have hproject := @Closed.put .empty closed_empty [] "p" rfl rfl .directory
  have hout := @Closed.put _ hproject ["p"] "out" rfl rfl .directory
  exact @Closed.put _ hout [] "link" rfl rfl _

theorem wellNamed_linkDisk : linkDisk.WellNamed :=
  ((wellNamed_empty.put _ (by decide)).put _ (by decide)).put _ (by decide)

theorem follows_out {links : Nat} :
    linkDisk.Follows true links [] ["p", "out"] (.entry ["p", "out"] .directory) :=
  .into (by decide) rfl (.into (by decide) rfl .stop)

theorem follows_link {links : Nat} :
    linkDisk.Follows true (links + 1) [] ["link", "out"] (.entry ["p", "out"] .directory) :=
  .through (by decide) rfl (.inr rfl) rfl follows_out

theorem fits_linkDisk : linkDisk.Fits := by
  unfold Fits
  decide

theorem lookup_out : linkDisk.lookup [] ⟨"/p/out"⟩ = .ok (["p", "out"], .directory) :=
  lookup_of_locate (find_of_follows (by decide) follows_out)

theorem lookup_link : linkDisk.lookup [] ⟨"/link/out"⟩ = .ok (["p", "out"], .directory) :=
  lookup_of_locate (find_of_follows (by decide) follows_link)

theorem straight_document : linkDisk.Straight ["p"] ["a.mbt.md"] :=
  .cons (by decide) (fun _ h => by cases h) .nil

theorem straight_generated : linkDisk.Straight ["p", "out"] ["a.md.mbt"] :=
  .cons (by decide) (fun _ h => by cases h) .nil

theorem straight_out : linkDisk.Straight [] ["p", "out"] :=
  straight_of_lookup closed_linkDisk wellNamed_linkDisk lookup_out

/-- The output root is spelled through the link, the paths of the events are not. A file of the
output root is passed over, together with a document it is not. -/
theorem isOutputEvent_linked :
    isOutputEvent linkDisk [] [⟨"/p/out/a.md.mbt"⟩] ⟨"/link/out"⟩ = true ∧
    isOutputEvent linkDisk [] [⟨"/p/out/a.md.mbt"⟩, ⟨"/p/a.mbt.md"⟩] ⟨"/link/out"⟩ = false := by
  have hgeneratedWay : linkDisk.Straight [] (Path.mk "/p/out/a.md.mbt").way :=
    straight_append_iff.2 ⟨straight_out, straight_generated⟩
  have hdocumentWay : linkDisk.Straight [] (Path.mk "/p/a.mbt.md").way :=
    .cons (by decide) (fun _ h => by cases h) straight_document
  have hgenerated : linkDisk.ToldBySpelling [] ⟨"/link/out"⟩ ⟨"/p/out/a.md.mbt"⟩ :=
    .resolved rfl hgeneratedWay (canonical?_of_lookup fits_linkDisk lookup_link)
  have hdocument : linkDisk.ToldBySpelling [] ⟨"/link/out"⟩ ⟨"/p/a.mbt.md"⟩ :=
    .resolved rfl hdocumentWay (canonical?_of_lookup fits_linkDisk lookup_link)
  constructor
  · refine (isOutputEvent_iff closed_linkDisk wellNamed_linkDisk (by simpa using hgenerated)).2
      ⟨by simp, ?_⟩
    rw [List.forall_mem_singleton, settled_of_lookup lookup_link,
      settled_of_straight rfl hgeneratedWay]
    decide
  · rw [← Bool.not_eq_true, isOutputEvent_iff closed_linkDisk wellNamed_linkDisk
      (List.forall_mem_cons.2 ⟨hgenerated, by simpa using hdocument⟩)]
    intro hall
    have hin := hall.2 ⟨"/p/a.mbt.md"⟩ (by simp)
    rw [settled_of_lookup lookup_link, settled_of_straight rfl hdocumentWay] at hin
    exact absurd hin (by decide)

/-- The spelling may mislead. A file of the output root that is met through the link is not passed
over; a document outside is, when its path goes up from the output root. -/
theorem isOutputEvent_misled :
    (isOutputEvent linkDisk [] [⟨"/link/out/a.md.mbt"⟩] ⟨"/p/out"⟩ = false ∧
      linkDisk.settled [] ⟨"/p/out"⟩ <+: linkDisk.settled [] ⟨"/link/out/a.md.mbt"⟩) ∧
    (isOutputEvent linkDisk [] [⟨"/p/out/../a.mbt.md"⟩] ⟨"/p/out"⟩ = true ∧
      ¬linkDisk.settled [] ⟨"/p/out"⟩ <+: linkDisk.settled [] ⟨"/p/out/../a.mbt.md"⟩) := by
  have hgenerated : linkDisk.settled [] ⟨"/link/out/a.md.mbt"⟩ = ["p", "out", "a.md.mbt"] :=
    settle_append (walk_of_follows follows_link) straight_generated
  have hdocument : linkDisk.settled [] ⟨"/p/out/../a.mbt.md"⟩ = ["p", "a.mbt.md"] :=
    @settle_append _ _ ["a.mbt.md"] ["p", "out", ".."] _
      (walk_of_follows (.into (by decide) rfl (.into (by decide) rfl (.up .stop)))) straight_document
  rw [settled_of_lookup lookup_out, hgenerated, hdocument]
  refine ⟨⟨?_, by decide⟩, ?_, by decide⟩
  · rw [← Bool.not_eq_true, isOutputEvent_eq_true_iff, List.forall_mem_singleton]
    rintro ⟨-, hwritten | ⟨canonical, hroot, hfound⟩⟩
    · exact absurd hwritten (by decide)
    · obtain rfl := eq_path_of_canonical? lookup_out hroot
      exact absurd hfound (by decide)
  · rw [isOutputEvent_eq_true_iff, List.forall_mem_singleton]
    exact ⟨by simp, .inl (by decide)⟩

end LinkDisk

end LiterateCheck
