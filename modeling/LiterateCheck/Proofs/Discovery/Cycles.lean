import LiterateCheck.Proofs.Discovery.Ordering
import LiterateCheck.Proofs.Disk.Extending
import Mathlib.Data.List.Induction
import Mathlib.Data.List.Perm.Subperm
import Mathlib.Logic.Relation

/-!
# What is reported as a cycle

A walk fails where it notes of a directory what it noted before.

1. Two routes lead to one directory exactly when some directory is reached again from itself
   (`Cyclic`), or when two routes come together neither of which goes on from the other (`Rejoins`).
2. So it is in these cases that discovery reports a cycle (`symlinkCycle_iff`), and always as long as
   the canonical paths of the disk are short enough. Only the first is one: a directory with a link
   to it beside it is reported, too (`symlinkCycle_of_twin`).
-/

namespace LiterateCheck

namespace Walk

/-! ## Routes -/

section Routes

variable {disk : Disk} {cwd : Location} {selection : Selection} {isRoot : Bool}
  {directory : Path} {names : List String} {l : Location}

theorem Reaches.exists_of_prefix (h : Reaches disk cwd selection isRoot directory names l)
    {part : List String} (hpart : part <+: names) :
    ∃ l', Reaches disk cwd selection isRoot directory part l' := by
  induction part generalizing isRoot directory names with
  | nil =>
    obtain ⟨l', hlookup⟩ := h.exists_lookup
    exact ⟨l', .here hlookup⟩
  | cons name part ih =>
    obtain ⟨rest, rfl⟩ := hpart
    obtain ⟨hlists, henters, hrest⟩ := reaches_cons_iff.1 h
    obtain ⟨l', hreaches⟩ := ih hrest (List.prefix_append part rest)
    exact ⟨l', .inside hlists henters hreaches⟩

theorem Reaches.location_eq {l' : Location}
    (h : Reaches disk cwd selection isRoot directory names l)
    (h' : Reaches disk cwd selection isRoot directory names l') : l = l' := by
  cases h.lookup_under.symm.trans h'.lookup_under
  rfl

end Routes

/-! ## Two ways to one directory -/

section Ways

variable (disk : Disk) (cwd : Location) (selection : Selection) (root : Path)

/-- By one entry more, a route from the root goes on from one directory to another. -/
def Leads (l l' : Location) : Prop :=
  ∃ names name, Reaches disk cwd selection true root names l ∧
    Reaches disk cwd selection true root (names ++ [name]) l'

/-- Some directory that is entered is reached again from itself, through one entry or more. -/
def Cyclic : Prop :=
  ∃ l, Relation.TransGen (Leads disk cwd selection root) l l

/-- Two routes lead to one directory, and neither goes on from the other. -/
def Rejoins : Prop :=
  ∃ names names' l, Reaches disk cwd selection true root names l ∧
    Reaches disk cwd selection true root names' l ∧ ¬names <+: names' ∧ ¬names' <+: names

variable {disk cwd selection root} {names more : List String} {l l' : Location}

/-- A route that goes on from another leads on from where that one leads. -/
theorem transGen_leads (h : Reaches disk cwd selection true root names l)
    (h' : Reaches disk cwd selection true root (names ++ more) l') (hmore : more ≠ []) :
    Relation.TransGen (Leads disk cwd selection root) l l' := by
  induction more using List.reverseRecOn generalizing l' with
  | nil => exact absurd rfl hmore
  | append_singleton more name ih =>
    rw [← List.append_assoc] at h'
    obtain ⟨middle, hmiddle⟩ := h'.exists_of_prefix (List.prefix_append (names ++ more) [name])
    have hlast : Leads disk cwd selection root middle l' := ⟨_, name, hmiddle, h'⟩
    by_cases hnil : more = []
    · subst hnil
      rw [List.append_nil] at hmiddle
      rw [h.location_eq hmiddle]
      exact .single hlast
    · exact (ih hmiddle hnil).tail hlast

/-- Where no two routes lead to one directory, what leads on is a longer route. -/
theorem exists_longer (hapart : Apart (Reaches disk cwd selection true root))
    (h : Relation.TransGen (Leads disk cwd selection root) l l') :
    ∃ names more, more ≠ [] ∧ Reaches disk cwd selection true root names l ∧
      Reaches disk cwd selection true root (names ++ more) l' := by
  induction h with
  | single hleads =>
    obtain ⟨names, name, hl, hl'⟩ := hleads
    exact ⟨names, [name], List.cons_ne_nil _ _, hl, hl'⟩
  | tail _ hleads ih =>
    obtain ⟨names, more, -, hl, hmiddle⟩ := ih
    obtain ⟨names', name, hmiddle', hl'⟩ := hleads
    obtain rfl := hapart _ _ _ hmiddle' hmiddle
    rw [List.append_assoc] at hl'
    exact ⟨names, more ++ [name], by simp, hl, hl'⟩

theorem not_apart_of_cyclic (h : Cyclic disk cwd selection root) :
    ¬Apart (Reaches disk cwd selection true root) := by
  intro hapart
  obtain ⟨l, hcycle⟩ := h
  obtain ⟨names, more, hmore, hl, hl'⟩ := exists_longer hapart hcycle
  exact hmore (List.append_right_eq_self.1 (hapart _ _ _ hl' hl))

theorem not_apart_iff : ¬Apart (Reaches disk cwd selection true root) ↔
    Cyclic disk cwd selection root ∨ Rejoins disk cwd selection root := by
  constructor
  · intro hnot
    unfold Apart at hnot
    push Not at hnot
    obtain ⟨names, names', l, h, h', hne⟩ := hnot
    by_cases hpart : names <+: names'
    · obtain ⟨more, rfl⟩ := hpart
      exact .inl ⟨l, transGen_leads h h' fun hnil => hne (by rw [hnil, List.append_nil])⟩
    by_cases hpart' : names' <+: names
    · obtain ⟨more, rfl⟩ := hpart'
      exact .inl ⟨l, transGen_leads h' h fun hnil => hne (by rw [hnil, List.append_nil])⟩
    · exact .inr ⟨names, names', l, h, h', hpart, hpart'⟩
  · rintro (hcyclic | ⟨names, names', l, h, h', hpart, -⟩)
    · exact not_apart_of_cyclic hcyclic
    · intro hapart
      rw [hapart names names' l h h'] at hpart
      exact hpart (List.prefix_refl names')

end Ways

end Walk

/-! ## Reports -/

section Reports

variable {disk : Disk} {cwd : Location} {root : Path}

theorem symlinkCycle_discoverWith_iff (hnamed : disk.WellNamed) {selection : Selection} :
    (∃ path, discoverWith disk cwd root selection = .error (.symlinkCycle path)) ↔
      ¬Walk.Free (Walk.Notes disk cwd selection true root) [] := by
  rw [← exists_discoverWith_iff hnamed]
  constructor
  · rintro ⟨path, h⟩ ⟨files, hfiles⟩
    cases h.symm.trans hfiles
  · intro hnot
    cases h : discoverWith disk cwd root selection with
    | ok files => exact absurd ⟨files, h⟩ hnot
    | error error =>
      unfold discoverWith at h
      rcases bind_eq_error_iff.1 h with hrun | ⟨walk, -, hsort⟩
      · obtain ⟨path, rfl⟩ := Walk.symlinkCycle_of_run hrun
        exact ⟨path, rfl⟩
      · cases hsort

theorem symlinkCycle_discover_iff (hnamed : disk.WellNamed) (config : Config) :
    (∃ path, discover disk cwd root config = .error (.symlinkCycle path)) ↔
      ∃ selection, Selection.ofConfig disk cwd root config = .ok selection ∧
        ¬Walk.Free (Walk.Notes disk cwd selection true root) [] := by
  unfold discover
  cases hselection : Selection.ofConfig disk cwd root config with
  | error error =>
    obtain ⟨pattern, quoted, fault, rfl⟩ := invalidPattern_of_ofConfig hselection
    constructor
    · rintro ⟨path, h⟩
      cases h
    · rintro ⟨selection, h, -⟩
      cases h
  | ok selection =>
    refine (symlinkCycle_discoverWith_iff hnamed).trans ⟨fun h => ⟨selection, rfl, h⟩, ?_⟩
    rintro ⟨selection', h, hfree⟩
    cases h
    exact hfree

/-- **When a cycle is reported.** Discovery fails with a cycle only when its patterns are valid and
one of two things is so: a directory that is entered is reached again from itself, or two routes
come together in one directory, neither going on from the other. So where no routes come together,
every cycle that is reported is one. And it always fails in these cases when the canonical paths of
the disk are short enough for the system. -/
theorem symlinkCycle_iff (hclosed : disk.Closed) (hnamed : disk.WellNamed) (config : Config) :
    ((∃ path, discover disk cwd root config = .error (.symlinkCycle path)) →
      ∃ selection, Selection.ofConfig disk cwd root config = .ok selection ∧
        (Walk.Cyclic disk cwd selection root ∨ Walk.Rejoins disk cwd selection root)) ∧
    (disk.Fits → ((∃ path, discover disk cwd root config = .error (.symlinkCycle path)) ↔
      ∃ selection, Selection.ofConfig disk cwd root config = .ok selection ∧
        (Walk.Cyclic disk cwd selection root ∨ Walk.Rejoins disk cwd selection root))) := by
  simp only [← Walk.not_apart_iff, symlinkCycle_discover_iff hnamed]
  have honly : (∃ selection, Selection.ofConfig disk cwd root config = .ok selection ∧
      ¬Walk.Free (Walk.Notes disk cwd selection true root) []) →
      ∃ selection, Selection.ofConfig disk cwd root config = .ok selection ∧
        ¬Walk.Apart (Walk.Reaches disk cwd selection true root) := by
    rintro ⟨selection, hselection, hfree⟩
    exact ⟨selection, hselection, fun hapart => hfree (Walk.free_of_apart hclosed hnamed hapart)⟩
  refine ⟨honly, fun hfits => ⟨honly, ?_⟩⟩
  rintro ⟨selection, hselection, hapart⟩
  exact ⟨selection, hselection, fun hfree => hapart (Walk.apart_of_free hfits hfree)⟩

end Reports

/-! ### A link to the directory it stands in -/

/-- A disk whose only entry is a link to the root. -/
def loopDisk : Disk := Disk.empty.put ["loop"] (.link ⟨"/"⟩)

theorem closed_loopDisk : loopDisk.Closed :=
  @Disk.Closed.put .empty Disk.closed_empty [] "loop" rfl rfl _

theorem wellNamed_loopDisk : loopDisk.WellNamed := Disk.wellNamed_empty.put _ (by decide)

theorem fits_loopDisk : loopDisk.Fits := by
  unfold Disk.Fits
  decide

theorem ofConfig_loopDisk :
    Selection.ofConfig loopDisk [] ⟨"/"⟩ .default = .ok documentSelection :=
  ofConfig_of_no_ignore rfl

theorem lookup_loop : loopDisk.lookup [] ⟨"/loop"⟩ = .ok ([], .directory) :=
  Disk.lookup_of_locate (Disk.find_of_follows (by decide)
    (.through (by decide) rfl (.inr rfl) rfl (.stay .stop)))

/-- By the link the root is reached from itself. -/
theorem cyclic_loopDisk : Walk.Cyclic loopDisk [] documentSelection ⟨"/"⟩ := by
  have hlists : loopDisk.Lists [] ⟨"/"⟩ "loop" :=
    Disk.lists_iff.2 ⟨[], loopDisk.lookup_root, by decide⟩
  have henters : Walk.Enters loopDisk [] documentSelection true ⟨"/loop"⟩ "loop" :=
    ⟨by decide, ⟨rfl, rfl⟩, Disk.isDirectory_iff.2 ⟨_, lookup_loop⟩, by decide, fun _ => rfl⟩
  exact ⟨[], .single ⟨[], "loop", .here loopDisk.lookup_root,
    .inside hlists henters (.here lookup_loop)⟩⟩

theorem symlinkCycle_loop :
    ∃ path, discover loopDisk [] ⟨"/"⟩ .default = .error (.symlinkCycle path) :=
  ((symlinkCycle_iff closed_loopDisk wellNamed_loopDisk .default).2 fits_loopDisk).2
    ⟨documentSelection, ofConfig_loopDisk, .inl cyclic_loopDisk⟩

/-! ### A directory and a link to it -/

/-- A disk with an empty directory and a link to it beside it. -/
def twinDisk : Disk := (Disk.empty.put ["a"] .directory).put ["b"] (.link ⟨"a"⟩)

theorem closed_twinDisk : twinDisk.Closed := by
  have hfirst : (Disk.empty.put ["a"] .directory).Closed :=
    @Disk.Closed.put .empty Disk.closed_empty [] "a" rfl rfl _
  exact @Disk.Closed.put _ hfirst [] "b" rfl rfl _

theorem wellNamed_twinDisk : twinDisk.WellNamed :=
  (Disk.wellNamed_empty.put _ (by decide)).put _ (by decide)

theorem fits_twinDisk : twinDisk.Fits := by
  unfold Disk.Fits
  decide

theorem ofConfig_twinDisk :
    Selection.ofConfig twinDisk [] ⟨"/"⟩ .default = .ok documentSelection :=
  ofConfig_of_no_ignore rfl

section TwinDisk

variable {name : String} {names : List String} {l l' : Location}

/-- By its own name and by the link's the directory is found. -/
theorem lookup_twin (hname : name ∈ ["a", "b"]) :
    twinDisk.lookup [] ((Path.mk "/").join ⟨name⟩) = .ok (["a"], .directory) := by
  simp only [List.mem_cons, List.not_mem_nil, or_false] at hname
  rcases hname with rfl | rfl
  · exact Disk.lookup_of_locate (Disk.find_of_follows (by decide) (.into (by decide) rfl .stop))
  · exact Disk.lookup_of_locate (Disk.find_of_follows (by decide)
      (.through (by decide) rfl (.inr rfl) rfl (.into (by decide) rfl .stop)))

theorem lists_twinDisk_iff : twinDisk.Lists [] ⟨"/"⟩ name ↔ name ∈ ["a", "b"] := by
  rw [Disk.lists_iff]
  constructor
  · rintro ⟨l, hlookup, hmem⟩
    cases twinDisk.lookup_root.symm.trans hlookup
    exact hmem
  · exact fun hmem => ⟨[], twinDisk.lookup_root, hmem⟩

theorem reaches_twin (hname : name ∈ ["a", "b"]) :
    Walk.Reaches twinDisk [] documentSelection true ⟨"/"⟩ [name] ["a"] := by
  have hdirectory := Disk.isDirectory_iff.2 ⟨_, lookup_twin hname⟩
  refine .inside (lists_twinDisk_iff.2 hname) ?_ (.here (lookup_twin hname))
  simp only [List.mem_cons, List.not_mem_nil, or_false] at hname
  rcases hname with rfl | rfl <;>
    exact ⟨by decide, ⟨rfl, rfl⟩, hdirectory, by decide, fun _ => rfl⟩

/-- There are no further routes. -/
theorem eq_of_reaches_twinDisk
    (h : Walk.Reaches twinDisk [] documentSelection true ⟨"/"⟩ names l) :
    names = [] ∧ l = [] ∨ names.length = 1 ∧ l = ["a"] := by
  cases h with
  | here hlookup =>
    cases twinDisk.lookup_root.symm.trans hlookup
    exact .inl ⟨rfl, rfl⟩
  | inside hlists _ hrest =>
    have hlookup := lookup_twin (lists_twinDisk_iff.1 hlists)
    cases hrest with
    | here hlookup' =>
      cases hlookup.symm.trans hlookup'
      exact .inr ⟨rfl, rfl⟩
    | inside hinside =>
      obtain ⟨l', hlookup', hmem⟩ := Disk.lists_iff.1 hinside
      cases hlookup.symm.trans hlookup'
      cases hmem

theorem transGen_twinDisk
    (h : Relation.TransGen (Walk.Leads twinDisk [] documentSelection ⟨"/"⟩) l l') :
    l = [] ∧ l' = ["a"] := by
  have hone {l l' : Location} (h : Walk.Leads twinDisk [] documentSelection ⟨"/"⟩ l l') :
      l = [] ∧ l' = ["a"] := by
    obtain ⟨names, name, hl, hl'⟩ := h
    have hfrom := eq_of_reaches_twinDisk hl
    rcases eq_of_reaches_twinDisk hl' with ⟨hnil, -⟩ | ⟨hlength, hto⟩
    · cases List.append_ne_nil_of_right_ne_nil names (List.cons_ne_nil name []) hnil
    · rw [List.length_append, List.length_singleton] at hlength
      rcases hfrom with ⟨-, hnil⟩ | ⟨hone, -⟩
      · exact ⟨hnil, hto⟩
      · omega
  induction h with
  | single hleads => exact hone hleads
  | tail _ hleads ih =>
    -- nothing leads on from the directory
    cases ih.2.symm.trans (hone hleads).1

end TwinDisk

/-- The directory and the link to it come together in one directory, which is reached from none
but the root. Yet a cycle is reported. -/
theorem symlinkCycle_of_twin : twinDisk.Closed ∧
    (∃ path, discover twinDisk [] ⟨"/"⟩ .default = .error (.symlinkCycle path)) ∧
    ∃ selection, Selection.ofConfig twinDisk [] ⟨"/"⟩ .default = .ok selection ∧
      ¬Walk.Cyclic twinDisk [] selection ⟨"/"⟩ := by
  refine ⟨closed_twinDisk, ?_, documentSelection, ofConfig_twinDisk, ?_⟩
  · have hrejoins : Walk.Rejoins twinDisk [] documentSelection ⟨"/"⟩ :=
      ⟨["a"], ["b"], ["a"], reaches_twin (by decide), reaches_twin (by decide), by decide,
        by decide⟩
    refine (symlinkCycle_discover_iff wellNamed_twinDisk .default).2
      ⟨documentSelection, ofConfig_twinDisk, fun hfree => ?_⟩
    exact Walk.not_apart_iff.2 (.inr hrejoins) (Walk.apart_of_free fits_twinDisk hfree)
  · rintro ⟨l, hcycle⟩
    obtain ⟨rfl, hto⟩ := transGen_twinDisk hcycle
    cases hto

end LiterateCheck
