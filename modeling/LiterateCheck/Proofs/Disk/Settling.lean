import LiterateCheck.Proofs.Disk.Plain
import Mathlib.Data.List.Induction

/-!
# Where a path lies

A path lies where it leads to, links followed and `..` resolved, as far as it exists. What does not
exist is taken by name: a name lies below the place of what stands before it.

1. `settled` is that place. A path that is found lies where it is found (`settled_of_lookup`).
2. `Straight` names go down without links and `..`. Behind a way to a directory they lead down from
   there, whether something stands at their end or not (`settle_append`).
3. What is found lies straight below the root (`straight_of_lookup`).
-/

namespace LiterateCheck.Disk

/-! ## As far as it exists -/

/-- Where names lead, the last one first. -/
def settleReversed (disk : Disk) (here : Location) : List String → Location
  | [] => here
  | name :: front =>
    match disk.walk true maxLinks here (name :: front).reverse with
    | .ok (.entry place _) => place
    | _ => Location.step (disk.settleReversed here front) name

/-- Where names lead from a directory, as far as they exist. Each one that does not exist is one
step further. -/
def settle (disk : Disk) (here : Location) (names : List String) : Location :=
  disk.settleReversed here names.reverse

/-- The place in which a path lies. -/
def settled (disk : Disk) (cwd : Location) (path : Path) : Location :=
  disk.settle (start cwd path) path.way

section Settle

variable {disk : Disk} {here : Location}

theorem settle_concat (front : List String) (name : String) :
    disk.settle here (front ++ [name]) =
      match disk.walk true maxLinks here (front ++ [name]) with
      | .ok (.entry place _) => place
      | _ => Location.step (disk.settle here front) name := by
  unfold settle
  rw [List.reverse_append, List.reverse_singleton, List.singleton_append, settleReversed,
    List.reverse_cons, List.reverse_reverse]

theorem settle_of_walk {names : List String} {place : Location} {held : Entry}
    (h : disk.walk true maxLinks here names = .ok (.entry place held)) :
    disk.settle here names = place := by
  rcases List.eq_nil_or_concat names with rfl | ⟨front, name, rfl⟩
  · rw [walk_nil] at h
    cases h
    rfl
  · rw [List.concat_eq_append] at h ⊢
    rw [settle_concat, h]

end Settle

/-! ## Straight down -/

/-- Names that go down from a directory: none is a `.` or `..`, and on no link. -/
inductive Straight (disk : Disk) : Location → List String → Prop
  | nil {here : Location} : Straight disk here []
  | cons {here : Location} {name : String} {others : List String} : Path.IsFileName name →
    (∀ target, disk.entryAt? (here ++ [name]) ≠ some (.link target)) →
      Straight disk (here ++ [name]) others → Straight disk here (name :: others)

section Straight

variable {disk : Disk} {here : Location} {names : List String}

theorem straight_append_iff {front back : List String} :
    disk.Straight here (front ++ back) ↔
      disk.Straight here front ∧ disk.Straight (here ++ front) back := by
  induction front generalizing here with
  | nil => simp [Straight.nil]
  | cons name others ih =>
    rw [List.append_cons here]
    constructor
    · rintro (_ | ⟨hname, hlink, hothers⟩)
      obtain ⟨hfront, hback⟩ := ih.1 hothers
      exact ⟨.cons hname hlink hfront, hback⟩
    · rintro ⟨_ | ⟨hname, hlink, hothers⟩, hback⟩
      exact .cons hname hlink (ih.2 ⟨hothers, hback⟩)

theorem Straight.isFileName (h : disk.Straight here names) :
    ∀ name ∈ names, Path.IsFileName name := by
  induction h with
  | nil => simp
  | cons hname _ _ ih => exact List.forall_mem_cons.2 ⟨hname, ih⟩

theorem Follows.location_of_straight {followLast : Bool} {links : Nat} {found : Found}
    (h : disk.Follows followLast links here names found) (hstraight : disk.Straight here names) :
    found.location = here ++ names := by
  induction h with
  | stop => exact (List.append_nil _).symm
  | stay _ ih =>
    cases hstraight with
    | cons hname _ _ => exact absurd rfl hname.ne_here
  | up _ ih =>
    cases hstraight with
    | cons hname _ _ => exact absurd rfl hname.ne_up
  | into _ _ _ ih =>
    cases hstraight with
    | cons _ _ hothers => rw [ih hothers, List.append_assoc, List.singleton_append]
  | file => rfl
  | vacant => rfl
  | link _ hentry _ =>
    cases hstraight with
    | cons _ hlink _ => exact absurd hentry (hlink _)
  | through _ hentry _ _ _ _ =>
    cases hstraight with
    | cons _ hlink _ => exact absurd hentry (hlink _)

theorem settle_append {front : List String} {middle : Location}
    (hfront : disk.walk true maxLinks here front = .ok (.entry middle .directory))
    (hstraight : disk.Straight middle names) :
    disk.settle here (front ++ names) = middle ++ names := by
  induction names using List.reverseRecOn with
  | nil =>
    rw [List.append_nil, List.append_nil]
    exact settle_of_walk hfront
  | append_singleton names name ih =>
    obtain ⟨hnames, hlast⟩ := straight_append_iff.1 hstraight
    have hname : Path.IsFileName name := hlast.isFileName name (List.mem_singleton_self name)
    obtain ⟨left, hwalk⟩ := walk_append (follows_of_walk hfront) rfl
    rw [← List.append_assoc front, settle_concat, ih hnames,
      Location.step_name _ hname.ne_here hname.ne_up, List.append_assoc front,
      hwalk true _ (by simp), List.append_assoc middle]
    split
    · rename_i place held hfound
      exact (follows_of_walk hfound).location_of_straight hstraight
    · rfl

/-- What stands somewhere, links apart, stands straight below the root. -/
theorem Closed.straight (hclosed : disk.Closed) (hnames : ∀ name ∈ names, Path.IsFileName name)
    {held : Entry} (hentry : disk.entryAt? (here ++ names) = some held)
    (hheld : ∀ target, held ≠ .link target) : disk.Straight here names := by
  induction names generalizing here with
  | nil => exact .nil
  | cons name others ih =>
    obtain ⟨hname, hothers⟩ := List.forall_mem_cons.1 hnames
    rw [List.append_cons] at hentry
    refine .cons hname (fun target hlink => ?_) (ih hothers hentry)
    by_cases hnil : others = []
    · subst hnil
      rw [List.append_nil, hlink] at hentry
      exact hheld target (Option.some.inj hentry).symm
    · have hdirectory := hclosed.above hnil (by rw [hentry]; simp)
      rw [hlink] at hdirectory
      cases hdirectory

end Straight

/-! ## What is found -/

section Found

variable {disk : Disk} {cwd l : Location} {path : Path} {held : Entry}

/-- A `.` behind some names makes no difference to what is found. -/
theorem Follows.drop_here {links : Nat} {here : Location} {front back whole : List String}
    {found : Found} (h : disk.Follows true links here whole found) (hwhole : whole = front ++ back) :
    disk.Follows true links here (front ++ back.filter (· ≠ ".")) found := by
  -- a step that stays is the first one, before or behind the parting
  have hsplit {step : String} {rest front back : List String} (hstep : step ≠ ".")
      (hwhole : step :: rest = front ++ back) : ∃ front' back', rest = front' ++ back' ∧
        front ++ back.filter (· ≠ ".") = step :: (front' ++ back'.filter (· ≠ ".")) := by
    rcases List.cons_eq_append_iff.1 hwhole with ⟨rfl, rfl⟩ | ⟨front', rfl, hrest⟩
    · refine ⟨[], rest, rfl, ?_⟩
      rw [List.filter_cons_of_pos (by simpa using hstep)]
      rfl
    · exact ⟨front', back, hrest, rfl⟩
  have hsingle {step : String} {front back : List String} (hstep : step ≠ ".")
      (hwhole : [step] = front ++ back) : front ++ back.filter (· ≠ ".") = [step] := by
    obtain ⟨front', back', hrest, heq⟩ := hsplit hstep hwhole
    obtain ⟨rfl, rfl⟩ := List.append_eq_nil_iff.1 hrest.symm
    exact heq
  induction h generalizing front back with
  | stop =>
    obtain ⟨rfl, rfl⟩ := List.append_eq_nil_iff.1 hwhole.symm
    exact .stop
  | stay _ ih =>
    rcases List.cons_eq_append_iff.1 hwhole with ⟨rfl, rfl⟩ | ⟨front', rfl, hrest⟩
    · rw [List.filter_cons_of_neg (by simp)]
      exact @ih [] _ rfl
    · exact .stay (ih hrest)
  | up _ ih =>
    obtain ⟨front', back', hrest, heq⟩ := hsplit (by decide) hwhole
    rw [heq]
    exact .up (ih hrest)
  | into hname hentry _ ih =>
    obtain ⟨front', back', hrest, heq⟩ := hsplit hname.ne_here hwhole
    rw [heq]
    exact .into hname hentry (ih hrest)
  | file hname hentry =>
    rw [hsingle hname.ne_here hwhole]
    exact .file hname hentry
  | vacant hname hentry =>
    rw [hsingle hname.ne_here hwhole]
    exact .vacant hname hentry
  | link _ _ hlast => cases hlast
  | through hname hentry _ hempty _ ih =>
    obtain ⟨front', back', rfl, heq⟩ := hsplit hname.ne_here hwhole
    rw [heq]
    refine .through hname hentry (.inr rfl) hempty ?_
    rw [← List.append_assoc]
    exact ih (List.append_assoc ..).symm

theorem Follows.ne_link {links : Nat} {here : Location} {steps : List String} {found : Found}
    (h : disk.Follows true links here steps found) (hfound : found = .entry l held) :
    ∀ target, held ≠ .link target := by
  induction h with
  | stop => cases hfound; simp
  | stay _ ih => exact ih hfound
  | up _ ih => exact ih hfound
  | into _ _ _ ih => exact ih hfound
  | file => cases hfound; simp
  | vacant => cases hfound
  | link _ _ hlast => cases hlast
  | through _ _ _ _ _ ih => exact ih hfound

/-- A path lies where following it leads. -/
theorem settled_of_follows
    (h : disk.Follows true maxLinks (start cwd path) path.steps (.entry l held)) :
    disk.settled cwd path = l := by
  obtain ⟨tail, htail, hsteps⟩ := steps_eq_names_append path
  have hway : path.steps.filter (· ≠ ".") = path.way := by
    rw [hsteps, List.filter_append]
    rcases htail with rfl | rfl
    · exact List.append_nil _
    · exact List.append_nil _
  have hfound := h.drop_here (List.nil_append _).symm
  rw [List.nil_append, hway] at hfound
  exact settle_of_walk (walk_of_follows hfound)

theorem settled_of_lookup (h : disk.lookup cwd path = .ok (l, held)) :
    disk.settled cwd path = l :=
  settled_of_follows (find_eq_ok_iff.1 (locate_of_lookup h)).2

/-- What steps from a directory lead to lies straight below the root. -/
theorem Follows.straight (hclosed : disk.Closed) (hnamed : disk.WellNamed) {links : Nat}
    {here : Location} {steps : List String}
    (h : disk.Follows true links here steps (.entry l held))
    (hhere : disk.entryAt? here = some .directory) : disk.Straight [] l := by
  have hentry : disk.entryAt? l = some held := by
    by_cases hheld : held = .directory
    · rw [hheld] at h ⊢
      exact h.entryAt?_eq_directory hclosed hhere rfl
    · exact h.entryAt?_eq_some rfl hheld
  exact hclosed.straight (hnamed.location hentry) hentry (h.ne_link rfl)

theorem straight_of_lookup (hclosed : disk.Closed) (hnamed : disk.WellNamed)
    (h : disk.lookup cwd path = .ok (l, held)) : disk.Straight [] l := by
  obtain ⟨hadmits, hfollows⟩ := find_eq_ok_iff.1 (locate_of_lookup h)
  exact hfollows.straight hclosed hnamed hadmits.entryAt?_start

end Found

end LiterateCheck.Disk
