import LiterateCheck.Proofs.Discovery.Documents
import LiterateCheck.Proofs.Discovery.Routes
import LiterateCheck.Proofs.Disk.Agreement

/-!
# Discovery and the order of directories

Two disks with the same entries, listed in different orders, have the same routes and the same
documents. So discovery succeeds on both or on neither, and when it succeeds it gives one list
(`discover_order_independent`). Of the errors only the path at which a cycle is noticed may differ.
-/

namespace LiterateCheck

/-! ## What disks that agree have in common -/

section Agreement

variable {disk disk' : Disk} (h : disk.Agrees disk')

include h

theorem hasConfig_eq_of_agrees (cwd : Location) (directory : Path) :
    hasConfig disk cwd directory = hasConfig disk' cwd directory := by
  unfold hasConfig Config.path?
  rw [funext (h.isFile_eq cwd)]

theorem Selection.Passes.of_agrees {selection : Selection} {cwd : Location} {path : Path}
    (hpasses : selection.Passes disk cwd path) : selection.Passes disk' cwd path :=
  hpasses.congr (h.isDirectory_eq cwd path)

theorem Selection.ofConfig_eq_of_agrees (cwd : Location) (root : Path) (config : Config) :
    Selection.ofConfig disk cwd root config = Selection.ofConfig disk' cwd root config := by
  unfold Selection.ofConfig ignoreRules
  rw [h.bytesAt_eq]

namespace Walk

variable {cwd : Location} {selection : Selection} {isRoot : Bool} {directory path : Path}
  {name : String}

theorem Enters.of_agrees (henters : Enters disk cwd selection isRoot path name) :
    Enters disk' cwd selection isRoot path name where
  looked := henters.looked
  passes := henters.passes.of_agrees h
  isDirectory := (h.isDirectory_eq cwd path).symm.trans henters.isDirectory
  notOutput := henters.notOutput
  isRoot_of_hasConfig hconfig :=
    henters.isRoot_of_hasConfig ((hasConfig_eq_of_agrees h cwd path).trans hconfig)

theorem Takes.of_agrees (htakes : Takes disk cwd selection path name) :
    Takes disk' cwd selection path name where
  looked := htakes.looked
  passes := htakes.passes.of_agrees h
  notDirectory := (h.isDirectory_eq cwd path).symm.trans htakes.notDirectory
  literate := htakes.literate

theorem Finds.of_agrees {names : List String}
    (hfinds : Finds disk cwd selection isRoot directory names) :
    Finds disk' cwd selection isRoot directory names := by
  induction hfinds with
  | document hlists htakes => exact .document (h.lists_iff.1 hlists) (htakes.of_agrees h)
  | inside hlists henters _ ih => exact .inside (h.lists_iff.1 hlists) (henters.of_agrees h) ih

theorem Reaches.of_agrees {names : List String} {l : Location}
    (hreaches : Reaches disk cwd selection isRoot directory names l) :
    Reaches disk' cwd selection isRoot directory names l := by
  induction hreaches with
  | here hlookup => exact .here ((h.lookup_eq cwd _).symm.trans hlookup)
  | inside hlists henters _ ih => exact .inside (h.lists_iff.1 hlists) (henters.of_agrees h) ih

theorem Notes.of_agrees {names : List String} {noted : List Component}
    (hnotes : Notes disk cwd selection isRoot directory names noted) :
    Notes disk' cwd selection isRoot directory names noted := by
  obtain ⟨⟨l, hreaches⟩, rfl⟩ := hnotes
  refine ⟨⟨l, hreaches.of_agrees h⟩, ?_⟩
  unfold mark
  rw [h.canonical?_eq]

end Walk

end Agreement

/-! ## Ways to fail -/

theorem exists_of_foldlM_eq_error {α β ε : Type} {step : β → α → Except ε β} {items : List α}
    {b : β} {error : ε} (h : items.foldlM step b = .error error) :
    ∃ item b', step b' item = .error error := by
  induction items generalizing b with
  | nil => cases h
  | cons item others ih =>
    rw [List.foldlM_cons, bind_eq_error_iff] at h
    rcases h with hitem | ⟨b', -, hothers⟩
    · exact ⟨item, b, hitem⟩
    · exact ih hothers

/-- A walk fails at a cycle only. -/
theorem Walk.symlinkCycle_of_run {disk : Disk} {cwd : Location} {selection : Selection}
    {fuel : Nat} {isRoot : Bool} {directory : Path} {walk : Walk} {error : CheckError}
    (h : Walk.run disk cwd selection fuel isRoot directory walk = .error error) :
    ∃ path, error = .symlinkCycle path := by
  induction fuel generalizing isRoot directory walk with
  | zero => cases h
  | succ fuel ih =>
    rw [run] at h
    split at h
    · split at h
      · exact ⟨directory, (Except.error.inj h).symm⟩
      · obtain ⟨⟨name, entry⟩, walk', hturn⟩ := exists_of_foldlM_eq_error h
        dsimp only at hturn
        by_cases henters : Enters disk cwd selection isRoot (directory.join ⟨name⟩) name
        · rw [takeEntry_of_enters henters] at hturn
          exact ih hturn
        · obtain ⟨files, htake⟩ := takeEntry_of_not_enters henters
          cases htake.symm.trans hturn
    · cases h

theorem invalidPattern_of_includeGlobs {patterns : List String} {error : CheckError}
    (h : includeGlobs patterns = .error error) :
    ∃ pattern quoted fault, error = .invalidPattern pattern quoted fault := by
  unfold includeGlobs at h
  induction patterns with
  | nil => cases h
  | cons pattern others ih =>
    rw [List.mapM_cons, bind_eq_error_iff] at h
    rcases h with hpattern | ⟨glob, -, hothers⟩
    · split at hpattern
      · cases hpattern
      · exact ⟨_, _, _, (Except.error.inj hpattern).symm⟩
    · rcases bind_eq_error_iff.1 hothers with hothers | ⟨globs, -, hpure⟩
      · exact ih hothers
      · cases hpure

theorem invalidPattern_of_ofConfig {disk : Disk} {cwd : Location} {root : Path} {config : Config}
    {error : CheckError} (h : Selection.ofConfig disk cwd root config = .error error) :
    ∃ pattern quoted fault, error = .invalidPattern pattern quoted fault := by
  unfold Selection.ofConfig at h
  dsimp only at h
  split at h
  · change (includeGlobs config.includePatterns >>= _) = _ at h
    rcases bind_eq_error_iff.1 h with hglobs | ⟨globs, -, hselection⟩
    · exact invalidPattern_of_includeGlobs hglobs
    · cases hselection
  · exact ⟨_, _, _, (Except.error.inj h).symm⟩

/-! ## One list, or a failure -/

/-- Discovery succeeds exactly when the routes from the root can all be taken. -/
theorem exists_discoverWith_iff {disk : Disk} (hnames : disk.WellNamed) {cwd : Location}
    {root : Path} {selection : Selection} :
    (∃ files, discoverWith disk cwd root selection = .ok files) ↔
      Walk.Free (Walk.Notes disk cwd selection true root) [] := by
  have hvisits : Walk.Visits (Walk.Notes disk cwd selection true root) ⟨[], []⟩
      (Walk.run disk cwd selection maxPathSize true root ⟨[], []⟩) :=
    Walk.visits_run hnames (Nat.le_add_right ..) _
  rw [← hvisits.exists_iff]
  unfold discoverWith
  constructor
  · rintro ⟨files, h⟩
    obtain ⟨walk, hrun, -⟩ := bind_eq_ok_iff.1 h
    exact ⟨walk, hrun⟩
  · rintro ⟨walk, hrun⟩
    exact ⟨_, bind_eq_ok_iff.2 ⟨walk, hrun, rfl⟩⟩

/-- Where the same documents are found, in the order of their paths they make one list. -/
theorem discoverWith_eq_of_finds {disk disk' : Disk} (hnames : disk.WellNamed)
    (hnames' : disk'.WellNamed) {cwd : Location} {root : Path} {selection : Selection}
    {files files' : List Path} (h : discoverWith disk cwd root selection = .ok files)
    (h' : discoverWith disk' cwd root selection = .ok files')
    (hfinds : ∀ names, Walk.Finds disk cwd selection true root names ↔
      Walk.Finds disk' cwd selection true root names) : files = files' := by
  have hsorted := (nodup_discoverWith hnames h).2
  have hsorted' := (nodup_discoverWith hnames' h').2
  obtain ⟨found, hnodup, hmem, rfl⟩ := discoverWith_eq_ok hnames h
  obtain ⟨found', hnodup', hmem', rfl⟩ := discoverWith_eq_ok hnames' h'
  have hfound : found.Perm found' := by
    rw [List.perm_ext_iff_of_nodup hnodup hnodup']
    intro names
    rw [hmem, hmem', hfinds]
  refine Path.eq_of_perm_of_increasing ?_ hsorted hsorted'
  have hfiles := (hfound.map root.under).filter fun path =>
    selection.included (relativePath root path)
  exact ((Path.sort_perm _).trans hfiles).trans (Path.sort_perm _).symm

section Order

variable {disk disk' : Disk} (hperm : disk.entries.Perm disk'.entries)

include hperm

theorem wellNamed_of_perm (hnames : disk.WellNamed) : disk'.WellNamed :=
  fun item hitem => hnames item (hperm.mem_iff.2 hitem)

theorem exists_discoverWith_of_perm (hnames : disk.WellNamed) {cwd : Location} {root : Path}
    {selection : Selection} (h : ∃ files, discoverWith disk cwd root selection = .ok files) :
    ∃ files, discoverWith disk' cwd root selection = .ok files := by
  have hagrees := Disk.Agrees.of_perm hperm
  rw [exists_discoverWith_iff hnames] at h
  rw [exists_discoverWith_iff (wellNamed_of_perm hperm hnames)]
  have hback {names : List String} {noted : List Component}
      (hnotes : Walk.Notes disk' cwd selection true root names noted) :
      Walk.Notes disk cwd selection true root names noted := hnotes.of_agrees hagrees.symm
  exact ⟨fun names noted hnotes => h.fresh names noted (hback hnotes),
    fun names names' noted hnotes hnotes' =>
      h.apart names names' noted (hback hnotes) (hback hnotes')⟩

theorem discoverWith_eq_of_perm (hnames : disk.WellNamed) {cwd : Location} {root : Path}
    {selection : Selection} {files files' : List Path}
    (h : discoverWith disk cwd root selection = .ok files)
    (h' : discoverWith disk' cwd root selection = .ok files') : files = files' := by
  have hagrees := Disk.Agrees.of_perm hperm
  exact discoverWith_eq_of_finds hnames (wellNamed_of_perm hperm hnames) h h' fun names =>
    ⟨fun hfinds => hfinds.of_agrees hagrees, fun hfinds => hfinds.of_agrees hagrees.symm⟩

theorem discoverWith_of_perm (hnames : disk.WellNamed) (cwd : Location) (root : Path)
    (selection : Selection) :
    (∃ files, discoverWith disk cwd root selection = .ok files ∧
      discoverWith disk' cwd root selection = .ok files) ∨
    ∃ path path', discoverWith disk cwd root selection = .error (.symlinkCycle path) ∧
      discoverWith disk' cwd root selection = .error (.symlinkCycle path') := by
  have hcycle {disk : Disk} {error : CheckError}
      (h : discoverWith disk cwd root selection = .error error) :
      ∃ path, error = .symlinkCycle path := by
    unfold discoverWith at h
    rcases bind_eq_error_iff.1 h with hrun | ⟨walk, -, hsort⟩
    · exact Walk.symlinkCycle_of_run hrun
    · cases hsort
  cases h : discoverWith disk cwd root selection with
  | ok files =>
    obtain ⟨files', h'⟩ := exists_discoverWith_of_perm hperm hnames ⟨files, h⟩
    obtain rfl := discoverWith_eq_of_perm hperm hnames h h'
    exact .inl ⟨files, rfl, h'⟩
  | error error =>
    obtain ⟨path, rfl⟩ := hcycle h
    cases h' : discoverWith disk' cwd root selection with
    | ok files =>
      obtain ⟨files', hfiles⟩ :=
        exists_discoverWith_of_perm hperm.symm (wellNamed_of_perm hperm hnames) ⟨files, h'⟩
      cases h.symm.trans hfiles
    | error error' =>
      obtain ⟨path', rfl⟩ := hcycle h'
      exact .inr ⟨path, path', rfl, rfl⟩

end Order

/-- **Discovery does not depend on the order of directories.** On two disks with the same entries,
however they list them, discovery gives the same list, or it fails with a cycle on both, not always
at the same path, or it refuses the same invalid pattern on both. -/
theorem discover_order_independent {disk disk' : Disk} (hnames : disk.WellNamed)
    (hperm : disk.entries.Perm disk'.entries) (cwd : Location) (root : Path) (config : Config) :
    (∃ files, discover disk cwd root config = .ok files ∧
      discover disk' cwd root config = .ok files) ∨
    (∃ path path', discover disk cwd root config = .error (.symlinkCycle path) ∧
      discover disk' cwd root config = .error (.symlinkCycle path')) ∨
    ∃ pattern quoted fault,
      discover disk cwd root config = .error (.invalidPattern pattern quoted fault) ∧
        discover disk' cwd root config = .error (.invalidPattern pattern quoted fault) := by
  unfold discover
  rw [← Selection.ofConfig_eq_of_agrees (Disk.Agrees.of_perm hperm)]
  cases hselection : Selection.ofConfig disk cwd root config with
  | ok selection =>
    rcases discoverWith_of_perm hperm hnames cwd root selection with hlist | hcycle
    · exact .inl hlist
    · exact .inr (.inl hcycle)
  | error error =>
    obtain ⟨pattern, quoted, fault, rfl⟩ := invalidPattern_of_ofConfig hselection
    exact .inr (.inr ⟨pattern, quoted, fault, rfl, rfl⟩)

/-- The disk of one document, listed in the opposite order. -/
def reversedDisk : Disk where
  entries := (documentDisk true).entries.reverse
  distinct := by decide

/-- The document is given there, too. -/
theorem discover_order_independent_reversed :
    discover reversedDisk [] ⟨"/"⟩ .default = .ok [⟨"/a/x.mbt.md"⟩] := by
  have hdiscover := discover_documentDisk true
  have hperm : (documentDisk true).entries.Perm reversedDisk.entries :=
    (List.reverse_perm (documentDisk true).entries).symm
  rcases discover_order_independent (wellNamed_documentDisk true) hperm [] ⟨"/"⟩ .default with
    ⟨files, h, h'⟩ | ⟨path, path', h, -⟩ | ⟨pattern, quoted, fault, h, -⟩
  · rw [hdiscover] at h
    cases h
    exact h'
  · cases hdiscover.symm.trans h
  · cases hdiscover.symm.trans h

/-- A configuration whose only include pattern is a class that is not closed. -/
def openClassConfig : Config := { Config.default with includePatterns := ["["] }

/-- Neither a list is given nor a cycle found where a pattern is invalid. -/
theorem discover_openClass :
    ¬ ((∃ files, discover .empty [] ⟨"/"⟩ openClassConfig = .ok files ∧
        discover .empty [] ⟨"/"⟩ openClassConfig = .ok files) ∨
      ∃ path path', discover .empty [] ⟨"/"⟩ openClassConfig = .error (.symlinkCycle path) ∧
        discover .empty [] ⟨"/"⟩ openClassConfig = .error (.symlinkCycle path')) := by
  have h : discover .empty [] ⟨"/"⟩ openClassConfig =
      .error (.invalidPattern "[" "[" .unclosedClass) := rfl
  rw [h]
  simp

end LiterateCheck
