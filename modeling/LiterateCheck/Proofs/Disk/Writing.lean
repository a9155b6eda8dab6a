import LiterateCheck.Disk.Change
import LiterateCheck.Proofs.Disk.Hosting
import LiterateCheck.Proofs.Run.Success

/-!
# What writing does to a disk

Each operation that writes puts one entry at the location its path leads to, and the disk grows by
it. What the files of a disk hold (`holds`) changes there only.
-/

namespace LiterateCheck

namespace Disk

/-- The bytes of the file at a location; none where no file stands. -/
def holds (disk : Disk) (l : Location) : ByteArray :=
  match disk.entryAt? l with
  | some (.file content _) => content
  | _ => ByteArray.empty

theorem holds_of_entryAt?_eq_file {disk : Disk} {l : Location} {content : ByteArray}
    {executable : Bool} (h : disk.entryAt? l = some (.file content executable)) :
    disk.holds l = content := by
  unfold holds
  rw [h]

theorem holds_of_entryAt?_eq_none {disk : Disk} {l : Location} (h : disk.entryAt? l = none) :
    disk.holds l = ByteArray.empty := by
  unfold holds
  rw [h]

theorem holds_put_directory {disk : Disk} {place : Location} (h : disk.entryAt? place = none)
    (l : Location) : (disk.put place .directory).holds l = disk.holds l := by
  by_cases hl : l = place
  · subst hl
    rw [holds_of_entryAt?_eq_none h]
    unfold holds
    rw [entryAt?_put_self disk _ (ne_nil_of_entryAt?_eq_none h)]
  · unfold holds
    rw [entryAt?_put_of_ne disk _ hl]

/-! ## Directories -/

theorem makeDirectory_eq_ok_iff {cwd : Location} {path : Path} {before after : Disk} :
    makeDirectory cwd path before = .ok after ↔
      ∃ directory name, before.find cwd false path path.names = .ok (.vacant directory name) ∧
        after = before.put (directory ++ [name]) .directory := by
  unfold makeDirectory
  constructor
  · intro h
    split at h
    · rename_i directory name hfind
      exact ⟨directory, name, hfind, (Except.ok.inj h).symm⟩
    · cases h
    · cases h
  · rintro ⟨directory, name, hfind, rfl⟩
    rw [hfind]

theorem makeDirectory_eq_ok {cwd : Location} {path : Path} {before after : Disk}
    (h : makeDirectory cwd path before = .ok after) :
    ∃ place, before.entryAt? place = none ∧ after = before.put place .directory := by
  obtain ⟨directory, name, hfind, rfl⟩ := makeDirectory_eq_ok_iff.1 h
  exact ⟨directory ++ [name], (find_eq_ok_iff.1 hfind).2.entryAt?_eq_none rfl, rfl⟩

theorem makeDirectory_of_vacant {cwd directory : Location} {path : Path} {disk : Disk}
    {name : String} (h : disk.find cwd false path path.names = .ok (.vacant directory name)) :
    makeDirectory cwd path disk = .ok (disk.put (directory ++ [name]) .directory) :=
  makeDirectory_eq_ok_iff.2 ⟨directory, name, h, rfl⟩

theorem run_makeDirectories (cwd : Location) (fuel : Nat) (path : Path) (disk : Disk) :
    (makeDirectories cwd (fuel + 1) path).run.run disk =
      if path.isEmpty then (.ok (), disk)
      else
        match makeDirectory cwd path disk with
        | .ok made => (.ok (), made)
        | .error reason =>
          if reason = .notFound then
            match path.parent? with
            | none => (.error reason, disk)
            | some parent =>
              match (makeDirectories cwd fuel parent).run.run disk with
              | (.error reason, middle) => (.error reason, middle)
              | (.ok (), middle) =>
                match makeDirectory cwd path middle with
                | .ok made => (.ok (), made)
                | .error reason =>
                  if middle.isDirectory cwd path then (.ok (), middle)
                  else (.error reason, middle)
          else if disk.isDirectory cwd path then (.ok (), disk)
          else (.error reason, disk) := by
  rw [makeDirectories]
  by_cases hempty : path.isEmpty = true
  · rw [if_pos hempty, if_pos hempty]
    rfl
  rw [if_neg hempty, if_neg hempty, run_bind]
  show (ExceptT.run (match makeDirectory cwd path disk with
    | .ok made => set made
    | .error reason => _ : OnDisk Unit)).run disk = _
  cases makeDirectory cwd path disk with
  | ok made => rfl
  | error reason =>
    by_cases hreason : reason = .notFound
    · subst hreason
      cases path.parent? with
      | none => rfl
      | some parent =>
        simp only [if_true, run_bind]
        rcases (makeDirectories cwd fuel parent).run.run disk with ⟨reason | ⟨⟩, middle⟩
        · rfl
        show (ExceptT.run (match makeDirectory cwd path middle with
          | .ok made => set made
          | .error reason => _ : OnDisk Unit)).run middle =
          match makeDirectory cwd path middle with
          | .ok made => _
          | .error reason => _
        cases makeDirectory cwd path middle with
        | ok made => rfl
        | error reason =>
          show (ExceptT.run (if middle.isDirectory cwd path then pure () else throw reason :
            OnDisk Unit)).run middle = if middle.isDirectory cwd path then _ else _
          split <;> rfl
    · simp only [if_neg hreason]
      show (ExceptT.run (if disk.isDirectory cwd path then pure () else throw reason :
        OnDisk Unit)).run disk = _
      split <;> rfl

/-- Where removing a directory ends, in each of the places that a path can lead to. -/
theorem run_removeAll (cwd : Location) (path : Path) (disk : Disk) :
    (removeAll cwd path).run.run disk =
      match disk.find cwd false path path.steps with
      | .error reason => (.error reason, disk)
      | .ok (.vacant ..) => (.error .notFound, disk)
      | .ok (.entry l (.link _)) => (.ok (), disk.remove l)
      | .ok (.entry _ (.file ..)) => (.error .notDirectory, disk)
      | .ok (.entry l .directory) =>
        match (disk.removeBelow l).walk false maxLinks (start cwd path) path.names with
        | .error reason => (.error reason, disk.removeBelow l)
        | .ok (.vacant ..) => (.error .notFound, disk.removeBelow l)
        | .ok (.entry _ (.link _)) => (.error .notDirectory, disk.removeBelow l)
        | .ok (.entry ..) =>
          match path.names.getLast? with
          | some "." => (.error .invalidArgument, disk.removeBelow l)
          | some ".." => (.error .directoryNotEmpty, disk.removeBelow l)
          | _ => (.ok (), (disk.removeBelow l).remove l) := by
  have hget (disk : Disk) : (get : OnDisk Disk).run.run disk = (.ok disk, disk) := rfl
  have hend (l : Location) (last : Option String) (disk : Disk) :
      (match last with
        | some "." => throw .invalidArgument
        | some ".." => throw .directoryNotEmpty
        | _ => modify fun disk => disk.remove l : OnDisk Unit).run.run disk =
        match last with
        | some "." => (.error .invalidArgument, disk)
        | some ".." => (.error .directoryNotEmpty, disk)
        | _ => (.ok (), disk.remove l) := by
    split <;> rfl
  unfold removeAll
  rw [run_bind, hget]
  dsimp only
  rcases disk.find cwd false path path.steps with
    reason | ⟨l, ⟨content, executable⟩ | _ | target⟩ | ⟨directory, name⟩
  · rfl
  · rfl
  · dsimp only
    rw [run_bind, show (modify fun disk => disk.removeBelow l : OnDisk Unit).run.run disk =
      (.ok (), disk.removeBelow l) from rfl]
    dsimp only
    rw [run_bind, hget]
    dsimp only
    rcases (disk.removeBelow l).walk false maxLinks (start cwd path) path.names with
      reason | ⟨l', ⟨content, executable⟩ | _ | target⟩ | ⟨directory, name⟩
    · rfl
    · exact hend l _ _
    · exact hend l _ _
    · rfl
    · rfl
  · rfl
  · rfl

/-- From one disk to the other only directories are added. -/
structure AddsDirectories (before after : Disk) : Prop where
  grows : Grows before after
  holds (l : Location) : after.holds l = before.holds l

theorem AddsDirectories.refl (disk : Disk) : AddsDirectories disk disk :=
  ⟨.refl disk, fun _ => rfl⟩

theorem AddsDirectories.trans {a b c : Disk} (hab : AddsDirectories a b)
    (hbc : AddsDirectories b c) : AddsDirectories a c :=
  ⟨hab.grows.trans hbc.grows, fun l => (hbc.holds l).trans (hab.holds l)⟩

theorem addsDirectories_of_makeDirectory {cwd : Location} {path : Path} {before after : Disk}
    (h : makeDirectory cwd path before = .ok after) : AddsDirectories before after := by
  obtain ⟨place, hplace, rfl⟩ := makeDirectory_eq_ok h
  exact ⟨grows_put_directory hplace, holds_put_directory hplace⟩

/-- What holds from a disk to itself and from each directory to the next holds from before to after
the making of directories, whether all of them can be made or not. The paths of these directories
are safe ones when the first is. -/
theorem makeDirectories_rel (R : Disk → Disk → Prop) (Safe : Disk → Path → Prop) {cwd : Location}
    (refl : ∀ disk, R disk disk) (trans : ∀ {a b c}, R a b → R b c → R a c)
    (step : ∀ {path before after}, Safe before path →
      makeDirectory cwd path before = .ok after → R before after)
    (up : ∀ {path parent disk}, Safe disk path → makeDirectory cwd path disk = .error .notFound →
      path.parent? = some parent → Safe disk parent)
    (keep : ∀ {path before after}, R before after → Safe before path → Safe after path)
    (fuel : Nat) {path : Path} {disk : Disk} (h : Safe disk path) :
    R disk ((makeDirectories cwd fuel path).run.run disk).2 := by
  induction fuel generalizing path disk with
  | zero => exact refl disk
  | succ fuel ih =>
    rw [run_makeDirectories]
    split
    · exact refl disk
    split
    · rename_i made hmade
      exact step h hmade
    rename_i reason hfail
    split
    · rename_i hreason
      split
      · exact refl disk
      · rename_i parent hparent
        have hrel := ih (up h (hreason ▸ hfail) hparent)
        split
        · rename_i reason middle hrun
          rwa [hrun] at hrel
        · rename_i middle hrun
          rw [hrun] at hrel
          split
          · rename_i made hmade
            exact trans hrel (step (keep hrel h) hmade)
          · split <;> exact hrel
    · split <;> exact refl disk

theorem grows_makeDirectories (cwd : Location) (fuel : Nat) (path : Path) (disk : Disk) :
    Grows disk ((makeDirectories cwd fuel path).run.run disk).2 :=
  makeDirectories_rel Grows (fun _ _ => True) .refl .trans
    (fun _ hmake => (addsDirectories_of_makeDirectory hmake).grows)
    (fun _ _ _ => trivial) (fun _ _ => trivial) fuel trivial

theorem makeAll_rel {R : Disk → Disk → Prop} {cwd : Location}
    (refl : ∀ disk, R disk disk) (trans : ∀ {a b c}, R a b → R b c → R a c)
    (step : ∀ {path before after}, makeDirectory cwd path before = .ok after → R before after)
    {path : Path} {before after : Disk} (h : (makeAll cwd path).Gives before () after) :
    R before after := by
  have hrel : R before ((makeDirectories cwd (path.parts.length + 1) path).run.run before).2 :=
    makeDirectories_rel R (fun _ _ => True) refl trans (fun _ => step)
      (fun _ _ _ => trivial) (fun _ _ => trivial) (path.parts.length + 1) trivial
  rwa [show (makeDirectories cwd (path.parts.length + 1) path).run.run before = _ from h] at hrel

theorem addsDirectories_of_makeAll {cwd : Location} {path : Path} {before after : Disk}
    (h : (makeAll cwd path).Gives before () after) : AddsDirectories before after :=
  makeAll_rel .refl .trans addsDirectories_of_makeDirectory h

theorem gives_makeAll {cwd : Location} {path : Path} {before after : Disk}
    (hpath : path.isEmpty = false) (h : makeDirectory cwd path before = .ok after) :
    (makeAll cwd path).Gives before () after := by
  unfold OnDisk.Gives makeAll
  rw [run_makeDirectories, hpath, if_neg Bool.false_ne_true, h]

theorem gives_makeAll_of_exists {cwd l : Location} {path : Path} {disk : Disk}
    (hfind : disk.find cwd false path path.names = .ok (.entry l .directory))
    (hlookup : disk.lookup cwd path = .ok (l, .directory)) :
    (makeAll cwd path).Gives disk () disk := by
  have hmake : makeDirectory cwd path disk = .error .alreadyExists := by
    unfold makeDirectory
    rw [hfind]
  have hdirectory : disk.isDirectory cwd path = true := by
    unfold isDirectory
    rw [hlookup]
    rfl
  have hpath : path.isEmpty = false := (find_eq_ok_iff.1 hfind).1.nonempty
  unfold OnDisk.Gives makeAll
  rw [run_makeDirectories, hpath, if_neg Bool.false_ne_true, hmake]
  dsimp only
  rw [if_neg (by decide), hdirectory, if_pos rfl]

/-! ## Files -/

/-- From one disk to the other a single file is written. -/
structure WritesFile (before after : Disk) (place : Location) (content : ByteArray) : Prop where
  grows : Grows before after
  written : ∃ executable, after.entryAt? place = some (.file content executable)
  elsewhere {l : Location} : l ≠ place → after.entryAt? l = before.entryAt? l

theorem WritesFile.holds_self {before after : Disk} {place : Location} {content : ByteArray}
    (h : WritesFile before after place content) : after.holds place = content := by
  obtain ⟨executable, hentry⟩ := h.written
  exact holds_of_entryAt?_eq_file hentry

theorem WritesFile.holds_of_ne {before after : Disk} {place l : Location} {content : ByteArray}
    (h : WritesFile before after place content) (hl : l ≠ place) :
    after.holds l = before.holds l := by
  unfold holds
  rw [h.elsewhere hl]

theorem writesFile_put {disk : Disk} {place : Location} (hplace : disk.TakesFile place)
    (content : ByteArray) (executable : Bool) :
    WritesFile disk (disk.put place (.file content executable)) place content where
  grows := grows_put_file hplace content executable
  written := ⟨executable, entryAt?_put_self disk _ (ne_nil_of_takesFile hplace)⟩
  elsewhere h := entryAt?_put_of_ne disk _ h

theorem writesFile_of_writeBytes {cwd : Location} {path : Path} {keep : Bool}
    {bytes : ByteArray} {before after : Disk}
    (h : writeBytes cwd path keep bytes before = .ok after) :
    ∃ found, before.locate cwd path = .ok found ∧ found.takesFile = true ∧
      WritesFile before after found.location
        (if keep then before.holds found.location ++ bytes else bytes) := by
  unfold writeBytes at h
  split at h
  · rename_i location content executable hfind
    cases h
    have hfollows := (find_eq_ok_iff.1 hfind).2
    have hentry := hfollows.entryAt?_eq_some rfl (by simp)
    refine ⟨_, hfind, rfl, ?_⟩
    rw [Found.location, holds_of_entryAt?_eq_file hentry]
    exact writesFile_put (hfollows.takesFile rfl) _ executable
  · cases h
  · rename_i directory name hfind
    cases h
    have hfollows := (find_eq_ok_iff.1 hfind).2
    have hnone := hfollows.entryAt?_eq_none rfl
    refine ⟨_, hfind, rfl, ?_⟩
    rw [Found.location, holds_of_entryAt?_eq_none hnone, ByteArray.empty_append, ite_self]
    exact writesFile_put (hfollows.takesFile rfl) bytes false
  · cases h

theorem writeBytes_of_vacant {cwd directory : Location} {path : Path} {keep : Bool}
    {bytes : ByteArray} {disk : Disk} {name : String}
    (h : disk.locate cwd path = .ok (.vacant directory name)) :
    writeBytes cwd path keep bytes disk =
      .ok (disk.put (directory ++ [name]) (.file bytes false)) := by
  unfold writeBytes
  rw [h]

theorem writeBytes_of_file {cwd l : Location} {path : Path} {keep : Bool}
    {bytes content : ByteArray} {executable : Bool} {disk : Disk}
    (h : disk.locate cwd path = .ok (.entry l (.file content executable))) :
    writeBytes cwd path keep bytes disk =
      .ok (disk.put l (.file (if keep then content ++ bytes else bytes) executable)) := by
  unfold writeBytes
  rw [h]

theorem copyFile_of_file {cwd origin l : Location} {source target : Path}
    {content held : ByteArray} {executable executable' : Bool} {disk : Disk}
    (hsource : disk.lookup cwd source = .ok (origin, .file content executable))
    (htarget : disk.locate cwd target = .ok (.entry l (.file held executable')))
    (hne : l ≠ origin) :
    copyFile cwd source target disk = .ok (disk.put l (.file content executable)) := by
  unfold copyFile
  rw [hsource]
  dsimp only
  rw [htarget]
  dsimp only
  rw [if_neg hne]

theorem copyFile_of_vacant {cwd origin directory : Location} {source target : Path} {name : String}
    {content : ByteArray} {executable : Bool} {disk : Disk}
    (hsource : disk.lookup cwd source = .ok (origin, .file content executable))
    (htarget : disk.locate cwd target = .ok (.vacant directory name)) :
    copyFile cwd source target disk =
      .ok (disk.put (directory ++ [name]) (.file content executable)) := by
  unfold copyFile
  rw [hsource]
  dsimp only
  rw [htarget]

/-- A copy holds what its source does, unless it is the source itself. -/
theorem writesFile_of_copyFile_of_lookup {cwd : Location} {source target : Path}
    {before after : Disk} (h : copyFile cwd source target before = .ok after) :
    ∃ origin content executable found,
      before.lookup cwd source = .ok (origin, .file content executable) ∧
      before.locate cwd target = .ok found ∧ found.takesFile = true ∧
      WritesFile before after found.location
        (if found.location = origin then ByteArray.empty else content) := by
  unfold copyFile at h
  split at h
  · rename_i origin content executable hlookup
    refine ⟨origin, content, executable, ?_⟩
    split at h
    · rename_i location _ _ hfind
      cases h
      exact ⟨_, hlookup, hfind, rfl,
        writesFile_put ((find_eq_ok_iff.1 hfind).2.takesFile rfl) _ _⟩
    · cases h
    · rename_i directory name hfind
      cases h
      have hfollows := (find_eq_ok_iff.1 hfind).2
      -- the source stands somewhere, the target does not
      have hne : directory ++ [name] ≠ origin := by
        rintro rfl
        have hsource := entryAt?_of_lookup_file hlookup
        rw [hfollows.entryAt?_eq_none rfl] at hsource
        cases hsource
      refine ⟨_, hlookup, hfind, rfl, ?_⟩
      rw [Found.location, if_neg hne]
      exact writesFile_put (hfollows.takesFile rfl) _ _
    · cases h
  · cases h
  · cases h

theorem writesFile_of_copyFile {cwd : Location} {source target : Path} {before after : Disk}
    (h : copyFile cwd source target before = .ok after) :
    ∃ found content, before.locate cwd target = .ok found ∧ found.takesFile = true ∧
      WritesFile before after found.location content := by
  obtain ⟨_, _, _, found, -, hlocate, hfound, hwrites⟩ := writesFile_of_copyFile_of_lookup h
  exact ⟨found, _, hlocate, hfound, hwrites⟩

end Disk

end LiterateCheck
