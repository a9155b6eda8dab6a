import LiterateCheck.CommandLine.Session
import LiterateCheck.Proofs.Disk.Listing
import LiterateCheck.Proofs.Project.Confinement
import LiterateCheck.Proofs.Project.Generating

/-!
# Failures before anything is written

A run finds and reads everything it works on before it clears the output root. So the errors of
finding and reading, the early ones, leave the disk as it was, and the toolchain has no part in
them (`early_failures_change_nothing`).

`SameWhenEarly first second` puts both in one: when the first run fails early, the disk is as it was
and the second run goes just the same. A run that only reads may stand before such a pair, and runs
that never fail early may stand behind it, whatever they are.
-/

namespace LiterateCheck

open Run (Ends)

namespace CheckError

/-- The errors of finding and reading what a run works on. -/
def IsEarly : CheckError → Prop
  | configParse | io _ | invalidPattern .. | symlinkCycle _ | complementaryDir ..
  | readDocument .. => True
  | clearOutput .. | materialize .. | toolSpawn .. => False

end CheckError

namespace Run

variable {α β : Type}

/-- A run that may write, and never fails early. -/
def FailsLate (run : Run α) : Prop :=
  Ends (fun _ _ => True) (fun error => ¬ error.IsEarly) run

theorem failsLate_pure (a : α) : FailsLate (pure a) :=
  ends_pure (fun _ => trivial) a

theorem failsLate_notify (notices : List Notice) : FailsLate (notify notices) :=
  ends_notify (fun _ => trivial) notices

theorem failsLate_onDisk {fault : SystemError → CheckError} {action : OnDisk α}
    (hfault : ∀ reason, ¬ (fault reason).IsEarly) : FailsLate (onDisk fault action) :=
  ends_onDisk (fun _ => trivial) hfault

theorem FailsLate.bind {run : Run α} {next : α → Run β} (hrun : FailsLate run)
    (hnext : ∀ a, FailsLate (next a)) : FailsLate (run >>= next) :=
  Ends.bind (fun _ _ _ _ _ => trivial) hrun fun a _ _ _ => hnext a

/-- When the first run fails early, it leaves the disk as it was and the second run goes the same
way. -/
def SameWhenEarly (first second : Run α) : Prop :=
  ∀ before error, (first.run.run before).1 = .error error → error.IsEarly →
    (first.run.run before).2.disk = before.disk ∧ second.run.run before = first.run.run before

theorem FailsLate.sameWhenEarly {first : Run α} (h : FailsLate first) (second : Run α) :
    SameWhenEarly first second :=
  fun _ _ hfirst hearly => absurd hearly (h.fault hfirst)

theorem Reads.bind_sameWhenEarly {run : Run α} {first second : α → Run β} (hrun : Reads run)
    (hnext : ∀ a, SameWhenEarly (first a) (second a)) :
    SameWhenEarly (run >>= first) (run >>= second) := by
  intro before error hfirst hearly
  have hsame := hrun.related before
  rw [run_bind] at hfirst ⊢
  rw [run_bind run second]
  rcases hrun : run.run.run before with ⟨error' | a, middle⟩ <;> rw [hrun] at hsame hfirst
  · exact ⟨hsame.symm, rfl⟩
  · obtain ⟨hdisk, hsecond⟩ := hnext a middle error hfirst hearly
    exact ⟨hdisk.trans hsame.symm, hsecond⟩

theorem SameWhenEarly.bind_failsLate {run : Run α} {first : α → Run β}
    (hrun : SameWhenEarly run run) (hnext : ∀ a, FailsLate (first a)) (second : α → Run β) :
    SameWhenEarly (run >>= first) (run >>= second) := by
  intro before error hfirst hearly
  have hsame := hrun before error
  rw [run_bind] at hfirst ⊢
  rw [run_bind run second]
  rcases hrun : run.run.run before with ⟨error' | a, middle⟩ <;> rw [hrun] at hsame hfirst
  · obtain rfl := Except.error.inj hfirst
    exact ⟨(hsame rfl hearly).1, rfl⟩
  · exact absurd hearly ((hnext a).fault hfirst)

end Run

open Run (Reads FailsLate SameWhenEarly)

/-! ## The parts of a run -/

section Parts

variable {cwd : Location}

theorem failsLate_prepareRoot (root : Path) : FailsLate (prepareRoot cwd root) := by
  unfold prepareRoot
  refine FailsLate.bind (Run.failsLate_onDisk ?_) fun _ => Run.failsLate_onDisk ?_
  · exact fun _ hearly => hearly
  · exact fun _ hearly => hearly

theorem failsLate_writeProject (table : GroupTable) (root : Path) (options : ProjectOptions) :
    FailsLate (writeProject cwd table root options) := by
  have h : Ends (StaysBelow cwd root []) IsMaterialize (writeProject cwd table root options) :=
    ends_writeProject table options
  refine h.mono (fun _ _ _ => trivial) fun error herror hearly => ?_
  obtain ⟨path, reason, rfl⟩ := herror
  exact hearly

/-- Documents are read before the root is cleared. -/
theorem generateProject_sameWhenEarly (documents : List Path) (root : Path)
    (options : ProjectOptions) :
    SameWhenEarly (generateProject cwd documents root options)
      (generateProject cwd documents root options) := by
  unfold generateProject
  refine (reads_extract documents).bind_sameWhenEarly fun table => ?_
  refine (Run.reads_notify _).bind_sameWhenEarly fun _ => FailsLate.sameWhenEarly ?_ _
  refine (failsLate_prepareRoot root).bind fun _ => ?_
  refine (failsLate_writeProject table root options).bind fun tree => ?_
  exact (Run.failsLate_notify _).bind fun _ => Run.failsLate_pure _

theorem failsLate_runCommand (toolchain : Toolchain) (program : String) (root : Path)
    (subcommand : Subcommand) :
    FailsLate (CheckReport.runCommand toolchain program root subcommand) := by
  unfold CheckReport.runCommand
  refine (Run.failsLate_notify _).bind fun _ => ?_
  refine FailsLate.bind (Run.failsLate_onDisk ?_) fun _ => Run.failsLate_pure _
  exact fun _ hearly => hearly

theorem failsLate_check (toolchain : Toolchain) (program : String) (root : Path)
    (runTests : Bool) : FailsLate (CheckReport.run toolchain program root runTests) := by
  unfold CheckReport.run
  refine (failsLate_runCommand toolchain program root .check).bind fun check => ?_
  split
  · exact (failsLate_runCommand toolchain program root .test).bind fun _ => Run.failsLate_pure _
  · exact Run.failsLate_pure _

end Parts

namespace Session

variable {environment : Environment} {arguments : Arguments}

theorem reads_documents (settings : Settings) :
    Reads (documents environment arguments settings) := by
  unfold documents
  extract_lets rest
  have hrest (documents : List Path) : Reads (rest documents) := by
    unfold rest
    dsimp only
    split
    · exact (Run.reads_notify _).bind fun _ => Run.reads_pure _
    · exact Run.reads_pure _
  split
  · exact Run.reads_disk.bind fun disk => (Run.reads_ofExcept _).bind hrest
  · exact (Run.reads_notify _).bind fun _ => hrest _

/-- Only after the project was generated does the toolchain matter. -/
theorem runOnce_sameWhenEarly (settings : Settings) (toolchain : Toolchain) :
    SameWhenEarly (runOnce environment arguments settings)
      (runOnce { environment with toolchain := toolchain } arguments settings) := by
  unfold runOnce
  refine (reads_documents settings).bind_sameWhenEarly fun documents => ?_
  extract_lets rest rest'
  have hrest (complementary : List Path) :
      SameWhenEarly (rest complementary) (rest' complementary) := by
    refine (generateProject_sameWhenEarly _ _ _).bind_failsLate (fun (table, tree) => ?_) _
    dsimp only
    split
    · exact Run.failsLate_pure _
    · exact (failsLate_check _ _ _ _).bind fun _ => Run.failsLate_pure _
  cases settings.complementary? with
  | none => exact hrest []
  | some directory =>
    exact Run.reads_disk.bind_sameWhenEarly fun disk =>
      (Run.reads_ofExcept _).bind_sameWhenEarly hrest

theorem single_sameWhenEarly (toolchain : Toolchain) :
    SameWhenEarly (single environment arguments)
      (single { environment with toolchain := toolchain } arguments) := by
  unfold single
  refine Run.reads_disk.bind_sameWhenEarly fun disk => ?_
  exact (Run.reads_ofExcept _).bind_sameWhenEarly fun settings =>
    runOnce_sameWhenEarly settings toolchain

/-! ## What a session shows of it -/

theorem mem_stderr_transcript_iff {result : Except CheckError Told × World} {error : CheckError} :
    .diagnostic error ∈ (transcript environment arguments result).stderr ↔
      result.1 = .error error := by
  have hlog : .diagnostic error ∉ logRemarks environment arguments result.2.notices := by
    unfold logRemarks
    simp
  obtain ⟨outcome, after⟩ := result
  cases outcome with
  | ok told => simp [transcript, hlog]
  | error error' => simp [transcript, hlog, eq_comm]

theorem exists_error_of_code {result : Except CheckError Told × World}
    (h : (transcript environment arguments result).code? = some 2) :
    ∃ error, result.1 = .error error := by
  obtain ⟨outcome, after⟩ := result
  cases outcome with
  | error error => exact ⟨error, rfl⟩
  | ok told =>
    have hcode : some (if told.verdict = .passed then 0 else 1) = some 2 := h
    split at hcode <;> cases hcode

/-- **Early failures leave everything in place.** When a session without a watch ends with an error
of finding or reading what it works on, the disk is as it was, and the session is the same whatever
the toolchain does: it was not started. A disk that is not as it was after a failure shows an error
of clearing, of writing, or of starting the toolchain. -/
theorem early_failures_change_nothing {environment : Environment} {words : List String}
    {disk : Disk}
    (hwatch : ∀ arguments, Arguments.parse words = .ok arguments → arguments.watch = false) :
    (∀ error, .diagnostic error ∈ (run environment words disk).1.stderr → error.IsEarly →
      (run environment words disk).2 = disk ∧
        ∀ toolchain, run { environment with toolchain := toolchain } words disk =
          run environment words disk) ∧
    ((run environment words disk).1.code? = some 2 → (run environment words disk).2 ≠ disk →
      ∃ error, .diagnostic error ∈ (run environment words disk).1.stderr ∧ ¬ error.IsEarly) := by
  -- words that are not taken change nothing and start nothing
  cases hparse : Arguments.parse words with
  | error fault =>
    have hrun (toolchain : Toolchain) : run { environment with toolchain := toolchain } words disk =
        run environment words disk := by
      unfold run
      rw [hparse]
      cases fault <;> rfl
    have hdisk : (run environment words disk).2 = disk := by
      unfold run
      rw [hparse]
      cases fault <;> rfl
    exact ⟨fun _ _ _ => ⟨hdisk, hrun⟩, fun _ hchanged => absurd hdisk hchanged⟩
  | ok arguments =>
    have hrun (environment : Environment) : run environment words disk =
        (transcript environment arguments ((single environment arguments).run.run ⟨disk, []⟩),
          ((single environment arguments).run.run ⟨disk, []⟩).2.disk) := by
      unfold run
      rw [hparse]
      dsimp only
      rw [hwatch arguments hparse, if_neg Bool.false_ne_true]
    have hsame (error : CheckError)
        (herror : ((single environment arguments).run.run ⟨disk, []⟩).1 = .error error)
        (hearly : error.IsEarly) := fun toolchain =>
      @single_sameWhenEarly environment arguments toolchain ⟨disk, []⟩ error herror hearly
    simp only [hrun, mem_stderr_transcript_iff]
    refine ⟨fun error herror hearly => ⟨(hsame error herror hearly environment.toolchain).1,
      fun toolchain => ?_⟩, fun hcode hchanged => ?_⟩
    · rw [(hsame error herror hearly toolchain).2]
      rfl
    · obtain ⟨error, herror⟩ := exists_error_of_code hcode
      refine ⟨error, herror, fun hearly => hchanged ?_⟩
      exact (hsame error herror hearly environment.toolchain).1

/-- A disk with an earlier project. -/
def earlierDisk : Disk :=
  ((Disk.empty.put ["target"] .directory).put ["target", "moonbit-check"] .directory).put
    ["target", "moonbit-check", "moon.mod.json"] (.file .empty false)

/-- A session in the root, with a toolchain that leaves nothing. -/
def ruinousEnvironment : Environment where
  cwd := []
  bindings := []
  toolchain := fun _ => do
    set Disk.empty
    throw .notFound

/-- What a command line with nothing but a document asks for. -/
def documentArguments (document : Path) : Arguments :=
  { files := [document], test := false, complementary? := none, path? := none
    output? := none, moon? := none, extractOnly := false, rawDiagnostics := false, watch := false
    verbose := false, noColor := false }

theorem parse_gone :
    Arguments.parse ["gone.mbt.md"] = .ok (documentArguments ⟨"gone.mbt.md"⟩) := rfl

theorem path?_earlierDisk : Config.path? earlierDisk [] ⟨"/"⟩ = none := by
  unfold Config.path?
  rw [List.find?_eq_none]
  intro path hpath
  have hroot : earlierDisk.Follows true maxLinks [] [] (.entry [] .directory) := .stop
  simp only [Config.candidates, List.map_cons, List.map_nil, List.mem_cons, List.not_mem_nil,
    or_false] at hpath
  rw [Bool.not_eq_true]
  rcases hpath with rfl | rfl | rfl
  · exact Disk.isFile_eq_false_of_missing (by decide) hroot
      (show _ = [] ++ ["mbt-check.toml"] by decide) (by decide) rfl
  · exact Disk.isFile_eq_false_of_missing (by decide) hroot
      (show _ = [] ++ [".mbt-check.toml"] by decide) (by decide) rfl
  · exact Disk.isFile_eq_false_of_missing (by decide) hroot
      (show _ = [] ++ [".config", "mbt-check.toml"] by decide) (by decide) rfl

theorem single_gone :
    ((single ruinousEnvironment (documentArguments ⟨"gone.mbt.md"⟩)).run.run ⟨earlierDisk, []⟩).1 =
      .error (.readDocument ⟨"gone.mbt.md"⟩ .notFound) := by
  have hconfig : Config.loadOrDefault earlierDisk [] ⟨"/"⟩ = .ok .default := by
    unfold Config.loadOrDefault Config.load
    rw [path?_earlierDisk]
    rfl
  obtain ⟨found, hsettings, hnone⟩ : ∃ found, settings ruinousEnvironment
      (documentArguments ⟨"gone.mbt.md"⟩) earlierDisk = .ok found ∧
      found.complementary? = none := by
    unfold settings
    rw [show (documentArguments ⟨"gone.mbt.md"⟩).path?.getD ruinousEnvironment.cwd.path = ⟨"/"⟩ from
      rfl, show ruinousEnvironment.cwd = [] from rfl]
    dsimp only
    rw [hconfig]
    exact ⟨_, rfl, rfl⟩
  have hdocuments : Run.Gives (documents ruinousEnvironment (documentArguments ⟨"gone.mbt.md"⟩)
      found) ⟨earlierDisk, []⟩ [⟨"gone.mbt.md"⟩] ⟨earlierDisk, []⟩ := rfl
  have hread : earlierDisk.textAt [] ⟨"gone.mbt.md"⟩ = .error .notFound := by
    have hlocate : earlierDisk.locate [] ⟨"gone.mbt.md"⟩ = .ok (.vacant [] "gone.mbt.md") :=
      Disk.find_eq_ok_iff.2 ⟨⟨by decide, by decide, by decide, fun _ => rfl⟩,
        .vacant (by decide) rfl⟩
    unfold Disk.textAt Disk.bytesAt Disk.lookup
    rw [hlocate]
  have hextract : (extract [] [⟨"gone.mbt.md"⟩]).run.run ⟨earlierDisk, []⟩ =
      (.error (.readDocument ⟨"gone.mbt.md"⟩ .notFound), ⟨earlierDisk, []⟩) := by
    unfold extract readDocuments
    refine Run.run_bind_of_error (Run.run_bind_of_error ?_)
    rw [List.mapM_cons]
    refine Run.run_bind_of_error ?_
    rw [Run.run_bind_of_gives (Run.gives_disk.2 ⟨rfl, rfl⟩), hread]
    rfl
  unfold single
  rw [Run.run_bind_of_gives (Run.gives_disk.2 ⟨rfl, rfl⟩),
    Run.run_bind_of_gives (Run.gives_ofExcept.2 ⟨hsettings, rfl⟩)]
  unfold runOnce
  rw [Run.run_bind_of_gives hdocuments, hnone]
  dsimp only
  rw [Run.run_bind_of_gives (Run.gives_pure.2 ⟨rfl, rfl⟩), Run.run_bind_of_error]
  unfold generateProject
  exact Run.run_bind_of_error hextract

/-- A session that names a document that is not there leaves the earlier project, which the
toolchain would not have left. -/
theorem early_failures_change_nothing_gone :
    .diagnostic (.readDocument ⟨"gone.mbt.md"⟩ .notFound) ∈
        (run ruinousEnvironment ["gone.mbt.md"] earlierDisk).1.stderr ∧
      (run ruinousEnvironment ["gone.mbt.md"] earlierDisk).2 = earlierDisk := by
  have hshown : .diagnostic (.readDocument ⟨"gone.mbt.md"⟩ .notFound) ∈
      (run ruinousEnvironment ["gone.mbt.md"] earlierDisk).1.stderr := by
    unfold run
    rw [parse_gone]
    exact mem_stderr_transcript_iff.2 single_gone
  have hwatch : ∀ arguments, Arguments.parse ["gone.mbt.md"] = .ok arguments →
      arguments.watch = false := by
    intro arguments hparse
    obtain rfl := Except.ok.inj (parse_gone.symm.trans hparse)
    rfl
  exact ⟨hshown, ((early_failures_change_nothing hwatch).1 _ hshown trivial).1⟩

end Session

end LiterateCheck
