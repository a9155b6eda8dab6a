import LiterateCheck.Proofs.Checker
import LiterateCheck.Proofs.CommandLine.EarlyFailures
import LiterateCheck.Proofs.Project.Repeating

/-!
# What the exit code tells

A run without a watch prepares a project (`prepare`) and concludes with a check of it (`conclude`).
1. The toolchain has no part in preparing, and only the starts of the check matter to the end
   (`Makes`).
2. The exit code is two when a stage fails, one when a start breaks, and zero otherwise
   (`exit_code_protocol`).
-/

namespace LiterateCheck.Session

/-- What is there before the check. -/
structure Prepared where
  settings : Settings
  documents : List Path
  table : GroupTable
  tree : ProjectTree

/-- The stages before the check: the settings, the documents, the supplements and the project. -/
def prepare (environment : Environment) (arguments : Arguments) : Run Prepared := do
  let settings ← Run.ofExcept (settings environment arguments (← Run.disk))
  let documents ← documents environment arguments settings
  let complementary ←
    match settings.complementary? with
    | some directory => Run.ofExcept (listSupplements (← Run.disk) environment.cwd directory)
    | none => pure []
  let (table, tree) ← generateProject environment.cwd documents settings.outputRoot
    ⟨settings.config.warnList, settings.config.moduleConfig, complementary⟩
  return ⟨settings, documents, table, tree⟩

/-- The supplements that the settings name. -/
def supplementsOf (environment : Environment) (settings : Settings) (disk : Disk) :
    Except CheckError (List Path) :=
  match settings.complementary? with
  | some directory => listSupplements disk environment.cwd directory
  | none => .ok []

theorem gives_prepare {environment : Environment} {arguments : Arguments} {before after : World}
    {prepared : Prepared} :
    Run.Gives (prepare environment arguments) before prepared after ↔
      settings environment arguments before.disk = .ok prepared.settings ∧
      ∃ found complementary,
        Run.Gives (documents environment arguments prepared.settings) before prepared.documents
          found ∧
        supplementsOf environment prepared.settings found.disk = .ok complementary ∧
        Run.Gives (generateProject environment.cwd prepared.documents prepared.settings.outputRoot
          ⟨prepared.settings.config.warnList, prepared.settings.config.moduleConfig, complementary⟩)
          found (prepared.table, prepared.tree) after := by
  unfold prepare
  constructor
  · intro h
    obtain ⟨_, _, hdisk, h⟩ := Run.gives_bind.1 h
    obtain ⟨rfl, rfl⟩ := Run.gives_disk.1 hdisk
    obtain ⟨settings, _, hfirst, h⟩ := Run.gives_bind.1 h
    obtain ⟨hsettings, rfl⟩ := Run.gives_ofExcept.1 hfirst
    obtain ⟨documents, found, hdocuments, h⟩ := Run.gives_bind.1 h
    have hrest : ∃ complementary, supplementsOf environment settings found.disk =
        .ok complementary ∧ Run.Gives (generateProject environment.cwd documents settings.outputRoot
          ⟨settings.config.warnList, settings.config.moduleConfig, complementary⟩ >>=
            fun (table, tree) => pure ⟨settings, documents, table, tree⟩) found prepared after := by
      unfold supplementsOf
      cases hcomplementary : settings.complementary? with
      | none =>
        rw [hcomplementary] at h
        obtain ⟨complementary, _, hnone, h⟩ := Run.gives_bind.1 h
        obtain ⟨rfl, rfl⟩ := Run.gives_pure.1 hnone
        exact ⟨[], rfl, h⟩
      | some directory =>
        rw [hcomplementary] at h
        obtain ⟨_, _, hdisk, h⟩ := Run.gives_bind.1 h
        obtain ⟨rfl, rfl⟩ := Run.gives_disk.1 hdisk
        obtain ⟨complementary, _, hlist, h⟩ := Run.gives_bind.1 h
        obtain ⟨hlisted, rfl⟩ := Run.gives_ofExcept.1 hlist
        exact ⟨complementary, hlisted, h⟩
    obtain ⟨complementary, hcomplementary, h⟩ := hrest
    obtain ⟨⟨table, tree⟩, _, hproject, h⟩ := Run.gives_bind.1 h
    obtain ⟨rfl, rfl⟩ := Run.gives_pure.1 h
    exact ⟨hsettings, found, complementary, hdocuments, hcomplementary, hproject⟩
  · rintro ⟨hsettings, found, complementary, hdocuments, hcomplementary, hproject⟩
    refine Run.gives_bind.2 ⟨_, before, Run.gives_disk.2 ⟨rfl, rfl⟩, ?_⟩
    refine Run.gives_bind.2 ⟨_, before, Run.gives_ofExcept.2 ⟨hsettings, rfl⟩, ?_⟩
    refine Run.gives_bind.2 ⟨_, found, hdocuments, ?_⟩
    have hend : Run.Gives (generateProject environment.cwd prepared.documents
        prepared.settings.outputRoot ⟨prepared.settings.config.warnList,
          prepared.settings.config.moduleConfig, complementary⟩ >>=
            fun (table, tree) => pure ⟨prepared.settings, prepared.documents, table, tree⟩)
        found prepared after :=
      Run.gives_bind.2 ⟨_, after, hproject, Run.gives_pure.2 ⟨rfl, rfl⟩⟩
    unfold supplementsOf at hcomplementary
    cases hdirectory : prepared.settings.complementary? with
    | none =>
      rw [hdirectory] at hcomplementary
      cases hcomplementary
      exact Run.gives_bind.2 ⟨[], found, Run.gives_pure.2 ⟨rfl, rfl⟩, hend⟩
    | some directory =>
      rw [hdirectory] at hcomplementary
      refine Run.gives_bind.2 ⟨_, found, Run.gives_disk.2 ⟨rfl, rfl⟩, ?_⟩
      exact Run.gives_bind.2 ⟨_, found, Run.gives_ofExcept.2 ⟨hcomplementary, rfl⟩, hend⟩

/-- What is told of the report on what was prepared. -/
def conclusion (environment : Environment) (arguments : Arguments) (prepared : Prepared)
    (report : CheckReport) : Told :=
  tell (usesColor environment arguments) arguments.rawDiagnostics prepared.tree.sourceMap report
    prepared.documents.length prepared.tree.groups.length

/-- The last stage: what was prepared is checked, unless nothing is to be checked. -/
def conclude (environment : Environment) (arguments : Arguments) (prepared : Prepared) :
    Run Told := do
  if arguments.extractOnly then
    return ⟨.passed, extractedText prepared.table prepared.tree prepared.documents.length, ""⟩
  else
    let report ← CheckReport.run environment.toolchain prepared.settings.moon prepared.tree.root
      prepared.settings.runTests
    return conclusion environment arguments prepared report

theorem single_eq (environment : Environment) (arguments : Arguments) :
    single environment arguments =
      prepare environment arguments >>= conclude environment arguments := by
  unfold single prepare runOnce conclude conclusion
  simp only [bind_assoc]
  refine bind_congr fun disk => bind_congr fun settings => bind_congr fun documents => ?_
  cases settings.complementary? with
  | none => simp only [bind_assoc, pure_bind]
  | some directory => simp only [bind_assoc, pure_bind]

/-- What preparing comes to, and the world that it leaves. -/
def ready (environment : Environment) (arguments : Arguments) (disk : Disk) :
    Except CheckError Prepared × World :=
  (prepare environment arguments).run.run ⟨disk, []⟩

/-- What a run comes to, and the world that it leaves. -/
def outcome (environment : Environment) (arguments : Arguments) (disk : Disk) :
    Except CheckError Told × World :=
  (single environment arguments).run.run ⟨disk, []⟩

/-- The starts that a run makes, in order: on the disk that preparing leaves, they lead to the disk
that the run leaves. Each was noted before, and a toolchain that answers them in the same way gives
the same run, whatever it would do otherwise. -/
structure Makes (environment : Environment) (arguments : Arguments) (disk : Disk)
    (starts : List Start) : Prop where
  answered : Starts environment.toolchain (ready environment arguments disk).2.disk starts
  left : (outcome environment arguments disk).2.disk =
    leftBy (ready environment arguments disk).2.disk starts
  noted : (outcome environment arguments disk).2.notices =
    (ready environment arguments disk).2.notices ++ starts.map Start.notice
  only (toolchain : Toolchain)
    (hsame : ∀ start ∈ starts, Start.of toolchain start.invocation start.disk = start) :
    outcome { environment with toolchain := toolchain } arguments disk =
      outcome environment arguments disk

variable {environment : Environment} {arguments : Arguments} {disk : Disk}

theorem outcome_of_error {error : CheckError}
    (h : (ready environment arguments disk).1 = .error error) :
    outcome environment arguments disk = (.error error, (ready environment arguments disk).2) := by
  have hready : (prepare environment arguments).run.run ⟨disk, []⟩ =
      (.error error, (ready environment arguments disk).2) := Prod.ext h rfl
  unfold outcome
  rw [single_eq]
  exact Run.run_bind_of_error hready

theorem outcome_of_ok {prepared : Prepared}
    (h : (ready environment arguments disk).1 = .ok prepared) :
    outcome environment arguments disk =
      (conclude environment arguments prepared).run.run (ready environment arguments disk).2 := by
  have hready : Run.Gives (prepare environment arguments) ⟨disk, []⟩ prepared
      (ready environment arguments disk).2 := Prod.ext h rfl
  unfold outcome
  rw [single_eq]
  exact Run.run_bind_of_gives hready

theorem outcome_of_extractOnly {prepared : Prepared}
    (h : (ready environment arguments disk).1 = .ok prepared)
    (hextract : arguments.extractOnly = true) :
    outcome environment arguments disk =
      (.ok ⟨.passed, extractedText prepared.table prepared.tree prepared.documents.length, ""⟩,
        (ready environment arguments disk).2) := by
  rw [outcome_of_ok h]
  unfold conclude
  rw [if_pos hextract]
  rfl

theorem outcome_of_course {prepared : Prepared} {starts : List Start}
    {result : Except CheckError CheckReport}
    (h : (ready environment arguments disk).1 = .ok prepared)
    (hextract : arguments.extractOnly = false)
    (hcourse : CheckReport.Course environment.toolchain prepared.settings.moon prepared.tree.root
      prepared.settings.runTests (ready environment arguments disk).2.disk starts result) :
    outcome environment arguments disk =
      (result.map (conclusion environment arguments prepared),
        ⟨leftBy (ready environment arguments disk).2.disk starts,
          (ready environment arguments disk).2.notices ++ starts.map Start.notice⟩) := by
  rw [outcome_of_ok h]
  unfold conclude
  rw [hextract, if_neg Bool.false_ne_true, run_bind, hcourse.run_eq]
  cases result <;> rfl

/-! ## The starts of a run -/

theorem makes_of_error {error : CheckError}
    (h : (ready environment arguments disk).1 = .error error) :
    Makes environment arguments disk [] where
  answered := .none _
  left := by rw [outcome_of_error h]; rfl
  noted := by rw [outcome_of_error h]; exact (List.append_nil _).symm
  only toolchain _ := by
    rw [outcome_of_error h]
    exact outcome_of_error h

theorem Makes.eq_nil_of_error {starts : List Start} {error : CheckError}
    (hmakes : Makes environment arguments disk starts)
    (h : (ready environment arguments disk).1 = .error error) : starts = [] := by
  have hnoted := hmakes.noted
  rw [outcome_of_error h] at hnoted
  exact List.map_eq_nil_iff.1 (List.append_right_eq_self.1 hnoted.symm)

theorem Makes.eq_nil_of_extractOnly {starts : List Start} {prepared : Prepared}
    (hmakes : Makes environment arguments disk starts)
    (h : (ready environment arguments disk).1 = .ok prepared)
    (hextract : arguments.extractOnly = true) : starts = [] := by
  have hnoted := hmakes.noted
  rw [outcome_of_extractOnly h hextract] at hnoted
  exact List.map_eq_nil_iff.1 (List.append_right_eq_self.1 hnoted.symm)

/-- An early failure is one of preparing. -/
theorem ready_of_early {error : CheckError}
    (h : (outcome environment arguments disk).1 = .error error) (hearly : error.IsEarly) :
    (ready environment arguments disk).1 = .error error := by
  cases hready : (ready environment arguments disk).1 with
  | error error' =>
    rw [outcome_of_error hready] at h
    exact congrArg Except.error (Except.error.inj h)
  | ok prepared =>
    have hlate : Run.FailsLate (conclude environment arguments prepared) := by
      unfold conclude
      split
      · exact Run.failsLate_pure _
      · exact (failsLate_check _ _ _ _).bind fun _ => Run.failsLate_pure _
    rw [outcome_of_ok hready] at h
    exact absurd hearly (hlate.fault h)

theorem makes_of_extractOnly {prepared : Prepared}
    (h : (ready environment arguments disk).1 = .ok prepared)
    (hextract : arguments.extractOnly = true) : Makes environment arguments disk [] where
  answered := .none _
  left := by rw [outcome_of_extractOnly h hextract]; rfl
  noted := by rw [outcome_of_extractOnly h hextract]; exact (List.append_nil _).symm
  only toolchain _ := by
    rw [outcome_of_extractOnly h hextract]
    exact outcome_of_extractOnly h hextract

/-- Otherwise the starts are those of the check. -/
theorem makes_of_course {prepared : Prepared} {starts : List Start}
    {result : Except CheckError CheckReport}
    (h : (ready environment arguments disk).1 = .ok prepared)
    (hextract : arguments.extractOnly = false)
    (hcourse : CheckReport.Course environment.toolchain prepared.settings.moon prepared.tree.root
      prepared.settings.runTests (ready environment arguments disk).2.disk starts result) :
    Makes environment arguments disk starts where
  answered := hcourse.starts_of
  left := by rw [outcome_of_course h hextract hcourse]
  noted := by rw [outcome_of_course h hextract hcourse]
  only toolchain hsame := by
    rw [outcome_of_course h hextract hcourse]
    exact outcome_of_course h hextract (hcourse.of_answers hsame)

theorem settings_of_ready {prepared : Prepared}
    (h : (ready environment arguments disk).1 = .ok prepared) :
    settings environment arguments disk = .ok prepared.settings :=
  (gives_prepare.1 (Prod.ext h rfl : Run.Gives _ ⟨disk, []⟩ prepared _)).1

theorem root_of_ready {prepared : Prepared}
    (h : (ready environment arguments disk).1 = .ok prepared) :
    prepared.tree.root = prepared.settings.outputRoot := by
  obtain ⟨-, found, complementary, -, -, hproject⟩ :=
    gives_prepare.1 (Prod.ext h rfl : Run.Gives _ ⟨disk, []⟩ prepared _)
  obtain ⟨_, _, _, -, -, hwritten, -⟩ := gives_generateProject.1 hproject
  obtain ⟨_, _, -, -, htree⟩ := gives_writeProject.1 hwritten
  rw [htree]

theorem runTests_of_ready {prepared : Prepared}
    (h : (ready environment arguments disk).1 = .ok prepared) :
    prepared.settings.runTests = (arguments.test || prepared.settings.config.runTests) := by
  have hsettings := settings_of_ready h
  unfold settings at hsettings
  obtain ⟨config, -, hsettings⟩ := bind_eq_ok_iff.1 hsettings
  rw [← Except.ok.inj hsettings]

/-- The flag or the configuration asks for tests. -/
def asksForTests (arguments : Arguments) (prepared : Prepared) : Prop :=
  arguments.test = true ∨ prepared.settings.config.runTests = true

/-! ## The exit code -/

theorem verdict_tell (useColor raw : Bool) (map : SourceMap) (report : CheckReport)
    (documents groups : Nat) :
    (tell useColor raw map report documents groups).verdict = .failed ↔ report.failure? ≠ none := by
  unfold tell
  cases report.failure? <;> simp

/-- A stage of a run fails: one before the check, or a start. -/
def StageFails (environment : Environment) (arguments : Arguments) (disk : Disk)
    (starts : List Start) : Prop :=
  (∃ error, (ready environment arguments disk).1 = .error error) ∨ ∃ start ∈ starts, start.Fails

/-- What a run comes to is told by its starts: it is an error when a stage fails, and its verdict is
a failure when a start breaks. -/
structure Tells (environment : Environment) (arguments : Arguments) (disk : Disk)
    (starts : List Start) : Prop where
  fails : (∃ error, (outcome environment arguments disk).1 = .error error) ↔
    StageFails environment arguments disk starts
  breaks {told : Told} (h : (outcome environment arguments disk).1 = .ok told) :
    told.verdict = .failed ↔ arguments.extractOnly = false ∧ ∃ start ∈ starts, start.Breaks

theorem tells_of_error {error : CheckError}
    (h : (ready environment arguments disk).1 = .error error) :
    Tells environment arguments disk [] where
  fails := by
    rw [outcome_of_error h]
    exact ⟨fun _ => .inl ⟨error, h⟩, fun _ => ⟨error, rfl⟩⟩
  breaks htold := by
    rw [outcome_of_error h] at htold
    cases htold

theorem stageFails_iff_of_ok {prepared : Prepared} {starts : List Start}
    (h : (ready environment arguments disk).1 = .ok prepared) :
    StageFails environment arguments disk starts ↔ ∃ start ∈ starts, start.Fails := by
  refine ⟨?_, .inr⟩
  rintro (⟨error, herror⟩ | hstart)
  · rw [h] at herror
    cases herror
  · exact hstart

theorem tells_of_extractOnly {prepared : Prepared}
    (h : (ready environment arguments disk).1 = .ok prepared)
    (hextract : arguments.extractOnly = true) : Tells environment arguments disk [] where
  fails := by
    rw [outcome_of_extractOnly h hextract, stageFails_iff_of_ok h]
    simp
  breaks htold := by
    rw [outcome_of_extractOnly h hextract] at htold
    cases htold
    simp

theorem tells_of_course {prepared : Prepared} {starts : List Start}
    {result : Except CheckError CheckReport}
    (h : (ready environment arguments disk).1 = .ok prepared)
    (hextract : arguments.extractOnly = false)
    (hcourse : CheckReport.Course environment.toolchain prepared.settings.moon prepared.tree.root
      prepared.settings.runTests (ready environment arguments disk).2.disk starts result) :
    Tells environment arguments disk starts where
  fails := by
    rw [outcome_of_course h hextract hcourse, stageFails_iff_of_ok h, ← hcourse.error_iff]
    cases result <;> simp [Except.map]
  breaks htold := by
    rw [outcome_of_course h hextract hcourse] at htold
    cases result with
    | error error => cases htold
    | ok report =>
      cases htold
      unfold conclusion
      rw [verdict_tell, hcourse.failure?_iff, and_iff_right hextract]

theorem Tells.codes {starts : List Start} (h : Tells environment arguments disk starts) :
    let code? := (transcript environment arguments (outcome environment arguments disk)).code?
    (code? = some 2 ↔ StageFails environment arguments disk starts) ∧
    (code? = some 1 ↔ ¬ StageFails environment arguments disk starts ∧
      arguments.extractOnly = false ∧ ∃ start ∈ starts, start.Breaks) ∧
    (¬ StageFails environment arguments disk starts →
      ¬ (arguments.extractOnly = false ∧ ∃ start ∈ starts, start.Breaks) → code? = some 0) := by
  have hfails := h.fails
  have hbreaks := @h.breaks
  generalize outcome environment arguments disk = result at hfails hbreaks ⊢
  obtain ⟨error | told, world⟩ := result
  · have hcode : (transcript environment arguments (.error error, world)).code? = some 2 := rfl
    have hfails := hfails.1 ⟨error, rfl⟩
    simp [hcode, hfails]
  · have hcode : (transcript environment arguments (.ok told, world)).code? =
        some (if told.verdict = .passed then 0 else 1) := rfl
    have hfails : ¬ StageFails environment arguments disk starts := fun hstage => by
      obtain ⟨error, herror⟩ := hfails.2 hstage
      cases herror
    rw [← hbreaks rfl, hcode]
    cases told.verdict <;> simp [hfails]

/-- **What the exit code tells.** A run without a watch makes some starts of the toolchain. It ends
with two exactly when a stage fails, be it one before the check or a start; with one exactly when no
stage fails, something is to be checked, and a start ends with another status than zero or by a
signal; and with zero otherwise. Nothing is started when nothing is to be checked, nor when a stage
before the check fails. In every other run the check is started once, in the output root, and after
it, once, the tests, exactly when they are asked for and the check passed. A report is good exactly
when it has no failure, and the failure is its only output without success. -/
theorem exit_code_protocol {environment : Environment} {words : List String}
    {arguments : Arguments} (hparse : Arguments.parse words = .ok arguments)
    (hwatch : arguments.watch = false) (disk : Disk) :
    ∃ starts, Makes environment arguments disk starts ∧
      ((run environment words disk).1.code? = some 2 ↔
        StageFails environment arguments disk starts) ∧
      ((run environment words disk).1.code? = some 1 ↔
        ¬ StageFails environment arguments disk starts ∧ arguments.extractOnly = false ∧
          ∃ start ∈ starts, start.Breaks) ∧
      (¬ StageFails environment arguments disk starts →
        ¬ (arguments.extractOnly = false ∧ ∃ start ∈ starts, start.Breaks) →
          (run environment words disk).1.code? = some 0) ∧
      (arguments.extractOnly = true → starts = []) ∧
      (arguments.extractOnly = false →
        match (ready environment arguments disk).1 with
        | .error _ => starts = []
        | .ok prepared =>
          ∃ check others, starts = check :: others ∧
            check.invocation = ⟨prepared.settings.moon, .check, prepared.settings.outputRoot⟩ ∧
            (asksForTests arguments prepared ∧ check.Passes → ∃ test, others = [test] ∧
              test.invocation = ⟨prepared.settings.moon, .test, prepared.settings.outputRoot⟩) ∧
            (¬ (asksForTests arguments prepared ∧ check.Passes) → others = [])) ∧
      (∀ program root runTests before report after,
        Run.Gives (CheckReport.run environment.toolchain program root runTests) before report after →
          (report.isOk = true ↔ report.failure? = none) ∧
          ∀ output ∈ report.outputs, report.failure? = some output ↔ output.success = false) := by
  have hrun : (run environment words disk).1 =
      transcript environment arguments (outcome environment arguments disk) := by
    unfold run outcome
    rw [hparse]
    dsimp only
    rw [hwatch, if_neg Bool.false_ne_true]
  have hreports : ∀ program root runTests before report after,
      Run.Gives (CheckReport.run environment.toolchain program root runTests) before report after →
        (report.isOk = true ↔ report.failure? = none) ∧
        ∀ output ∈ report.outputs, report.failure? = some output ↔ output.success = false :=
    fun _ _ _ _ report _ h => ⟨report.isOk_iff, CheckReport.failure?_eq_some_iff h⟩
  rw [hrun]
  cases hready : (ready environment arguments disk).1 with
  | error error =>
    obtain ⟨htwo, hone, hzero⟩ := (tells_of_error hready).codes
    exact ⟨[], makes_of_error hready, htwo, hone, hzero, fun _ => rfl, fun _ => rfl, hreports⟩
  | ok prepared =>
    cases hextract : arguments.extractOnly with
    | true =>
      obtain ⟨htwo, hone, hzero⟩ := (tells_of_extractOnly hready hextract).codes
      rw [hextract] at hone hzero
      exact ⟨[], makes_of_extractOnly hready hextract, htwo, hone, hzero, fun _ => rfl,
        nofun, hreports⟩
    | false =>
      obtain ⟨starts, result, hcourse⟩ := CheckReport.exists_course environment.toolchain
        prepared.settings.moon prepared.tree.root prepared.settings.runTests
        (ready environment arguments disk).2.disk
      obtain ⟨htwo, hone, hzero⟩ := (tells_of_course hready hextract hcourse).codes
      rw [hextract] at hone hzero
      have horder := hcourse.order
      rw [runTests_of_ready hready, root_of_ready hready, Bool.or_eq_true] at horder
      exact ⟨starts, makes_of_course hready hextract hcourse, htwo, hone, hzero,
        nofun, fun _ => horder, hreports⟩

/-! ### A session whose tests are killed -/

/-- A session in the root, with a toolchain that passes the check and dies in the tests. -/
def dyingEnvironment : Environment where
  cwd := []
  bindings := []
  toolchain := fun invocation =>
    match invocation.subcommand with
    | .check => pure ⟨some 0, .empty, .empty⟩
    | .test => pure ⟨none, .empty, .empty⟩

/-- The arguments of a session without documents, with tests. -/
def testArguments : Arguments :=
  { documentArguments ⟨"notes.txt"⟩ with test := true, output? := some ⟨"/out"⟩ }

theorem parse_testArguments :
    Arguments.parse ["--test", "--output", "/out", "notes.txt"] = .ok testArguments := rfl

/-- What is prepared in the root without documents, where nothing stands at the output root. -/
theorem ready_without_documents {found : Settings} (hcwd : environment.cwd = [])
    (hfiles : arguments.files = [⟨"notes.txt"⟩])
    (hsettings : settings environment arguments disk = .ok found)
    (hsupplements : found.complementary? = none) (hroot : found.outputRoot = ⟨"/out"⟩)
    (hout : disk.entryAt? ["out"] = none) (hfree : disk.entryAt? ["out", moduleFile.text] = none) :
    ∃ prepared notices, ready environment arguments disk =
      (.ok prepared, ⟨(disk.put ["out"] .directory).put ["out", moduleFile.text]
        (manifest ⟨found.config.warnList, found.config.moduleConfig, []⟩), notices⟩) ∧
      prepared.settings = found := by
  have hdocuments : Run.Gives (documents environment arguments found) ⟨disk, []⟩ []
      ⟨disk, [.skippedFile ⟨"notes.txt"⟩, .noDocuments]⟩ := by
    unfold documents
    rw [hfiles]
    rfl
  have hnone : supplementsOf environment found disk = .ok [] := by
    unfold supplementsOf
    rw [hsupplements]
  have hvacant : disk.find [] false ⟨"/out"⟩ (Path.mk "/out").names = .ok (.vacant [] "out") :=
    Disk.find_of_follows (by decide) (.vacant isName_output hout)
  obtain ⟨tree, notices, hproject⟩ := @gives_generateProject_empty [] [] ⟨"/out"⟩
    ⟨found.config.warnList, found.config.moduleConfig, []⟩
    ⟨disk, [.skippedFile ⟨"notes.txt"⟩, .noDocuments]⟩ _ rfl _ _
    (Disk.gives_clear_of_vacant hvacant)
    (Disk.gives_makeAll rfl (Disk.makeDirectory_of_vacant hvacant)) _ _
    (locate_manifest (Disk.entryAt?_put_self _ _ (by decide))
      ((Disk.entryAt?_put_of_ne _ _ (by decide)).trans hfree))
  refine ⟨⟨found, [], .empty, tree⟩, notices, gives_prepare.2 ⟨hsettings, _, [], hdocuments, hnone,
    ?_⟩, rfl⟩
  rw [hcwd, hroot]
  exact hproject

theorem settings_testArguments : settings dyingEnvironment testArguments earlierDisk =
    .ok ⟨⟨"/"⟩, .default, ⟨"/out"⟩, none, "moon", true⟩ := by
  have hconfig : Config.loadOrDefault earlierDisk [] ⟨"/"⟩ = .ok .default := by
    unfold Config.loadOrDefault Config.load
    rw [path?_earlierDisk]
    rfl
  unfold settings
  rw [show testArguments.path?.getD dyingEnvironment.cwd.path = ⟨"/"⟩ from rfl,
    show dyingEnvironment.cwd = [] from rfl]
  dsimp only
  rw [hconfig]
  rfl

theorem exit_code_protocol_dying : ∃ starts,
    Makes dyingEnvironment testArguments earlierDisk starts ∧
    (run dyingEnvironment ["--test", "--output", "/out", "notes.txt"] earlierDisk).1.code? =
      some 1 ∧
    starts.map Start.invocation = [⟨"moon", .check, ⟨"/out"⟩⟩, ⟨"moon", .test, ⟨"/out"⟩⟩] := by
  obtain ⟨prepared, notices, hready, hsettings⟩ :=
    ready_without_documents rfl rfl settings_testArguments rfl rfl rfl rfl
  have hready : (ready dyingEnvironment testArguments earlierDisk).1 = .ok prepared :=
    congrArg Prod.fst hready
  obtain ⟨starts, hmakes, -, hone, -, -, horder, -⟩ :=
    @exit_code_protocol dyingEnvironment _ _ parse_testArguments rfl earlierDisk
  have horder := horder rfl
  rw [hready] at horder
  dsimp only at horder
  rw [hsettings] at horder
  obtain ⟨check, others, rfl, hcheck, htests, -⟩ := horder
  cases hmakes.answered with
  | next answer rest =>
    have hending : check.ending = .ok ⟨some 0, .empty, .empty⟩ := by
      rw [← answer, hcheck]
      rfl
    obtain ⟨test, rfl, htest⟩ := htests ⟨.inl rfl, _, hending, rfl⟩
    cases rest with
    | next answerTest _ =>
      have hendingTest : test.ending = .ok ⟨none, .empty, .empty⟩ := by
        rw [← answerTest, htest]
        rfl
      have hstages : ¬ StageFails dyingEnvironment testArguments earlierDisk [check, test] := by
        rw [stageFails_iff_of_ok hready]
        simp [Start.not_fails hending, Start.not_fails hendingTest]
      refine ⟨_, hmakes, hone.2 ⟨hstages, rfl, test, by simp, ?_⟩, ?_⟩
      · exact (Start.breaks_iff hendingTest).2 nofun
      · rw [List.map_cons, List.map_cons, hcheck, htest, List.map_nil]

/-- A run whose document is not there starts nothing, though it is not one that only extracts. -/
theorem no_check_gone :
    Arguments.parse ["gone.mbt.md"] = .ok (documentArguments ⟨"gone.mbt.md"⟩) ∧
    (documentArguments ⟨"gone.mbt.md"⟩).watch = false ∧
    (documentArguments ⟨"gone.mbt.md"⟩).extractOnly = false ∧
    ∀ starts, Makes ruinousEnvironment (documentArguments ⟨"gone.mbt.md"⟩) earlierDisk starts →
      ¬ ∃ start ∈ starts, start.invocation.subcommand = .check := by
  have hready : (ready ruinousEnvironment (documentArguments ⟨"gone.mbt.md"⟩) earlierDisk).1 =
      .error (.readDocument ⟨"gone.mbt.md"⟩ .notFound) := ready_of_early single_gone trivial
  refine ⟨parse_gone, rfl, rfl, fun starts hmakes => ?_⟩
  rw [hmakes.eq_nil_of_error hready]
  rintro ⟨start, hstart, -⟩
  exact List.not_mem_nil hstart

end LiterateCheck.Session
