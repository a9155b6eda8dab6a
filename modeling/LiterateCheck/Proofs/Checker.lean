import LiterateCheck.Checker
import LiterateCheck.Proofs.Run.Success

/-!
# The courses of a check

The toolchain can end in any way and leave any disk, so what is told of a check is told of its
starts: what was started, on which disk, how it ended, and what it left.
1. A check takes one of four courses (`Course`), and notes each start before it makes it
   (`course_run`).
2. Which course it takes decides the report: it fails to come when a start fails, it has a failure
   when a start breaks, and the failure is the only output without success (`Course.failure?_iff`).
3. Only the answers to these starts matter (`run_eq_of_answers`).
-/

namespace LiterateCheck

/-- A start of the toolchain. -/
structure Start where
  invocation : Invocation
  /-- The disk that the program is started on. -/
  disk : Disk
  /-- How the program ended, or why it could not be started. -/
  ending : Except SystemError Completed
  /-- The disk that is there afterwards. -/
  left : Disk

namespace Start

/-- The start of a program as the toolchain answers it. -/
def of (toolchain : Toolchain) (invocation : Invocation) (disk : Disk) : Start :=
  ⟨invocation, disk, ((toolchain invocation).run.run disk).1,
    ((toolchain invocation).run.run disk).2⟩

theorem of_invocation {toolchain : Toolchain} {invocation : Invocation} {disk : Disk}
    {start : Start} (h : of toolchain invocation disk = start) :
    of toolchain start.invocation disk = start := by
  subst h
  rfl

/-- The program could not be started. -/
def Fails (start : Start) : Prop :=
  ∃ reason, start.ending = .error reason

/-- The program ended with status zero. -/
def Passes (start : Start) : Prop :=
  ∃ completed, start.ending = .ok completed ∧ completed.code? = some 0

/-- The program ended with another status, or by a signal. -/
def Breaks (start : Start) : Prop :=
  ∃ completed, start.ending = .ok completed ∧ completed.code? ≠ some 0

theorem not_fails {start : Start} {completed : Completed} (h : start.ending = .ok completed) :
    ¬ start.Fails := by
  rintro ⟨reason, herror⟩
  rw [h] at herror
  cases herror

theorem breaks_iff {start : Start} {completed : Completed} (h : start.ending = .ok completed) :
    start.Breaks ↔ completed.code? ≠ some 0 := by
  constructor
  · rintro ⟨completed', hcompleted, hcode⟩
    rw [h] at hcompleted
    cases hcompleted
    exact hcode
  · exact fun hcode => ⟨completed, h, hcode⟩

/-- What is noted before the start. -/
def notice (start : Start) : Notice :=
  .running start.invocation.program start.invocation.subcommand start.invocation.directory

end Start

/-- Starts one after the other, each on the disk that the one before left. -/
inductive Starts (toolchain : Toolchain) : Disk → List Start → Prop where
  | none (disk : Disk) : Starts toolchain disk []
  | next {disk : Disk} {start : Start} {others : List Start}
    (answer : Start.of toolchain start.invocation disk = start)
    (rest : Starts toolchain start.left others) : Starts toolchain disk (start :: others)

/-- The disk that some starts leave, one after the other. -/
def leftBy (disk : Disk) : List Start → Disk
  | [] => disk
  | start :: others => leftBy start.left others

namespace CheckReport

variable {toolchain : Toolchain} {program : String} {root : Path} {runTests : Bool}

/-- The output that is reported of a program that ended. -/
def outputOf (subcommand : Subcommand) (completed : Completed) : ToolOutput :=
  ⟨subcommand, completed.code?, outputText completed.stdout, outputText completed.stderr⟩

theorem run_runCommand (subcommand : Subcommand) (before : World) {start : Start}
    (answer : Start.of toolchain ⟨program, subcommand, root⟩ before.disk = start) :
    (runCommand toolchain program root subcommand).run.run before =
      ((start.ending.mapError (.toolSpawn program subcommand)).map (outputOf subcommand),
        ⟨start.left, before.notices ++ [start.notice]⟩) := by
  subst answer
  have hnote : Run.Gives (Run.notify [.running program subcommand root]) before ()
      { before with notices := before.notices ++ [.running program subcommand root] } :=
    Run.gives_notify.2 rfl
  unfold runCommand
  rw [Run.run_bind_of_gives hnote, run_bind, Run.run_onDisk]
  unfold Start.of
  dsimp only
  rcases (toolchain ⟨program, subcommand, root⟩).run.run before.disk with ⟨reason | completed, disk⟩
  · rfl
  · rfl

/-- The courses that a check can take on a disk, each with its starts and its result. -/
inductive Course (toolchain : Toolchain) (program : String) (root : Path) (runTests : Bool)
    (disk : Disk) : List Start → Except CheckError CheckReport → Prop where
  /-- The check could not be started. -/
  | unstarted {check : Start} {reason : SystemError}
    (answer : Start.of toolchain ⟨program, .check, root⟩ disk = check)
    (ending : check.ending = .error reason) :
    Course toolchain program root runTests disk [check] (.error (.toolSpawn program .check reason))
  /-- The check ended, and the tests were not asked for or it did not pass. -/
  | untested {check : Start} {completed : Completed}
    (answer : Start.of toolchain ⟨program, .check, root⟩ disk = check)
    (ending : check.ending = .ok completed) (skips : runTests = false ∨ completed.code? ≠ some 0) :
    Course toolchain program root runTests disk [check] (.ok ⟨outputOf .check completed, none⟩)
  /-- The check passed, and the tests could not be started. -/
  | unstartedTest {check test : Start} {completed : Completed} {reason : SystemError}
    (answer : Start.of toolchain ⟨program, .check, root⟩ disk = check)
    (ending : check.ending = .ok completed) (asked : runTests = true)
    (passed : completed.code? = some 0)
    (answerTest : Start.of toolchain ⟨program, .test, root⟩ check.left = test)
    (endingTest : test.ending = .error reason) :
    Course toolchain program root runTests disk [check, test]
      (.error (.toolSpawn program .test reason))
  /-- The check passed, and the tests ended. -/
  | tested {check test : Start} {completed completedTest : Completed}
    (answer : Start.of toolchain ⟨program, .check, root⟩ disk = check)
    (ending : check.ending = .ok completed) (asked : runTests = true)
    (passed : completed.code? = some 0)
    (answerTest : Start.of toolchain ⟨program, .test, root⟩ check.left = test)
    (endingTest : test.ending = .ok completedTest) :
    Course toolchain program root runTests disk [check, test]
      (.ok ⟨outputOf .check completed, some (outputOf .test completedTest)⟩)

theorem exists_course (toolchain : Toolchain) (program : String) (root : Path) (runTests : Bool)
    (disk : Disk) : ∃ starts result, Course toolchain program root runTests disk starts result := by
  generalize hcheck : Start.of toolchain ⟨program, .check, root⟩ disk = check
  cases hending : check.ending with
  | error reason => exact ⟨_, _, .unstarted hcheck hending⟩
  | ok completed =>
    by_cases hasked : runTests = true ∧ completed.code? = some 0
    · obtain ⟨htests, hpassed⟩ := hasked
      generalize htest : Start.of toolchain ⟨program, .test, root⟩ check.left = test
      cases hendingTest : test.ending with
      | error reason => exact ⟨_, _, .unstartedTest hcheck hending htests hpassed htest hendingTest⟩
      | ok completedTest => exact ⟨_, _, .tested hcheck hending htests hpassed htest hendingTest⟩
    · have hskips : runTests = false ∨ completed.code? ≠ some 0 := by
        cases runTests with
        | false => exact .inl rfl
        | true => exact .inr fun hpassed => hasked ⟨rfl, hpassed⟩
      exact ⟨_, _, .untested hcheck hending hskips⟩

theorem failure?_eq_none_iff (report : CheckReport) :
    report.failure? = none ↔
      report.check.success = true ∧ ∀ test, report.test? = some test → test.success = true := by
  obtain ⟨check, test?⟩ := report
  unfold failure?
  cases check.success <;> cases test? <;> simp

theorem isOk_iff (report : CheckReport) : report.isOk = true ↔ report.failure? = none := by
  rw [failure?_eq_none_iff]
  unfold isOk
  rw [Bool.and_eq_true, Option.all_eq_true]

namespace Course

variable {disk : Disk} {starts : List Start} {result : Except CheckError CheckReport}
  {report : CheckReport}

theorem success_outputOf (subcommand : Subcommand) (completed : Completed) :
    (outputOf subcommand completed).success = true ↔ completed.code? = some 0 :=
  beq_iff_eq

/-- A check takes its course, and notes its starts. -/
theorem run_eq {before : World}
    (h : Course toolchain program root runTests before.disk starts result) :
    (run toolchain program root runTests).run.run before =
      (result, ⟨leftBy before.disk starts, before.notices ++ starts.map Start.notice⟩) := by
  unfold run
  cases h with
  | unstarted answer ending =>
    have hcheck := run_runCommand .check before answer
    rw [ending] at hcheck
    exact Run.run_bind_of_error hcheck
  | @untested check completed answer ending skips =>
    have hcheck := run_runCommand .check before answer
    rw [ending] at hcheck
    have hskips : ¬ (runTests && (outputOf .check completed).success) = true := by
      rw [Bool.and_eq_true, success_outputOf]
      rintro ⟨hasked, hpassed⟩
      rcases skips with hnot | hnot
      · rw [hasked] at hnot
        cases hnot
      · exact hnot hpassed
    rw [Run.run_bind_of_gives hcheck, if_neg hskips]
    rfl
  | @unstartedTest check test completed reason answer ending asked passed answerTest endingTest =>
    have hcheck := run_runCommand .check before answer
    have htest := run_runCommand .test ⟨check.left, before.notices ++ [check.notice]⟩ answerTest
    rw [ending] at hcheck
    rw [endingTest] at htest
    have hasked : (runTests && (outputOf .check completed).success) = true :=
      (Bool.and_eq_true _ _).mpr ⟨asked, (success_outputOf .check completed).2 passed⟩
    rw [Run.run_bind_of_gives hcheck, if_pos hasked, Run.run_bind_of_error htest, List.append_assoc]
    rfl
  | @tested check test completed completedTest answer ending asked passed answerTest endingTest =>
    have hcheck := run_runCommand .check before answer
    have htest := run_runCommand .test ⟨check.left, before.notices ++ [check.notice]⟩ answerTest
    rw [ending] at hcheck
    rw [endingTest] at htest
    have hasked : (runTests && (outputOf .check completed).success) = true :=
      (Bool.and_eq_true _ _).mpr ⟨asked, (success_outputOf .check completed).2 passed⟩
    rw [Run.run_bind_of_gives hcheck, if_pos hasked, Run.run_bind_of_gives htest, List.append_assoc]
    rfl

theorem starts_of (h : Course toolchain program root runTests disk starts result) :
    Starts toolchain disk starts := by
  cases h with
  | unstarted answer _ => exact .next (Start.of_invocation answer) (.none _)
  | untested answer _ _ => exact .next (Start.of_invocation answer) (.none _)
  | unstartedTest answer _ _ _ answerTest _ =>
    exact .next (Start.of_invocation answer) (.next (Start.of_invocation answerTest) (.none _))
  | tested answer _ _ _ answerTest _ =>
    exact .next (Start.of_invocation answer) (.next (Start.of_invocation answerTest) (.none _))

/-- A toolchain that gives the same answers takes the same course. -/
theorem of_answers {other : Toolchain}
    (h : Course toolchain program root runTests disk starts result)
    (hsame : ∀ start ∈ starts, Start.of other start.invocation start.disk = start) :
    Course other program root runTests disk starts result := by
  cases h with
  | unstarted answer ending =>
    subst answer
    exact .unstarted (hsame _ (List.mem_singleton.2 rfl)) ending
  | untested answer ending skips =>
    subst answer
    exact .untested (hsame _ (List.mem_singleton.2 rfl)) ending skips
  | unstartedTest answer ending asked passed answerTest endingTest =>
    subst answer answerTest
    obtain ⟨hcheck, htest⟩ := List.forall_mem_cons.1 hsame
    exact .unstartedTest hcheck ending asked passed (htest _ (List.mem_singleton.2 rfl)) endingTest
  | tested answer ending asked passed answerTest endingTest =>
    subst answer answerTest
    obtain ⟨hcheck, htest⟩ := List.forall_mem_cons.1 hsame
    exact .tested hcheck ending asked passed (htest _ (List.mem_singleton.2 rfl)) endingTest

/-- The check is started once, and then the tests when they are asked for and it passed. -/
theorem order (h : Course toolchain program root runTests disk starts result) :
    ∃ check others, starts = check :: others ∧ check.invocation = ⟨program, .check, root⟩ ∧
      (runTests = true ∧ check.Passes →
        ∃ test, others = [test] ∧ test.invocation = ⟨program, .test, root⟩) ∧
      (¬ (runTests = true ∧ check.Passes) → others = []) := by
  cases h with
  | @unstarted check reason answer ending =>
    refine ⟨check, [], rfl, answer ▸ rfl, ?_, fun _ => rfl⟩
    rintro ⟨-, completed, hcompleted, -⟩
    rw [ending] at hcompleted
    cases hcompleted
  | @untested check completed answer ending skips =>
    refine ⟨check, [], rfl, answer ▸ rfl, ?_, fun _ => rfl⟩
    rintro ⟨hasked, completed', hcompleted, hpassed⟩
    rw [ending] at hcompleted
    cases hcompleted
    rcases skips with hnot | hnot
    · rw [hasked] at hnot
      cases hnot
    · exact absurd hpassed hnot
  | @unstartedTest check test completed reason answer ending asked passed answerTest endingTest =>
    exact ⟨check, [test], rfl, answer ▸ rfl, fun _ => ⟨test, rfl, answerTest ▸ rfl⟩,
      fun hnot => absurd ⟨asked, completed, ending, passed⟩ hnot⟩
  | @tested check test completed completedTest answer ending asked passed answerTest endingTest =>
    exact ⟨check, [test], rfl, answer ▸ rfl, fun _ => ⟨test, rfl, answerTest ▸ rfl⟩,
      fun hnot => absurd ⟨asked, completed, ending, passed⟩ hnot⟩

/-- All starts are of the same program in the same directory. -/
theorem invocation_of_mem (h : Course toolchain program root runTests disk starts result)
    {start : Start} (hstart : start ∈ starts) :
    start.invocation.program = program ∧ start.invocation.directory = root := by
  obtain ⟨check, others, rfl, hcheck, htests, hnone⟩ := h.order
  rcases List.mem_cons.1 hstart with rfl | hother
  · rw [hcheck]
    exact ⟨rfl, rfl⟩
  · by_cases hasked : runTests = true ∧ check.Passes
    · obtain ⟨test, rfl, htest⟩ := htests hasked
      obtain rfl := List.mem_singleton.1 hother
      rw [htest]
      exact ⟨rfl, rfl⟩
    · rw [hnone hasked] at hother
      cases hother

/-- A check fails to give a report exactly when a start fails. -/
theorem error_iff (h : Course toolchain program root runTests disk starts result) :
    (∃ error, result = .error error) ↔ ∃ start ∈ starts, start.Fails := by
  cases h with
  | @unstarted check reason answer ending =>
    exact ⟨fun _ => ⟨check, List.mem_singleton.2 rfl, reason, ending⟩, fun _ => ⟨_, rfl⟩⟩
  | @untested check completed answer ending skips => simp [Start.not_fails ending]
  | @unstartedTest check test completed reason answer ending asked passed answerTest endingTest =>
    have hmem : test ∈ [check, test] := List.mem_cons_of_mem _ (List.mem_singleton.2 rfl)
    exact ⟨fun _ => ⟨test, hmem, reason, endingTest⟩, fun _ => ⟨_, rfl⟩⟩
  | @tested check test completed completedTest answer ending asked passed answerTest endingTest =>
    simp [Start.not_fails ending, Start.not_fails endingTest]

/-- A report has a failure exactly when a start breaks. -/
theorem failure?_iff (h : Course toolchain program root runTests disk starts (.ok report)) :
    report.failure? ≠ none ↔ ∃ start ∈ starts, start.Breaks := by
  rw [Ne, failure?_eq_none_iff]
  cases h with
  | @untested check completed answer ending skips =>
    simp [success_outputOf, Start.breaks_iff ending]
  | @tested check test completed completedTest answer ending asked passed answerTest endingTest =>
    simp [success_outputOf, Start.breaks_iff ending, Start.breaks_iff endingTest, passed]

theorem success_check (h : Course toolchain program root runTests disk starts (.ok report))
    (htest : report.test?.isSome = true) : report.check.success = true := by
  cases h with
  | untested answer ending skips => cases htest
  | tested answer ending asked passed answerTest endingTest =>
    exact (success_outputOf .check _).2 passed

end Course

/-- The failure of a report of a check is its only output without success. -/
theorem failure?_eq_some_iff {before after : World} {report : CheckReport}
    (h : Run.Gives (run toolchain program root runTests) before report after) :
    ∀ output ∈ report.outputs, report.failure? = some output ↔ output.success = false := by
  obtain ⟨starts, result, hcourse⟩ := exists_course toolchain program root runTests before.disk
  obtain ⟨rfl, -⟩ := Prod.mk.inj (hcourse.run_eq.symm.trans h)
  have hcheck := hcourse.success_check
  obtain ⟨check, test?⟩ := report
  unfold outputs failure?
  cases test? with
  | none =>
    intro output houtput
    obtain rfl := List.mem_singleton.1 houtput
    cases output.success <;> simp
  | some test =>
    have hcheck : check.success = true := hcheck rfl
    rw [hcheck, Bool.not_true, if_neg Bool.false_ne_true, Option.filter_some]
    refine List.forall_mem_cons.2 ⟨?_, List.forall_mem_singleton.2 ?_⟩
    · -- the check has success, so it is not the output that fails
      have hne : test.success = false → test ≠ check := by
        rintro hfails rfl
        rw [hcheck] at hfails
        cases hfails
      rw [hcheck]
      cases hfails : test.success with
      | false => simpa using hne hfails
      | true => simp
    · cases test.success <;> simp

end CheckReport

end LiterateCheck
