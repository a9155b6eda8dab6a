import LiterateCheck.Proofs.CommandLine.Arguments
import LiterateCheck.Proofs.CommandLine.ExitCodes
import LiterateCheck.Proofs.Disk.Joining
import LiterateCheck.Proofs.Path.Absolute
import LiterateCheck.Shell.Launch

/-!
# Which program checks

A program that is a relative path of several components is joined to the place where it was written,
and looked for from the output root, where the process is.
1. Each start of a session names this program and the output root (`invocation_of_makes`).
2. What it executes is what the program names in the place as seen from the output root. A place
   that is absolute is the same from everywhere, so the output root makes no difference; the only
   place that may be relative is a project's root from the command line (`executed_as_written`).
3. From a relative root the program is looked for below the output root
   (`missed_from_relative_root`).
-/

namespace LiterateCheck

/-- What a start executes when its program is a path: the process is in its directory before the
program is looked for. -/
def Start.executed (start : Start) (cwd : Location) : Except SystemError (Location × Entry) :=
  start.disk.lookupIn cwd start.invocation.directory ⟨start.invocation.program⟩

/-- The system's toolchain looks for just this: where it is an error, the program is not started. -/
theorem Start.ending_of_missing {cwd : Location} {bindings : List (String × String)}
    {invocation : Invocation} {disk : Disk} (hpath : '/' ∈ invocation.program.toList)
    (hnul : Text.holdsNul invocation.program = false)
    (hsystem : Shell.systemName? invocation.program = none) {reason : SystemError}
    (h : (Start.of (Shell.toolchain cwd bindings) invocation disk).executed cwd = .error reason) :
    (Start.of (Shell.toolchain cwd bindings) invocation disk).ending = .error reason := by
  have hempty : ¬ invocation.program.isEmpty = true := by
    rw [String.isEmpty_iff]
    intro hempty
    simp [hempty] at hpath
  have hfind (directory : Location)
      (hlookup : disk.lookup directory ⟨invocation.program⟩ = .error reason) :
      Shell.Program.find disk directory invocation.program [invocation.subcommand.text] =
        .error reason := by
    have hwords : ¬ ([invocation.program, invocation.subcommand.text].any fun word =>
        Text.holdsNul word) = true := by
      cases invocation.subcommand <;> simp [Subcommand.text, hnul] <;> decide
    unfold Shell.Program.find
    rw [if_neg hwords, if_neg hempty, if_neg (by simpa using hpath), hsystem]
    dsimp only
    rw [hlookup]
  unfold Start.executed Disk.lookupIn at h
  unfold Start.of at h ⊢
  dsimp only at h ⊢
  unfold Shell.toolchain
  rw [run_get_bind]
  split at h
  · rename_i directory hdirectory
    rw [hdirectory]
    dsimp only
    rw [run_get_bind, hfind directory h]
    rfl
  · rename_i found hnot hfound
    obtain rfl := Except.error.inj h
    obtain ⟨place, held⟩ := found
    rw [hfound]
    cases held with
    | directory => exact (hnot place rfl).elim
    | file content executable => rfl
    | link target => rfl
  · rename_i hdirectory
    obtain rfl := Except.error.inj h
    rw [hdirectory]
    rfl

/-- One way to look for something finds what another names, unless it is too long for the system, or
leads through too many links. -/
structure FindsNamed (executed named : Except SystemError (Location × Entry)) : Prop where
  named_of_executed {found : Location × Entry} : executed = .ok found → named = .ok found
  executed_of_named {found : Location × Entry} :
    named = .ok found →
      executed = .ok found ∨ executed = .error .nameTooLong ∨ executed = .error .linkLoop

namespace Path

theorem components_eq_nil {path : Path} (habsolute : path.isAbsolute = false)
    (hnames : path.names = []) : path.components = [] := by
  have hparts (part : String) (hpart : part ∈ path.parts) : part = "" := by
    have hempty := List.filter_eq_nil_iff.1 hnames part hpart
    simpa using hempty
  have hhead : path.parts.head? ≠ some "." := by
    intro hhead
    exact absurd (hparts "." (List.mem_of_head? hhead)) (by decide)
  rw [components_of_relative habsolute hhead, List.filterMap_eq_nil_iff]
  intro part hpart
  rw [hparts part hpart]
  rfl

theorem steps_ne_nil {path : Path} (habsolute : path.isAbsolute = false)
    (hcomponents : path.components ≠ []) : path.steps ≠ [] := by
  have hnames : path.names ≠ [] := fun hnames => hcomponents (components_eq_nil habsolute hnames)
  unfold steps
  split
  · simp
  · exact hnames

end Path

/-- What an anchored program leads to is what it names in its place, where their path is UTF-8: the
program is a text, and would be shown otherwise. -/
theorem findsNamed_anchorProgram {disk : Disk} (hclosed : disk.Closed) {place program : Path}
    (hplace : place.text ≠ "") (hrelative : program.isAbsolute = false)
    (hseveral : 1 < program.components.length)
    (hutf8 : Text.isUtf8 (place.join program).text = true) (directory : Location) :
    FindsNamed (disk.lookup directory ⟨anchorProgram program.text place⟩)
      (disk.lookupIn directory place program) := by
  have hanchored : Path.mk (anchorProgram program.text place) = place.join program := by
    unfold anchorProgram
    dsimp only
    rw [if_pos (by simp [hrelative, hseveral])]
    exact congrArg Path.mk (Text.shown_eq_of_isUtf8 hutf8)
  have hsteps : program.steps ≠ [] :=
    Path.steps_ne_nil hrelative (List.ne_nil_of_length_pos (Nat.lt_of_succ_lt hseveral))
  rw [hanchored]
  exact ⟨fun h => Disk.lookupIn_of_join hclosed hplace hrelative hsteps h,
    fun h => Disk.lookup_join_of_lookupIn hplace hrelative hsteps h⟩

namespace Session

/-- The program that the arguments or the environment name. -/
def givenProgram? (environment : Environment) (arguments : Arguments) : Option String :=
  arguments.moon? <|> environment.valueOf? "MBT_CHECK_MOON"

/-- The program as it was written. -/
def writtenProgram (environment : Environment) (arguments : Arguments) (config : Config) : Path :=
  ⟨(givenProgram? environment arguments).getD config.moon⟩

/-- The place where the program was written. -/
def writtenPlace (environment : Environment) (arguments : Arguments) (root : Path) : Path :=
  if (givenProgram? environment arguments).isSome then environment.cwd.path else root

variable {environment : Environment} {arguments : Arguments} {disk : Disk}

theorem checkerProgram_eq (root : Path) (config : Config) :
    checkerProgram environment arguments root config =
      anchorProgram (writtenProgram environment arguments config).text
        (writtenPlace environment arguments root) := by
  unfold checkerProgram writtenProgram writtenPlace givenProgram?
  cases arguments.moon? <|> environment.valueOf? "MBT_CHECK_MOON" with
  | none => rfl
  | some moon => rfl

theorem settings_eq_ok {found : Settings}
    (h : settings environment arguments disk = .ok found) :
    found.root = arguments.path?.getD environment.cwd.path ∧
      found.moon = anchorProgram (writtenProgram environment arguments found.config).text
        (writtenPlace environment arguments found.root) := by
  obtain ⟨config, -, h⟩ := bind_eq_ok_iff.1 h
  cases h
  exact ⟨rfl, checkerProgram_eq _ _⟩

/-- Only a project's root from the command line can be relative. -/
theorem path?_of_relative {root : Path}
    (hroot : root = arguments.path?.getD environment.cwd.path)
    (hrelative : (writtenPlace environment arguments root).isAbsolute = false) :
    givenProgram? environment arguments = none ∧
      arguments.path? = some (writtenPlace environment arguments root) := by
  unfold writtenPlace at hrelative ⊢
  cases hgiven : givenProgram? environment arguments with
  | some moon =>
    rw [hgiven, if_pos (by simp), isAbsolute_path] at hrelative
    cases hrelative
  | none =>
    rw [hgiven, if_neg (by simp)] at hrelative
    rw [if_neg (by simp)]
    cases hpath : arguments.path? with
    | none =>
      rw [hroot, hpath, Option.getD_none, isAbsolute_path] at hrelative
      cases hrelative
    | some path =>
      rw [hpath, Option.getD_some] at hroot
      exact ⟨rfl, by rw [hroot]⟩

theorem text_writtenPlace_ne_empty {root : Path} (hnamed : arguments.Named)
    (hroot : root = arguments.path?.getD environment.cwd.path) :
    (writtenPlace environment arguments root).text ≠ "" := by
  intro hempty
  have hrelative : (writtenPlace environment arguments root).isAbsolute = false := by
    unfold Path.isAbsolute
    rw [hempty]
    rfl
  exact hnamed.path (path?_of_relative hroot hrelative).2 hempty

/-- Each start of a session names the program and the output root of its settings. -/
theorem invocation_of_makes {starts : List Start}
    (hmakes : Makes environment arguments disk starts) {found : Settings}
    (hsettings : settings environment arguments disk = .ok found) {start : Start}
    (hstart : start ∈ starts) :
    start.invocation.program = found.moon ∧ start.invocation.directory = found.outputRoot := by
  cases hready : (ready environment arguments disk).1 with
  | error error =>
    rw [hmakes.eq_nil_of_error hready] at hstart
    cases hstart
  | ok prepared =>
    obtain rfl := Except.ok.inj ((settings_of_ready hready).symm.trans hsettings)
    cases hextract : arguments.extractOnly with
    | true =>
      rw [hmakes.eq_nil_of_extractOnly hready hextract] at hstart
      cases hstart
    | false =>
      -- a start is noted with its program and directory, and so are those of the check
      obtain ⟨starts', result, hcourse⟩ := CheckReport.exists_course environment.toolchain
        prepared.settings.moon prepared.tree.root prepared.settings.runTests
        (ready environment arguments disk).2.disk
      have hnoted := hmakes.noted
      rw [outcome_of_course hready hextract hcourse] at hnoted
      have hnotices := List.append_cancel_left hnoted
      have hmem : start.notice ∈ starts'.map Start.notice :=
        hnotices ▸ List.mem_map_of_mem hstart
      obtain ⟨start', hstart', hsame⟩ := List.mem_map.1 hmem
      obtain ⟨hprogram, -, hdirectory⟩ := Notice.running.inj hsame
      obtain ⟨hprogram', hdirectory'⟩ := hcourse.invocation_of_mem hstart'
      rw [root_of_ready hready] at hdirectory'
      exact ⟨hprogram.symm.trans hprogram', hdirectory.symm.trans hdirectory'⟩

/-- **Which file is executed.** A session whose program is a relative path of several components
executes, from its output root, what the program names in the place where it was written, as that
place is seen from the output root. The path of the program is passed on as a text, so it has to be
UTF-8. From an absolute place nothing depends on the output root; this is every place but a relative
root of the command line with a program from the configuration. -/
theorem executed_as_written {environment : Environment} {words : List String}
    {arguments : Arguments} (hparse : Arguments.parse words = .ok arguments) {disk : Disk}
    {found : Settings} (hsettings : settings environment arguments disk = .ok found)
    (hrelative : (writtenProgram environment arguments found.config).isAbsolute = false)
    (hseveral : 1 < (writtenProgram environment arguments found.config).components.length)
    (hutf8 : Text.isUtf8 ((writtenPlace environment arguments found.root).join
      (writtenProgram environment arguments found.config)).text = true)
    {starts : List Start} (hmakes : Makes environment arguments disk starts) {start : Start}
    (hstart : start ∈ starts) (hclosed : start.disk.Closed) {directory : Location}
    (hdirectory : start.disk.lookup environment.cwd found.outputRoot =
      .ok (directory, .directory)) :
    let program := writtenProgram environment arguments found.config
    let place := writtenPlace environment arguments found.root
    FindsNamed (start.executed environment.cwd) (start.disk.lookupIn directory place program) ∧
      (place.isAbsolute = true → FindsNamed (start.executed environment.cwd)
        (start.disk.lookupIn environment.cwd place program)) ∧
      ((givenProgram? environment arguments).isSome = true →
        start.disk.lookup environment.cwd environment.cwd.path = .ok (environment.cwd, .directory) →
          FindsNamed (start.executed environment.cwd)
            (start.disk.lookup environment.cwd program)) ∧
      (place.isAbsolute = false → givenProgram? environment arguments = none ∧
        arguments.path? = some place) := by
  intro program place
  obtain ⟨hroot, hmoon⟩ := settings_eq_ok hsettings
  obtain ⟨hprogram, houtput⟩ := invocation_of_makes hmakes hsettings hstart
  have hexecuted : start.executed environment.cwd =
      start.disk.lookup directory ⟨anchorProgram program.text place⟩ := by
    unfold Start.executed
    rw [houtput, Disk.lookupIn_of_lookup hdirectory, hprogram, hmoon]
  have hfinds := findsNamed_anchorProgram hclosed
    (text_writtenPlace_ne_empty (Arguments.named_of_parse hparse) hroot) hrelative hseveral hutf8
    directory
  rw [← hexecuted] at hfinds
  have hsame (habsolute : place.isAbsolute = true) : FindsNamed (start.executed environment.cwd)
      (start.disk.lookupIn environment.cwd place program) :=
    start.disk.lookupIn_of_absolute habsolute directory environment.cwd program ▸ hfinds
  refine ⟨hfinds, hsame, fun hgiven hcwd => ?_, path?_of_relative hroot⟩
  have hplace : place = environment.cwd.path := if_pos hgiven
  have hsame := hsame (hplace ▸ isAbsolute_path environment.cwd)
  rwa [hplace, Disk.lookupIn_of_lookup hcwd] at hsame

/-! ### A tool in the project -/

/-- What the project's configuration says. -/
def toolText : String := "moon = \"tools/moon\"\n"

/-- The tool of the project. -/
def tool : Entry := .file "#!/bin/sh\nexit 0\n".toUTF8 true

/-- A project with its configuration and its tool. -/
def toolDisk : Disk :=
  (((Disk.empty.put ["p"] .directory).put ["p", "mbt-check.toml"]
    (.file toolText.toUTF8 false)).put ["p", "tools"] .directory).put ["p", "tools", "moon"] tool

/-- A session in the root whose programs are scripts. -/
def toolEnvironment : Environment := ⟨[], [], Shell.toolchain [] []⟩

/-- The arguments of a session on the project, which writes beside it. -/
def toolArguments (place : String) : Arguments :=
  { documentArguments ⟨"notes.txt"⟩ with path? := some ⟨place⟩, output? := some ⟨"/out"⟩ }

def toolConfig : Config := { Config.default with moon := "tools/moon" }

theorem parse_toolArguments {place : String} (hplace : place = "p" ∨ place = "/p") :
    Arguments.parse ["--path", place, "--output", "/out", "notes.txt"] =
      .ok (toolArguments place) := by
  rcases hplace with rfl | rfl
  · rfl
  · rfl

theorem parse_toolText : Config.parse toolText = .ok toolConfig := by
  have h : (Config.parse toolText).toOption = some toolConfig := by decide +kernel
  cases hparse : Config.parse toolText with
  | error error =>
    rw [hparse] at h
    cases h
  | ok config =>
    rw [hparse] at h
    exact congrArg Except.ok (Option.some.inj h)

/-- The settings of a session on the project. -/
def toolSettings (place : String) : Settings :=
  ⟨⟨place⟩, toolConfig, ⟨"/out"⟩, none, anchorProgram "tools/moon" ⟨place⟩, false⟩

/-- What the session leaves once the project is written. -/
def toolOutput : Disk :=
  (toolDisk.put ["out"] .directory).put ["out", moduleFile.text]
    (manifest ⟨defaultWarnList, .default, []⟩)

theorem closed_toolDisk : toolDisk.Closed := by
  have hproject := @Disk.Closed.put .empty Disk.closed_empty [] "p" rfl rfl .directory
  have hconfig := @Disk.Closed.put _ hproject ["p"] "mbt-check.toml" rfl rfl
    (.file toolText.toUTF8 false)
  have htools := @Disk.Closed.put _ hconfig ["p"] "tools" rfl rfl .directory
  exact @Disk.Closed.put _ htools ["p", "tools"] "moon" rfl rfl tool

theorem closed_toolOutput : toolOutput.Closed := by
  have hout := @Disk.Closed.put _ closed_toolDisk [] "out" rfl rfl .directory
  exact @Disk.Closed.put _ hout ["out"] moduleFile.text rfl rfl _

theorem settings_toolArguments {place : String} (hplace : place = "p" ∨ place = "/p") :
    settings toolEnvironment (toolArguments place) toolDisk = .ok (toolSettings place) := by
  have hlookup : toolDisk.lookup [] ((Path.mk place).join ⟨"mbt-check.toml"⟩) =
      .ok (["p", "mbt-check.toml"], .file toolText.toUTF8 false) := by
    have hfollows : toolDisk.Follows true maxLinks [] ["p", "mbt-check.toml"]
        (.entry ["p", "mbt-check.toml"] (.file toolText.toUTF8 false)) :=
      .into (by decide) rfl (.file (by decide) rfl)
    rcases hplace with rfl | rfl
    · exact Disk.lookup_of_names (by decide) (by decide) hfollows
    · exact Disk.lookup_of_names (by decide) (by decide) hfollows
  have hpath : Config.path? toolDisk [] ⟨place⟩ =
      some ((Path.mk place).join ⟨"mbt-check.toml"⟩) := by
    unfold Config.path? Config.candidates
    rw [List.map_cons, List.find?_cons_of_pos]
    unfold Disk.isFile
    rw [hlookup]
    rfl
  have hconfig : Config.loadOrDefault toolDisk [] ⟨place⟩ = .ok toolConfig := by
    unfold Config.loadOrDefault Config.load
    rw [hpath]
    dsimp only
    rw [Disk.textAt_of_lookup hlookup]
    dsimp only
    rw [parse_toolText]
    rfl
  unfold settings
  rw [show (toolArguments place).path?.getD toolEnvironment.cwd.path = ⟨place⟩ from rfl,
    show toolEnvironment.cwd = [] from rfl]
  dsimp only
  rw [hconfig]
  rfl

theorem makes_toolArguments {place : String} (hplace : place = "p" ∨ place = "/p") :
    ∃ starts start, Makes toolEnvironment (toolArguments place) toolDisk starts ∧ start ∈ starts ∧
      start = .of (Shell.toolchain [] []) ⟨anchorProgram "tools/moon" ⟨place⟩, .check, ⟨"/out"⟩⟩
        toolOutput := by
  obtain ⟨prepared, notices, hready, hsettings⟩ := @ready_without_documents toolEnvironment
    (toolArguments place) toolDisk (toolSettings place) rfl rfl (settings_toolArguments hplace) rfl
    rfl rfl rfl
  have hprepared := congrArg Prod.fst hready
  obtain ⟨starts, result, hcourse⟩ := CheckReport.exists_course toolEnvironment.toolchain
    prepared.settings.moon prepared.tree.root prepared.settings.runTests
    (ready toolEnvironment (toolArguments place) toolDisk).2.disk
  have hmakes := makes_of_course hprepared rfl hcourse
  obtain ⟨check, others, rfl, hcheck, -⟩ := hcourse.order
  refine ⟨check :: others, check, hmakes, List.mem_cons_self .., ?_⟩
  cases hmakes.answered with
  | next answer rest =>
    rw [hcheck, root_of_ready hprepared, hsettings, hready] at answer
    exact answer.symm

/-- From an absolute root the project's tool is executed. -/
theorem executed_as_written_absolute : ∃ starts start,
    Makes toolEnvironment (toolArguments "/p") toolDisk starts ∧ start ∈ starts ∧
      start.executed [] = .ok (["p", "tools", "moon"], tool) ∧
      start.disk.lookupIn [] ⟨"/p"⟩ ⟨"tools/moon"⟩ = .ok (["p", "tools", "moon"], tool) := by
  obtain ⟨starts, start, hmakes, hstart, rfl⟩ := makes_toolArguments (.inr rfl)
  have hout : toolOutput.lookup [] ⟨"/out"⟩ = .ok (["out"], .directory) :=
    Disk.lookup_of_names (by decide) (show _ = ["out"] by decide) (.into (by decide) rfl .stop)
  have htool : toolOutput.Follows true maxLinks [] ["p", "tools", "moon"]
      (.entry ["p", "tools", "moon"] tool) :=
    .into (by decide) rfl (.into (by decide) rfl (.file (by decide) rfl))
  have hexecuted : toolOutput.lookupIn [] ⟨"/out"⟩ ⟨anchorProgram "tools/moon" ⟨"/p"⟩⟩ =
      .ok (["p", "tools", "moon"], tool) := by
    rw [Disk.lookupIn_of_lookup hout]
    exact Disk.lookup_of_locate (Disk.find_of_follows (by decide) htool)
  obtain ⟨-, hsame, -, -⟩ := executed_as_written (parse_toolArguments (.inr rfl))
    (settings_toolArguments (.inr rfl)) (by decide) (by decide) (by decide) hmakes hstart
    closed_toolOutput hout
  exact ⟨starts, _, hmakes, hstart, hexecuted, (hsame rfl).named_of_executed hexecuted⟩

/-! ### A tool that is missed -/

/-- From a relative root the same tool is looked for below the output root, where it is not, and the
check cannot be started. -/
theorem missed_from_relative_root : ∃ starts start,
    Arguments.parse ["--path", "p", "--output", "/out", "notes.txt"] = .ok (toolArguments "p") ∧
    settings toolEnvironment (toolArguments "p") toolDisk = .ok (toolSettings "p") ∧
    writtenProgram toolEnvironment (toolArguments "p") toolConfig = ⟨"tools/moon"⟩ ∧
    writtenPlace toolEnvironment (toolArguments "p") ⟨"p"⟩ = ⟨"p"⟩ ∧
    Makes toolEnvironment (toolArguments "p") toolDisk starts ∧ start ∈ starts ∧
      start.disk.lookupIn [] ⟨"p"⟩ ⟨"tools/moon"⟩ = .ok (["p", "tools", "moon"], tool) ∧
      start.executed [] = .error .notFound ∧ start.Fails := by
  obtain ⟨starts, start, hmakes, hstart, rfl⟩ := makes_toolArguments (.inl rfl)
  have hnamed : toolOutput.lookupIn [] ⟨"p"⟩ ⟨"tools/moon"⟩ =
      .ok (["p", "tools", "moon"], tool) := by
    have hplace : toolOutput.lookup [] ⟨"p"⟩ = .ok (["p"], .directory) :=
      Disk.lookup_of_names (by decide) (show _ = ["p"] by decide) (.into (by decide) rfl .stop)
    have hprogram : toolOutput.locate ["p"] ⟨"tools/moon"⟩ =
        .ok (.entry ["p", "tools", "moon"] tool) :=
      Disk.find_eq_ok_iff.2 ⟨⟨by decide, by decide, by decide, fun _ => rfl⟩,
        .into (by decide) rfl (.file (by decide) rfl)⟩
    rw [Disk.lookupIn_of_lookup hplace, Disk.lookup_of_locate hprogram]
  have hexecuted : toolOutput.lookupIn [] ⟨"/out"⟩ ⟨anchorProgram "tools/moon" ⟨"p"⟩⟩ =
      .error .notFound := by
    have hout : toolOutput.lookup [] ⟨"/out"⟩ = .ok (["out"], .directory) :=
      Disk.lookup_of_names (by decide) (show _ = ["out"] by decide) (.into (by decide) rfl .stop)
    have hadmits : toolOutput.Admits ["out"] ⟨anchorProgram "tools/moon" ⟨"p"⟩⟩ :=
      ⟨by decide, by decide, by decide, fun _ => rfl⟩
    rw [Disk.lookupIn_of_lookup hout]
    unfold Disk.lookup
    rw [Disk.locate_of_admits hadmits,
      show (Path.mk (anchorProgram "tools/moon" ⟨"p"⟩)).steps = ["p", "tools", "moon"] by decide,
      show Disk.start ["out"] ⟨anchorProgram "tools/moon" ⟨"p"⟩⟩ = ["out"] from rfl,
      Disk.walk_none (by decide) rfl]
    rfl
  refine ⟨starts, _, parse_toolArguments (.inl rfl), settings_toolArguments (.inl rfl), rfl, rfl,
    hmakes, hstart, hnamed, hexecuted, .notFound, ?_⟩
  exact Start.ending_of_missing (by decide) (by decide) (by decide) hexecuted

end Session

end LiterateCheck
