import LiterateCheck.Shell.Program
import LiterateCheck.Shell.Reader
import LiterateCheck.Shell.Wildcard

/-!
# Carrying out commands

A command is carried out in a process. Words are expanded first: parameters and captured output are
put in, fields are split at blanks, and wildcards are matched against the names on the disk. Steps
are bounded; a process that reaches the bound ends as if by a signal.
-/

namespace LiterateCheck.Shell

/-- The number under which a process names itself. -/
def processNumber : String := "1000"

/-- What comes before a complaint of the shell. -/
def complaintHead (line : Nat) : Act String := do
  return (← get).name ++ ": " ++ toString line ++ ": "

/-- A complaint of the shell. -/
def complainAt (line : Nat) (text : String) (status : Nat) : Act Nat := do
  Act.complain ((← complaintHead line) ++ text) status

/-! ## Parameters and fields -/

/-- The value of a parameter that is not a list. -/
def value? (name : String) : Act (Option String) := do
  let process ← get
  match name with
  | "?" => return some (toString process.status)
  | "#" => return some (toString process.arguments.length)
  | "$" => return some processNumber
  | "0" => return some process.name
  | "@" | "*" =>
    return if process.arguments.isEmpty then none else some (" ".intercalate process.arguments)
  | "PWD" => return some process.directory.path.text
  | _ =>
    match integer? name with
    | some n => return process.arguments[n.toNat - 1]?
    | none => return process.bindings.lookup name

/-- The glyphs of a value. -/
def glyphs (isQuoted : Bool) (value : String) : List Glyph :=
  if isQuoted then .mark :: value.toList.map .fixed else value.toList.map .plain

/-- Whether a glyph ends a field. -/
def Glyph.splits : Glyph → Bool
  | plain c => c == ' ' || c == '\t' || c == '\n'
  | cut => true
  | _ => false

/-- The fields that glyphs make. -/
def splitFields (glyphs : List Glyph) : List (List Glyph) :=
  (glyphs.splitOnP Glyph.splits).filter fun field => !field.isEmpty

/-- The paths below a prefix that match the names of a pattern, in order. -/
def matchPaths (disk : Disk) (directory : Location) : String → List (List Glyph) → List String
  | _, [] => []
  | stem, [last] =>
    (namesMatching disk directory stem last).map (stem ++ ·)
  | stem, step :: others =>
    (namesMatching disk directory stem step).flatMap fun name =>
      matchPaths disk directory (stem ++ name ++ "/") others
where
  /-- The names in a directory that match a pattern. Without wildcards the name itself is looked
  for. -/
  namesMatching (disk : Disk) (directory : Location) (stem : String) (pattern : List Glyph) :
      List String :=
    if pattern.any Glyph.isWild then
      match disk.list directory ⟨if stem.isEmpty then "." else stem⟩ with
      | .ok entries =>
        let hidden := (pattern.filterMap Glyph.char?).head? == some '.'
        (visibleNames hidden (entries.map Prod.fst)).filter fun name =>
          Wildcard.isMatch (Wildcard.ofGlyphs pattern) name.toList
      | .error _ => []
    else if disk.existsAt directory ⟨stem ++ Glyph.text pattern⟩ then [Glyph.text pattern]
    else []

/-- A field with its wildcards matched; without a match it stands for itself. -/
def matchField (process : Process) (field : List Glyph) : List String :=
  if field.any Glyph.isWild then
    let isSeparator (glyph : Glyph) : Bool := glyph.char? == some '/'
    let steps := field.splitOnP isSeparator
    let found :=
      match steps with
      | [] :: others => matchPaths process.disk process.directory "/" others
      | steps => matchPaths process.disk process.directory "" steps
    if found.isEmpty then [Glyph.text field] else found
  else [Glyph.text field]

/-! ## Builtin commands -/

/-- The options that the shell is set to. -/
def setOptions (arguments : List String) : Act Nat := do
  let rec read : List String → Act Unit
    | [] => pure ()
    | "--" :: rest => modify fun process => { process with arguments := rest }
    | option :: rest => do
      let letters := option.toList.drop 1
      if option.toList.head? == some '-' && letters.contains 'e' then
        modify fun process => { process with stopsOnFailure := true }
      else if option.toList.head? == some '+' && letters.contains 'e' then
        modify fun process => { process with stopsOnFailure := false }
      else pure ()
      read rest
  read arguments
  return 0

/-- Ends the process with a status, by default that of the last command. -/
def exit (line : Nat) : Utility := fun arguments => do
  match arguments with
  | [] => throw .ended
  | status :: _ =>
    match integer? status with
    | some n =>
      Act.setStatus (n % 256).toNat
      throw .ended
    | none =>
      Act.setStatus (← complainAt line ("exit: Illegal number: " ++ status) 2)
      throw .ended

/-- Sends a signal. Every signal but zero ends the process. -/
def kill : Utility := fun arguments => do
  let isProbe := arguments.contains "-0"
  if arguments.getLast? = some processNumber then
    if isProbe then return 0 else throw .killed
  else Act.complain "kill: No such process" 1

/-- Changes the directory. -/
def cd (line : Nat) : Utility := fun arguments => do
  let process ← get
  let target := (arguments.head?.or (process.bindings.lookup "HOME")).getD ""
  match process.disk.lookup process.directory ⟨target⟩ with
  | .ok (location, .directory) =>
    set { process with directory := location }
    return 0
  | _ => complainAt line ("cd: can\x27t cd to " ++ target) 2

/-- Reads a line of the input into variables. -/
def readLine : Utility := fun arguments => do
  let names := arguments.filter fun argument => argument.toList.head? != some '-'
  let input := (← get).input
  let line := input.takeWhile (· != 10)
  modify fun process => { process with input := (input.drop line.length).drop 1 }
  let text := Text.trim (Text.ofRaw line)
  let rec assign : List String → List Char → Act Unit
    | [], _ => pure ()
    | [name], text => Act.setVariable name (String.ofList text)
    | name :: names, text => do
      Act.setVariable name (String.ofList (firstWord text).1)
      assign names (firstWord text).2
  assign names text
  return if input.contains 10 then 0 else 1

/-- Sets variables from arguments that assign. -/
def exportVariables : Utility := fun arguments => do
  arguments.forM fun argument => do
    match assignment? argument.toList with
    | some (name, value) => Act.setVariable name (String.ofList value)
    | none => pure ()
  return 0

/-- The commands that the shell carries out itself. -/
def builtin? (line : Nat) : String → Option Utility
  | ":" | "trap" | "umask" | "wait" => some fun _ => pure 0
  | "true" => some fun _ => pure 0
  | "false" => some fun _ => pure 1
  | "echo" => some (echo true)
  | "printf" => some printf
  | "test" => some fun arguments => do test (← complaintHead line) arguments
  | "[" => some fun arguments => do bracket (← complaintHead line) arguments
  | "pwd" => some pwd
  | "exit" | "return" => some (exit line)
  | "set" => some setOptions
  | "kill" => some kill
  | "cd" => some (cd line)
  | "read" => some readLine
  | "export" | "readonly" | "local" => some exportVariables
  | "unset" =>
    some fun names => do
      modify fun process =>
        { process with bindings := process.bindings.filter fun item => !names.contains item.1 }
      return 0
  | "shift" =>
    some fun counts => do
      let count := ((counts.head?.bind integer?).getD 1).toNat
      modify fun process => { process with arguments := process.arguments.drop count }
      return 0
  | "break" => some fun _ => do throw .leavesLoop
  | "continue" => some fun _ => do throw .repeatsLoop
  | _ => none

/-! ## Commands -/

/-- Whether a word holds captured output. -/
def Word.captures (word : Word) : Bool :=
  word.any fun
    | .captured .. => true
    | _ => false

/-- What a stream's target does with what is written. -/
def sinkTo (line : Nat) (append : Bool) (path : String) :
    Act (Option (List UInt8 → Act Unit)) := do
  match path with
  | "/dev/null" => return some fun _ => pure ()
  | "/dev/stdout" => return some (Act.writeBytes .output)
  | "/dev/stderr" => return some (Act.writeBytes .errors)
  | _ =>
    let directory := (← get).directory
    let put (keep : Bool) (bytes : List UInt8) : Act (Option SystemError) :=
      Act.onDisk fun _ =>
        OnDisk.change (Disk.writeBytes directory ⟨path⟩ keep ⟨bytes.toArray⟩)
    match ← put append [] with
    | none => return some fun bytes => discard (put true bytes)
    | some reason =>
      let text :=
        if reason = .notFound || reason = .notDirectory then "Directory nonexistent"
        else reason.text
      Act.setStatus (← complainAt line ("cannot create " ++ path ++ ": " ++ text) 2)
      return none

/-- The shell's words for why a file cannot be read. -/
def openText (reason : SystemError) : String :=
  if reason = .notFound || reason = .notDirectory then "No such file" else reason.text

/-- The bytes of a file that is read in place of the input. -/
def sourceOf (line : Nat) (path : String) : Act (Option (List UInt8)) := do
  let process ← get
  if path = "/dev/null" then return some []
  else
    match process.disk.bytesAt process.directory ⟨path⟩ with
    | .ok content => return some content.toList
    | .error reason =>
      Act.setStatus (← complainAt line ("cannot open " ++ path ++ ": " ++ openText reason) 2)
      return none

/-- Runs something with other input. -/
def withInput (input : List UInt8) (act : Act Unit) : Act Unit := do
  let before := (← get).input
  modify fun process => { process with input := input }
  let result ← Act.attempt act
  modify fun process => { process with input := before }
  Act.resume result

/-- Cuts what a pattern matches off a value. -/
def Trim.apply (trim : Trim) (pattern : List Wildcard) (value : List Char) : List Char :=
  let lengths := List.range (value.length + 1)
  match trim with
  | shortestFront => Wildcard.cutFront pattern value lengths
  | longestFront => Wildcard.cutFront pattern value lengths.reverse
  | shortestBack => Wildcard.cutBack pattern value lengths.reverse
  | longestBack => Wildcard.cutBack pattern value lengths

mutual

/-- Expands the parts of a word. -/
def expand : Nat → Word → Act (List Glyph)
  | 0, _ => throw .exhausted
  | _, [] => return []
  | fuel + 1, part :: rest => do
    let here ← expandPart fuel part
    return here ++ (← expand fuel rest)

def expandPart : Nat → Part → Act (List Glyph)
  | 0, _ => throw .exhausted
  | _, .plain c => return [.plain c]
  | _, .quoted text => return glyphs true text
  | _, .parameter true "@" => do
    let arguments := (← get).arguments
    return [Glyph.cut].intercalate (arguments.map (glyphs true))
  | _, .parameter isQuoted name => do
    return glyphs isQuoted ((← value? name).getD "")
  | fuel + 1, .fallback isQuoted name onEmpty word => do
    match ← value? name with
    | some value =>
      if onEmpty && value.isEmpty then expand fuel word else return glyphs isQuoted value
    | none => expand fuel word
  | fuel + 1, .trimmed isQuoted name trim pattern => do
    let value := ((← value? name).getD "").toList
    let pattern := Wildcard.ofGlyphs (← expand fuel pattern)
    return glyphs isQuoted (String.ofList (trim.apply pattern value))
  | fuel + 1, .captured isQuoted script => do
    let bytes ← Act.capture (carryOut fuel script)
    let text := Text.dropEndWhile (· == '\n') (Text.ofRaw bytes)
    return glyphs isQuoted (String.ofList text)

/-- Carries out a command, and leaves its status in the process. -/
def carryOut : Nat → Command → Act Unit
  | 0, _ => throw .exhausted
  | _, .skip => pure ()
  | fuel + 1, .sequence first second => do
    carryOut fuel first
    carryOut fuel second
  | fuel + 1, .pipe left right => do
    let bytes ← Act.capture (carryOut fuel left)
    withInput bytes (Act.apart (carryOut fuel right))
    Act.checkFailure
  | fuel + 1, .both first second => do
    Act.guarded (carryOut fuel first)
    if (← get).status = 0 then carryOut fuel second else pure ()
  | fuel + 1, .either first second => do
    Act.guarded (carryOut fuel first)
    if (← get).status = 0 then pure () else carryOut fuel second
  | fuel + 1, .negation body => do
    Act.guarded (carryOut fuel body)
    Act.setStatus (if (← get).status = 0 then 1 else 0)
  | fuel + 1, .subshell body => do
    Act.apart (carryOut fuel body)
    Act.checkFailure
  | fuel + 1, .branch condition body otherwise => do
    Act.guarded (carryOut fuel condition)
    let holds := (← get).status = 0
    Act.setStatus 0
    if holds then carryOut fuel body else carryOut fuel otherwise
  | fuel + 1, .loop expected condition body => do
    Act.guarded (carryOut fuel condition)
    let goesOn := ((← get).status = 0) = (expected = true)
    Act.setStatus 0
    if goesOn then
      match ← Act.attempt (carryOut fuel body) with
      | .error .leavesLoop => pure ()
      | .error .repeatsLoop | .ok () => carryOut fuel (.loop expected condition body)
      | .error interrupt => throw interrupt
    else pure ()
  | fuel + 1, .each name words body => do
    let items ← expandWords fuel words
    let result ← Act.attempt <| items.forM fun item => do
      Act.setVariable name item
      match ← Act.attempt (carryOut fuel body) with
      | .error .repeatsLoop => pure ()
      | result => Act.resume result
    match result with
    | .error .leavesLoop => pure ()
    | result => Act.resume result
  | fuel + 1, .choice subject cases => do
    let value := (Glyph.text (← expand fuel subject)).toList
    choose fuel value cases
  | fuel + 1, .redirected line redirection body => do
    match redirection with
    | .toStream stream target => Act.routed stream (Act.writeBytes target) (carryOut fuel body)
    | .toFile stream append target =>
      match ← sinkTo line append (Glyph.text (← expand fuel target)) with
      | some sink => Act.routed stream sink (carryOut fuel body)
      | none => Act.checkFailure
    | .fromFile source =>
      match ← sourceOf line (Glyph.text (← expand fuel source)) with
      | some bytes => withInput bytes (carryOut fuel body)
      | none => Act.checkFailure
    | .fromText text =>
      withInput (Text.rawBytes (Glyph.text (← expand fuel text))) (carryOut fuel body)
  | fuel + 1, .simple line assignments words => do
    let arguments ← expandWords fuel words
    let values ← expandValues fuel assignments
    match arguments with
    | [] =>
      if (words ++ assignments.map Prod.snd).any Word.captures then pure () else Act.setStatus 0
      values.forM fun (name, value) => Act.setVariable name value
    | name :: arguments =>
      let before := (← get).bindings
      values.forM fun (name, value) => Act.setVariable name value
      callNamed fuel line name arguments
      if values.isEmpty then pure ()
      else modify fun process => { process with bindings := before }
    Act.checkFailure

/-- The fields of some words, with wildcards matched. -/
def expandWords : Nat → List Word → Act (List String)
  | 0, _ => throw .exhausted
  | _, [] => return []
  | fuel + 1, word :: words => do
    let fields := splitFields (← expand fuel word)
    let process ← get
    return fields.flatMap (matchField process) ++ (← expandWords fuel words)

/-- The values of some assignments, whose fields are not split. -/
def expandValues : Nat → List (String × Word) → Act (List (String × String))
  | 0, _ => throw .exhausted
  | _, [] => return []
  | fuel + 1, (name, word) :: others => do
    let value := Glyph.text (← expand fuel word)
    return (name, value) :: (← expandValues fuel others)

/-- Carries out the first case with a pattern that matches. -/
def choose : Nat → List Char → List (List Word × Command) → Act Unit
  | 0, _, _ => throw .exhausted
  | _, _, [] => Act.setStatus 0
  | fuel + 1, value, (patterns, body) :: cases => do
    if ← matchesAny fuel value patterns then
      Act.setStatus 0
      carryOut fuel body
    else choose fuel value cases

/-- Whether a value matches one of some patterns. -/
def matchesAny : Nat → List Char → List Word → Act Bool
  | 0, _, _ => throw .exhausted
  | _, _, [] => return false
  | fuel + 1, value, pattern :: patterns => do
    if Wildcard.isMatch (Wildcard.ofGlyphs (← expand fuel pattern)) value then return true
    else matchesAny fuel value patterns

/-- Calls a builtin command or a program. -/
def callNamed : Nat → Nat → String → List String → Act Unit
  | 0, _, _, _ => throw .exhausted
  | fuel + 1, line, name, arguments => do
    match name, arguments with
    | "eval", arguments => readAndRun fuel (" ".intercalate arguments)
    | "command", name :: arguments => callNamed fuel line name arguments
    | "exec", name :: arguments =>
      callNamed fuel line name arguments
      throw .ended
    | ".", path :: _ =>
      match ← sourceOf line path with
      | some bytes => readAndRun fuel (String.ofList (Text.ofRaw bytes))
      | none => throw .ended
    | name, arguments =>
      match builtin? line name with
      | some action => Act.setStatus (← action arguments)
      | none =>
        let process ← get
        match Program.find process.disk process.directory name arguments with
        | .ok program => Act.apart (launch fuel program)
        | .error .execFormat =>
          match process.disk.bytesAt process.directory ⟨name⟩ with
          | .ok content => Act.apart (launch fuel (.script name (scriptText content) arguments))
          | .error _ => Act.setStatus 126
        | .error .notFound => Act.setStatus (← complainAt line (name ++ ": not found") 127)
        | .error reason => Act.setStatus (← complainAt line (name ++ ": " ++ reason.text) 126)

/-- Reads a script and carries it out. -/
def readAndRun : Nat → String → Act Unit
  | 0, _ => throw .exhausted
  | fuel + 1, text => do
    match Command.ofScript? text with
    | some command => carryOut fuel command
    | none =>
      let line := text.toList.count '\n' + 1
      Act.setStatus (← complainAt line "Syntax error: end of file unexpected" 2)
      throw .ended

/-- Carries out a program in place of the process. -/
def launch : Nat → Program → Act Unit
  | 0, _ => throw .exhausted
  | _, .utility action arguments => do
    Act.setStatus (← action arguments)
  | fuel + 1, .script name text arguments => do
    modify fun process => { process with name := name, arguments := arguments, status := 0 }
    readAndRun fuel text
  | fuel + 1, .shell arguments => do
    let process ← get
    match arguments with
    | "-c" :: text :: rest =>
      launch fuel (.script (rest.head?.getD "sh") text rest.tail)
    | [] => launch fuel (.script "sh" (String.ofList (Text.ofRaw process.input)) [])
    | path :: rest =>
      if path.toList.head? == some '-' && 1 < path.length then
        discard (setOptions [path])
        launch fuel (.shell rest)
      else
        match process.disk.bytesAt process.directory ⟨path⟩ with
        | .ok content => launch fuel (.script path (scriptText content) rest)
        | .error .isDirectory => Act.setStatus 0
        | .error reason =>
          let text := "sh: 0: cannot open " ++ path ++ ": " ++ openText reason
          Act.setStatus (← Act.complain text 2)

end

end LiterateCheck.Shell
