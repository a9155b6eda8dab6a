import LiterateCheck.Shell.Process
import LiterateCheck.Text.Number

/-!
# Utilities

The programs that scripts call. Each takes its arguments and gives a status.
-/

namespace LiterateCheck.Shell

/-- A program, given its arguments. -/
abbrev Utility := List String → Act Nat

/-! ## Text -/

/-- The value of up to `width` octal digits at the front of a text, and what follows them. -/
def octal (width : Nat) (text : List Char) : Nat × List Char :=
  let digits := (text.take width).takeWhile fun c => '0' ≤ c && c ≤ '7'
  (digits.foldl (fun value c => 8 * value + (c.toNat - '0'.toNat)) 0, text.drop digits.length)

/-- The control character that a letter stands for after a backslash. -/
def controlOf? : Char → Option Char
  | 'a' => some '\x07'
  | 'b' => some '\x08'
  | 'e' => some '\x1b'
  | 'f' => some '\x0c'
  | 'n' => some '\n'
  | 'r' => some '\r'
  | 't' => some '\t'
  | 'v' => some '\x0b'
  | '\\' => some '\\'
  | _ => none

/-- The bytes of a text with backslash escapes, and whether `\c` ended it. With `leadingZero` an
octal number needs a zero before its digits. -/
def unescapeWith (leadingZero : Bool) : Nat → List Char → List UInt8 × Bool
  | 0, _ => ([], false)
  | _, [] => ([], false)
  | fuel + 1, '\\' :: c :: rest =>
    let after (bytes : List UInt8) (rest : List Char) : List UInt8 × Bool :=
      let (others, isEnd) := unescapeWith leadingZero fuel rest
      (bytes ++ others, isEnd)
    if c == 'c' then ([], true)
    else if leadingZero && c == '0' then
      after [(octal 3 rest).1.toUInt8] (octal 3 rest).2
    else if !leadingZero && '0' ≤ c && c ≤ '7' then
      after [(octal 3 (c :: rest)).1.toUInt8] (octal 3 (c :: rest)).2
    else
      match controlOf? c with
      | some control => after control.toString.toUTF8.toList rest
      | none => after "\\".toUTF8.toList (c :: rest)
  | fuel + 1, '\x00' :: c :: rest =>
    let (others, isEnd) := unescapeWith leadingZero fuel rest
    (.ofNat c.toNat :: others, isEnd)
  | fuel + 1, c :: rest =>
    let (others, isEnd) := unescapeWith leadingZero fuel rest
    (c.toString.toUTF8.toList ++ others, isEnd)

def unescape (leadingZero : Bool) (text : List Char) : List UInt8 × Bool :=
  unescapeWith leadingZero text.length text

/-- Writes its arguments on a line. With `escapes`, backslashes are read. -/
def echo (escapes : Bool) : Utility := fun arguments => do
  let (newline, arguments) :=
    match arguments with
    | "-n" :: rest => (false, rest)
    | rest => (true, rest)
  let text := " ".intercalate arguments
  let (bytes, isEnd) :=
    if escapes then unescape true text.toList else (Text.rawBytes text, false)
  Act.writeBytes .output (bytes ++ if newline && !isEnd then [10] else [])
  return 0

/-- One pass over a format. Gives the bytes, the arguments that are left, whether any was asked for,
and whether the output ends. -/
def format : Nat → List Char → List String → List UInt8 × List String × Bool × Bool
  | 0, _, arguments => ([], arguments, false, false)
  | _, [], arguments => ([], arguments, false, false)
  | fuel + 1, '%' :: '%' :: rest, arguments =>
    let (bytes, left, used, isEnd) := format fuel rest arguments
    (37 :: bytes, left, used, isEnd)
  | fuel + 1, '%' :: c :: rest, arguments =>
    let argument := arguments.head?.getD ""
    let (here, isEnd) :=
      if c == 'b' then unescape true argument.toList
      else if (c == 'd' || c == 'i' || c == 'u') && argument.isEmpty then ([48], false)
      else if c == 'c' then ((argument.take 1).toString.toUTF8.toList, false)
      else (Text.rawBytes argument, false)
    if isEnd then (here, arguments.tail, true, true)
    else
      let (bytes, left, _, isEnd) := format fuel rest arguments.tail
      (here ++ bytes, left, true, isEnd)
  | fuel + 1, '\\' :: c :: rest, arguments =>
    let width :=
      if '0' ≤ c && c ≤ '7' then
        1 + (((c :: rest).take 3).takeWhile fun d => '0' ≤ d && d ≤ '7').length
      else 2
    let (here, isEnd) := unescape false (('\\' :: c :: rest).take width)
    if isEnd then (here, arguments, false, true)
    else
      let (bytes, left, used, isEnd) := format fuel (rest.drop (width - 2)) arguments
      (here ++ bytes, left, used, isEnd)
  | fuel + 1, '\x00' :: c :: rest, arguments =>
    let (bytes, left, used, isEnd) := format fuel rest arguments
    (.ofNat c.toNat :: bytes, left, used, isEnd)
  | fuel + 1, c :: rest, arguments =>
    let (bytes, left, used, isEnd) := format fuel rest arguments
    (c.toString.toUTF8.toList ++ bytes, left, used, isEnd)

/-- A format for all arguments: it is used again while arguments are left. -/
def formatAll : Nat → List Char → List String → List UInt8
  | 0, _, _ => []
  | fuel + 1, spec, arguments =>
    let (bytes, left, used, isEnd) := format spec.length spec arguments
    if isEnd || left.isEmpty || !used then bytes else bytes ++ formatAll fuel spec left

def printf : Utility := fun arguments =>
  match arguments with
  | [] => Act.complain "printf: usage: printf format [arg ...]" 2
  | spec :: arguments => do
    Act.writeBytes .output (formatAll (arguments.length + 1) spec.toList arguments)
    return 0

/-- The whole number that a text spells. -/
def integer? (text : String) : Option Int :=
  let digits (text : List Char) : Option Int :=
    if text.isEmpty || !text.all Char.isDigit then none else some (Text.digitsValue text)
  match text.toList with
  | '-' :: rest => (digits rest).map (- ·)
  | '+' :: rest => digits rest
  | rest => digits rest

/-! ## Conditions -/

/-- A condition with a fault has a complaint in place of a value. -/
abbrev Verdict := Except String Bool

/-- Whether a condition on two texts holds. -/
def compareTexts (operator left right : String) : Verdict :=
  let number (text : String) : Except String Int :=
    match integer? text with
    | some n => .ok n
    | none => .error ("Illegal number: " ++ text)
  let numbers (p : Int → Int → Bool) : Verdict := do
    return p (← number left) (← number right)
  match operator with
  | "=" => .ok (left == right)
  | "!=" => .ok (left != right)
  | "-eq" => numbers (· == ·)
  | "-ne" => numbers (· != ·)
  | "-lt" => numbers (· < ·)
  | "-le" => numbers (· ≤ ·)
  | "-gt" => numbers (fun a b => b < a)
  | "-ge" => numbers (fun a b => b ≤ a)
  | _ => .error (operator ++ ": unexpected operator")

/-- Whether a condition on one text holds. -/
def examine (process : Process) (operator operand : String) : Verdict :=
  let found := process.disk.lookup process.directory ⟨operand⟩
  match operator with
  | "-n" => .ok (!operand.isEmpty)
  | "-z" => .ok operand.isEmpty
  | "-e" | "-r" | "-w" => .ok (process.disk.existsAt process.directory ⟨operand⟩)
  | "-f" => .ok (process.disk.isFile process.directory ⟨operand⟩)
  | "-d" => .ok (process.disk.isDirectory process.directory ⟨operand⟩)
  | "-s" =>
    .ok <| match found with
      | .ok (_, .file content _) => 0 < content.size
      | .ok _ => true
      | .error _ => false
  | "-x" =>
    .ok <| match found with
      | .ok (_, .file _ executable) => executable
      | .ok _ => true
      | .error _ => false
  | _ => .error (operator ++ ": unexpected operator")

/-- What a condition gives. -/
def condition (process : Process) : List String → Verdict
  | [] => .ok false
  | [text] => .ok (!text.isEmpty)
  | ["!", text] => .ok text.isEmpty
  | [operator, operand] => examine process operator operand
  | ["!", operator, operand] => (examine process operator operand).map not
  | [left, operator, right] => compareTexts operator left right
  | ["!", left, operator, right] => (compareTexts operator left right).map not
  | _ :: operator :: _ => .error (operator ++ ": unexpected operator")

/-- Tests a condition; `head` comes before a complaint. -/
def test (head : String) : Utility := fun arguments => do
  match condition (← get) arguments with
  | .ok holds => return if holds then 0 else 1
  | .error complaint => Act.complain (head ++ "test: " ++ complaint) 2

/-- Tests a condition with a closing bracket. -/
def bracket (head : String) : Utility := fun arguments => do
  if arguments.getLast? != some "]" then Act.complain (head ++ "[: missing ]") 2
  else
    match condition (← get) arguments.dropLast with
    | .ok holds => return if holds then 0 else 1
    | .error complaint => Act.complain (head ++ "[: " ++ complaint) 2

/-! ## Paths -/

/-- The last name of a path, without a suffix that is not all of it. -/
def basename : Utility := fun arguments => do
  match arguments with
  | path :: rest =>
    let name :=
      match (Path.names ⟨path⟩).getLast? with
      | some name => name
      | none => if path.isEmpty then "" else "/"
    let suffix := rest.head?.getD ""
    let kept :=
      if name != suffix && suffix.toList.isSuffixOf name.toList then
        String.ofList (name.toList.take (name.toList.length - suffix.toList.length))
      else name
    Act.write .output (kept ++ "\n")
    return 0
  | [] => Act.complain "basename: missing operand" 1

/-- A path without its last name. -/
def dirname : Utility := fun arguments => do
  match arguments with
  | path :: _ =>
    let parts := (Path.parts ⟨path⟩).reverse.dropWhile (·.isEmpty)
    let stem := (parts.drop 1).dropWhile (·.isEmpty)
    let isAbsolute := (Path.mk path).isAbsolute
    let text :=
      if stem.isEmpty then (if isAbsolute then "/" else ".")
      else "/".intercalate stem.reverse
    Act.write .output (text ++ "\n")
    return 0
  | [] => Act.complain "dirname: missing operand" 1

/-- The absolute path of the directory. -/
def pwd : Utility := fun _ => do
  Act.write .output ((← get).directory.path.text ++ "\n")
  return 0

/-! ## Files -/

/-- Carries something out for each argument; the greatest status counts. -/
def forAll (action : String → Act Nat) (arguments : List String) : Act Nat :=
  arguments.foldlM (fun status argument => do return max status (← action argument)) 0

/-- Splits options off the front of arguments. -/
def splitOptions (arguments : List String) : List Char × List String :=
  let isOption (argument : String) : Bool :=
    argument.toList.head? == some '-' && 1 < argument.length
  let options := arguments.takeWhile isOption
  ((options.flatMap fun option => option.toList.drop 1),
    (arguments.drop options.length))

/-- Writes files, or its input when none is named. -/
def cat : Utility := fun arguments => do
  let copyInput : Act Nat := do
    Act.writeBytes .output (← get).input
    modify fun process => { process with input := [] }
    return 0
  if arguments.isEmpty then copyInput
  else
    forAll (fun path => do
      if path = "-" then copyInput
      else
        let process ← get
        match process.disk.bytesAt process.directory ⟨path⟩ with
        | .ok content =>
          Act.writeBytes .output content.toList
          return 0
        | .error reason => Act.complain ("cat: " ++ path ++ ": " ++ reason.text) 1) arguments

/-- The names in a directory in the order of their bytes, hidden ones only when asked for. -/
def visibleNames (all : Bool) (names : List String) : List String :=
  (names.filter fun name => all || name.toList.head? != some '.').mergeSort fun a b =>
    (compare (Text.rawBytes a) (Text.rawBytes b)).isLE

/-- Lists directories and files. -/
def ls : Utility := fun arguments => do
  let (options, paths) := splitOptions arguments
  let all := options.contains 'a' || options.contains 'A'
  let process ← get
  let listing (path : String) : List String :=
    match process.disk.list process.directory ⟨path⟩ with
    | .ok entries =>
      let dots := if options.contains 'a' then [".", ".."] else []
      dots ++ visibleNames all (entries.map Prod.fst)
    | .error _ => []
  let lines (names : List String) : String := String.join (names.map (· ++ "\n"))
  let paths := (if paths.isEmpty then ["."] else paths).mergeSort fun a b => a ≤ b
  let present (path : String) : Bool := process.disk.existsAt process.directory ⟨path⟩
  let isDirectory (path : String) : Bool :=
    !options.contains 'd' && process.disk.isDirectory process.directory ⟨path⟩
  (paths.filter fun path => !present path).forM fun path =>
    match process.disk.lookup process.directory ⟨path⟩ with
    | .ok _ => pure ()
    | .error reason =>
      Act.write .errors ("ls: cannot access '" ++ path ++ "': " ++ reason.text ++ "\n")
  let found := paths.filter present
  let files := found.filter fun path => !isDirectory path
  let directories := found.filter isDirectory
  Act.write .output (lines files)
  let blocks := directories.map fun path =>
    (if paths.length = 1 then "" else path ++ ":\n") ++ lines (listing path)
  let gap := if files.isEmpty || blocks.isEmpty then "" else "\n"
  Act.write .output (gap ++ "\n".intercalate blocks)
  return if paths.all present then 0 else 2

/-- Changes the disk for each path that is named. -/
def changing (name : String) (action : String → Location → OnDisk Unit)
    (describe : String → String) : Utility := fun arguments => do
  let (_, paths) := splitOptions arguments
  forAll (fun path => do
    match ← Act.onDisk (action path) with
    | none => return 0
    | some reason => Act.complain (name ++ ": " ++ describe path ++ ": " ++ reason.text) 1) paths

/-- Makes files that are missing. -/
def touch : Utility :=
  changing "touch"
    (fun path directory => do
      if (← get).existsAt directory ⟨path⟩ then pure ()
      else OnDisk.change (Disk.writeBytes directory ⟨path⟩ true ByteArray.empty))
    fun path => "cannot touch '" ++ path ++ "'"

/-- Makes directories, with `-p` also those that lead to them. -/
def mkdir : Utility := fun arguments =>
  changing "mkdir"
    (fun path directory =>
      if (splitOptions arguments).1.contains 'p' then Disk.makeAll directory ⟨path⟩
      else OnDisk.change (Disk.makeDirectory directory ⟨path⟩))
    (fun path => "cannot create directory '" ++ path ++ "'") arguments

/-- Removes files, with `-r` also directories; with `-f` a missing file is no failure. -/
def rm : Utility := fun arguments =>
  let options := (splitOptions arguments).1
  let isRecursive := options.contains 'r' || options.contains 'R'
  changing "rm"
    (fun path directory => do
      match (← get).find directory false ⟨path⟩ (Path.steps ⟨path⟩) with
      | .ok (.entry location entry) =>
        if entry.isDirectory && !isRecursive then throw .isDirectory
        else modify fun disk => disk.remove location
      | .ok (.vacant ..) => if options.contains 'f' then pure () else throw .notFound
      | .error reason => if options.contains 'f' then pure () else throw reason)
    (fun path => "cannot remove '" ++ path ++ "'") arguments

/-- Copies a file to a file or into a directory. -/
def cp : Utility := fun arguments => do
  match (splitOptions arguments).2 with
  | [source, target] =>
    let process ← get
    let inside := process.disk.isDirectory process.directory ⟨target⟩
    let target : Path :=
      if inside then (Path.mk target).join ⟨(Path.mk source).fileName?.getD ""⟩ else ⟨target⟩
    match ← Act.onDisk fun directory =>
        OnDisk.change (Disk.copyFile directory ⟨source⟩ target) with
    | none => return 0
    | some reason => Act.complain ("cp: cannot stat '" ++ source ++ "': " ++ reason.text) 1
  | _ => Act.complain "cp: missing file operand" 1

/-! ## Lines -/

/-- The lines of some bytes, each with its end. -/
def byteLines (bytes : List UInt8) : List (List UInt8) :=
  let pieces := bytes.splitOn 10
  pieces.dropLast.map (· ++ [10]) ++ (pieces.getLast?.toList.filter fun piece => !piece.isEmpty)

/-- The lines at the front of a file, or of the input. -/
def head : Utility := fun arguments => do
  let (count, paths) :=
    match arguments with
    | "-n" :: count :: paths => (((integer? count).getD 10).toNat, paths)
    | paths => (10, paths)
  let process ← get
  let write (bytes : List UInt8) : Act Nat := do
    Act.writeBytes .output ((byteLines bytes).take count).flatten
    return 0
  match paths with
  | [] =>
    set { process with input := [] }
    write process.input
  | path :: _ =>
    match process.disk.bytesAt process.directory ⟨path⟩ with
    | .ok content => write content.toList
    | .error reason =>
      Act.complain ("head: cannot open '" ++ path ++ "' for reading: " ++ reason.text) 1

/-- Numbers on lines of their own. -/
def seq : Utility := fun arguments => do
  let numbers (first last : Int) : String :=
    let count := (last - first + 1).toNat
    String.join ((List.range count).map fun (k : Nat) => toString (first + Int.ofNat k) ++ "\n")
  match arguments.map integer? with
  | [some last] =>
    Act.write .output (numbers 1 last)
    return 0
  | [some first, some last] =>
    Act.write .output (numbers first last)
    return 0
  | _ => Act.complain "seq: missing operand" 1

/-- The programs that are always there. -/
def utility? : String → Option Utility
  | "true" => some fun _ => pure 0
  | "false" => some fun _ => pure 1
  | "sleep" | "sync" => some fun _ => pure 0
  | "echo" => some (echo false)
  | "printf" => some printf
  | "test" => some (test "")
  | "[" => some (bracket "")
  | "basename" => some basename
  | "dirname" => some dirname
  | "pwd" => some pwd
  | "cat" => some cat
  | "ls" => some ls
  | "touch" => some touch
  | "mkdir" => some mkdir
  | "rm" => some rm
  | "cp" => some cp
  | "head" => some head
  | "seq" => some seq
  | _ => none

end LiterateCheck.Shell
