import LiterateCheck.Text.Stray

/-!
# Paths

A path is kept as it was written, and is shown that way but for stray bytes. What it means is the
list of its components: repeated separators and inner `.` do not count, a leading `.` and every `..`
do. Comparison, prefixes and file names go by components.
-/

namespace LiterateCheck

/-- One step of a path. -/
inductive Component where
  /-- The separator at the start of an absolute path. -/
  | root
  /-- A `.` at the start of a relative path. -/
  | here
  /-- A `..`. -/
  | up
  | name (text : String)
  deriving DecidableEq, Repr

namespace Component

def text : Component → String
  | root => "/"
  | here => "."
  | up => ".."
  | name text => text

/-- The place of a kind of component in the order of components. -/
def rank : Component → Nat
  | root => 0
  | here => 1
  | up => 2
  | name _ => 3

/-- By kind, then names by their bytes. The last comparison is for texts that no system gives, two of
which may stand for the same bytes. -/
def compare (a b : Component) : Ordering :=
  (Ord.compare a.rank b.rank).then
    ((Ord.compare (Text.rawBytes a.text) (Text.rawBytes b.text)).then (Ord.compare a.text b.text))

end Component

/-- A path as it was written. -/
structure Path where
  text : String
  deriving DecidableEq, Repr, Hashable, Inhabited

namespace Path

/-- The parts of a path between its separators. -/
def parts (path : Path) : List String :=
  (path.text.toList.splitOn '/').map String.ofList

def isAbsolute (path : Path) : Bool :=
  path.text.toList.head? == some '/'

def isEmpty (path : Path) : Bool :=
  path.text.isEmpty

/-- The number of bytes of a path. -/
def size (path : Path) : Nat :=
  Text.rawSize path.text

/-- A path as it is shown. -/
def shown (path : Path) : String :=
  Text.shown path.text

/-- The component that a part after the first stands for. -/
def component? (part : String) : Option Component :=
  if part = "" ∨ part = "." then none
  else if part = ".." then some .up
  else some (.name part)

/-- The steps of a path. -/
def components (path : Path) : List Component :=
  if path.isAbsolute then .root :: path.parts.filterMap component?
  else
    match path.parts with
    | "." :: others => .here :: others.filterMap component?
    | parts => parts.filterMap component?

/-- The second path as seen from the first: an absolute path stands for itself, and joining the
empty path leaves a separator at the end. -/
def join (base path : Path) : Path :=
  if path.isAbsolute then path
  else if base.text.isEmpty || base.text.toList.getLast? == some '/' then
    ⟨base.text ++ path.text⟩
  else ⟨base.text ++ "/" ++ path.text⟩

/-- The last component, when it is a name. -/
def fileName? (path : Path) : Option String :=
  match path.components.getLast? with
  | some (.name text) => some text
  | _ => none

/-- What follows the last point of the file name, when something stands before that point. -/
def extension? (path : Path) : Option String := do
  let name ← path.fileName?
  let reversed := name.toList.reverse
  let after := reversed.takeWhile (· != '.')
  match reversed.dropWhile (· != '.') with
  | _ :: _ :: _ => some (String.ofList after.reverse)
  | _ => none

/-- Drops empty parts and parts `.` at the end, as long as one part is left. -/
def dropIdleEnd (parts : List String) : List String :=
  match parts with
  | [] => []
  | first :: others =>
    first :: (others.reverse.dropWhile fun part => part == "" || part == ".").reverse

/-- The path without its last component; the root and the empty path have no parent. -/
def parent? (path : Path) : Option Path :=
  match path.components.getLast? with
  | none | some .root => none
  | some _ =>
    let left := dropIdleEnd (dropIdleEnd path.parts).dropLast
    if path.isAbsolute && left == [""] then some ⟨"/"⟩
    else some ⟨"/".intercalate left⟩

/-- Whether the components of `stem` begin those of the path. -/
def startsWith (path stem : Path) : Bool :=
  stem.components.isPrefixOf path.components

/-- The path with these components. -/
def ofComponents : List Component → Path
  | .root :: others => ⟨"/" ++ "/".intercalate (others.map Component.text)⟩
  | steps => ⟨"/".intercalate (steps.map Component.text)⟩

/-- The components after those of `stem`. -/
def relativeTo? (path stem : Path) : Option (List Component) :=
  if path.startsWith stem then some (path.components.drop stem.components.length) else none

/-- Whether two paths have the same components. -/
def same (a b : Path) : Bool :=
  a.components == b.components

/-- Component by component, a shorter path before its extensions. -/
def compareComponents : List Component → List Component → Ordering
  | [], [] => .eq
  | [], _ :: _ => .lt
  | _ :: _, [] => .gt
  | a :: as, b :: bs => (a.compare b).then (compareComponents as bs)

def compare (a b : Path) : Ordering :=
  compareComponents a.components b.components

/-- Paths in increasing order; paths with the same components keep their order. -/
def sort (paths : List Path) : List Path :=
  paths.mergeSort fun a b => (a.compare b).isLE

/-- The path made absolute against the directory `cwd`: inner `.` and repeated separators go,
`..` and a final separator stay, and two leading separators stay two. The empty path has no
absolute form. -/
def absolute? (cwd path : Path) : Option Path :=
  if path.isEmpty then none
  else
    let steps := path.components.filter fun step => step != .here && step != .root
    let start : Path :=
      if path.isAbsolute then
        match path.text.toList with
        | '/' :: '/' :: next => if next.head? == some '/' then ⟨"/"⟩ else ⟨"//"⟩
        | _ => ⟨"/"⟩
      else cwd
    let whole := steps.foldl (fun base step => base.join ⟨step.text⟩) start
    if path.text.toList.getLast? == some '/' then some (whole.join ⟨""⟩) else some whole

end Path

end LiterateCheck
