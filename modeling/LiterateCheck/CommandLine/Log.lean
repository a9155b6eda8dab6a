import LiterateCheck.Notice

/-!
# The log

A notice is shown on a line of its own when the log's filter lets its level through. With colour,
the level and the names of fields are marked.
-/

namespace LiterateCheck

/-- The notices that a log shows. -/
inductive LogFilter where
  | nothing
  | warnings
  | everything
  deriving DecidableEq, Repr

namespace LogFilter

def shows : LogFilter → Level → Bool
  | nothing, _ => false
  | warnings, level => level == .warn
  | everything, _ => true

/-- The filter of a level's name or number. -/
def ofLevel? (text : String) : Option LogFilter :=
  let name := String.ofList (text.toList.map Char.toLower)
  if ["off", "error", "0", "1"].contains name then some nothing
  else if ["warn", "2"].contains name then some warnings
  else if ["info", "debug", "trace", "3", "4", "5"].contains name then some everything
  else none

/-- The filter that a variable of the environment spells: of the levels that it lists the last one.
Without a level nothing that a check reports is shown. -/
def parse (text : String) : LogFilter :=
  let items := (text.toList.splitOn ',').map String.ofList
  ((items.filterMap ofLevel?).getLast?).getD nothing

end LogFilter

/-! ## Colour -/

/-- The colours of terminal text. -/
inductive Color where
  | red
  | green
  | yellow
  deriving DecidableEq, Repr

def Color.code : Color → String
  | red => "31"
  | green => "32"
  | yellow => "33"

/-- A terminal's control sequence. -/
def escape (code : String) : String :=
  "\x1b[" ++ code ++ "m"

/-- A text in a colour, when colours are used. -/
def colored (useColor : Bool) (color : Color) (text : String) : String :=
  if useColor then escape color.code ++ text ++ escape "39" else text

def Level.name : Level → String
  | warn => "WARN"
  | info => "INFO"

def Level.color : Level → Color
  | warn => .yellow
  | info => .green

/-- A field as the log shows it. -/
def fieldText (useColor : Bool) (field : String × String) : String :=
  if useColor then
    escape "3" ++ field.1 ++ escape "0" ++ escape "2" ++ "=" ++ escape "0" ++ field.2
  else field.1 ++ "=" ++ field.2

/-- A level as the log shows it. -/
def levelText (useColor : Bool) (level : Level) : String :=
  if useColor then escape level.color.code ++ " " ++ level.name ++ escape "0" else level.name

/-- A notice as a line of the log, without the time. -/
def Notice.line (useColor : Bool) (notice : Notice) : String :=
  let words := [levelText useColor notice.level, notice.message] ++
    notice.fields.map (fieldText useColor)
  " ".intercalate words ++ "\n"

end LiterateCheck
