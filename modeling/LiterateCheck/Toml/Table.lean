/-!
# Tables

A document defines tables piece by piece: by headers, by dotted keys, and in place. A key is defined
once; a header may complete a table that only longer headers have named, and dotted keys may add to
a table that only dotted keys have named.
-/

namespace LiterateCheck.Toml

/-- How a table came to be. -/
inductive Origin where
  | header
  /-- Named only as a part of longer headers. -/
  | implied
  /-- Named only as a part of dotted keys. -/
  | dotted
  /-- Written in place, and complete. -/
  | inline
  deriving DecidableEq, Repr

/-- A value of a document. -/
inductive Value where
  | text (value : String)
  | boolean (value : Bool)
  /-- A number or a date. -/
  | other
  /-- A list, either written in place or of tables with a header each. -/
  | list (ofTables : Bool) (items : List Value)
  | table (origin : Origin) (fields : List (String × Value))
  deriving Repr

/-- The fields of a table, in the order of their definition. -/
abbrev Fields := List (String × Value)

namespace Fields

/-- Puts a value in place of the one of a key. -/
def replace (key : String) (value : Value) : Fields → Fields
  | [] => []
  | (k, v) :: others => if k = key then (k, value) :: others else (k, v) :: replace key value others

/-- Changes the table at a path, which is defined on the way where it is missing. A path leads
through the latest of the tables that have a header each, and never into a table written in place.
Dotted keys lead only through tables that have no header. -/
def modifyAt? (byDots : Bool) (change : Origin → Fields → Option Fields) :
    List String → Origin → Fields → Option Fields
  | [], origin, fields => change origin fields
  | key :: path, _, fields =>
    match fields.lookup key with
    | none => do
      let origin := if byDots then Origin.dotted else .implied
      let inner ← modifyAt? byDots change path origin []
      some (fields ++ [(key, .table origin inner)])
    | some (.table origin inner) =>
      if origin = .inline ∨ (byDots ∧ origin = .header) then none
      else do
        let inner ← modifyAt? byDots change path origin inner
        some (replace key (.table origin inner) fields)
    | some (.list true items) =>
      match items.getLast? with
      | some (.table origin inner) => do
        let inner ← modifyAt? byDots change path origin inner
        some (replace key (.list true (items.dropLast ++ [.table origin inner])) fields)
      | _ => none
    | some _ => none

/-- Adds a field that is not there yet. -/
def add? (key : String) (value : Value) (fields : Fields) : Option Fields :=
  if (fields.lookup key).isSome then none else some (fields ++ [(key, value)])

/-- Defines the value of a dotted key. A longer key adds only to tables that dotted keys named. -/
def define? (path : List String) (key : String) (value : Value) (fields : Fields) : Option Fields :=
  modifyAt? true
    (fun origin fields =>
      if !path.isEmpty && origin != .dotted then none else fields.add? key value)
    path .header fields

/-- Opens the table of a header. -/
def openTable? (path : List String) (key : String) (fields : Fields) : Option Fields :=
  modifyAt? false
    (fun _ fields =>
      match fields.lookup key with
      | none => some (fields ++ [(key, .table .header [])])
      | some (.table .implied inner) => some (replace key (.table .header inner) fields)
      | some _ => none)
    path .header fields

/-- Opens the next table of a list that has a header for each. -/
def openItem? (path : List String) (key : String) (fields : Fields) : Option Fields :=
  modifyAt? false
    (fun _ fields =>
      match fields.lookup key with
      | none => some (fields ++ [(key, .list true [.table .header []])])
      | some (.list true items) =>
        some (replace key (.list true (items ++ [.table .header []])) fields)
      | some _ => none)
    path .header fields

end Fields

end LiterateCheck.Toml
