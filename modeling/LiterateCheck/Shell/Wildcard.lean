/-!
# Wildcards

A pattern is a list of marks. A star stands for any run of characters, a question mark for any one,
and a bracket for one of some ranges.
-/

namespace LiterateCheck.Shell

/-- A character on its way to a word, or a boundary. -/
inductive Glyph where
  /-- A character that may split fields and stand for others. -/
  | plain (c : Char)
  /-- A character that stands for itself. -/
  | fixed (c : Char)
  /-- Nothing, yet enough for a field to exist. -/
  | mark
  /-- The end of a field. -/
  | cut
  deriving DecidableEq, Repr

namespace Glyph

def char? : Glyph → Option Char
  | plain c | fixed c => some c
  | mark | cut => none

/-- The text that some glyphs show. -/
def text (glyphs : List Glyph) : String :=
  String.ofList (glyphs.filterMap char?)

def isWild : Glyph → Bool
  | plain c => c == '*' || c == '?' || c == '['
  | _ => false

end Glyph

/-- One step of a pattern. -/
inductive Wildcard where
  | only (c : Char)
  | any
  | run
  | oneOf (negated : Bool) (ranges : List (Char × Char))
  deriving DecidableEq, Repr

namespace Wildcard

/-- The ranges that the inside of a bracket lists. -/
def ranges : List Char → List (Char × Char)
  | low :: '-' :: high :: rest => (low, high) :: ranges rest
  | c :: rest => (c, c) :: ranges rest
  | [] => []

/-- A bracket's inside and what follows it. A closing bracket that comes first belongs to the
inside. -/
def bracket? (glyphs : List Glyph) : Option (Wildcard × List Glyph) :=
  let (negated, inside) :=
    match glyphs with
    | .plain '!' :: rest => (true, rest)
    | rest => (false, rest)
  let first := inside.take 1
  let body := first ++ (inside.drop 1).takeWhile (· != .plain ']')
  match (inside.drop 1).dropWhile (· != .plain ']') with
  | _ :: rest => some (.oneOf negated (ranges (body.filterMap Glyph.char?)), rest)
  | [] => none

/-- The pattern that glyphs spell; `fuel` is their number. -/
def ofGlyphsWith : Nat → List Glyph → List Wildcard
  | 0, _ => []
  | _, [] => []
  | fuel + 1, .plain '*' :: rest => run :: ofGlyphsWith fuel rest
  | fuel + 1, .plain '?' :: rest => any :: ofGlyphsWith fuel rest
  | fuel + 1, glyph :: rest =>
    let bracket := if glyph = .plain '[' then bracket? rest else none
    match bracket with
    | some (step, rest) => step :: ofGlyphsWith fuel rest
    | none => (glyph.char?.map only).toList ++ ofGlyphsWith fuel rest

def ofGlyphs (glyphs : List Glyph) : List Wildcard :=
  ofGlyphsWith glyphs.length glyphs

/-- Whether a step that stands for one character stands for this one. -/
def admits (c : Char) : Wildcard → Bool
  | only d => c == d
  | any => true
  | run => false
  | oneOf negated ranges =>
    negated != ranges.any fun (low, high) => low.toNat ≤ c.toNat && c.toNat ≤ high.toNat

/-- Whether a pattern matches a whole text. -/
def isMatch : List Wildcard → List Char → Bool
  | [], text => text.isEmpty
  | run :: steps, [] => isMatch steps []
  | run :: steps, c :: text => isMatch steps (c :: text) || isMatch (run :: steps) text
  | _ :: _, [] => false
  | step :: steps, c :: text => step.admits c && isMatch steps text
  termination_by steps text => (steps.length, text.length)

/-- Cuts a run that matches off the front, trying the given numbers of characters in turn. -/
def cutFront (pattern : List Wildcard) (text : List Char) (lengths : List Nat) : List Char :=
  match lengths.find? fun n => isMatch pattern (text.take n) with
  | some n => text.drop n
  | none => text

/-- Cuts a run that matches off the back, trying the given numbers of characters to keep. -/
def cutBack (pattern : List Wildcard) (text : List Char) (lengths : List Nat) : List Char :=
  match lengths.find? fun n => isMatch pattern (text.drop n) with
  | some n => text.take n
  | none => text

end Wildcard

end LiterateCheck.Shell
