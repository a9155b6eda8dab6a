/-!
# Lines

Line endings are written in three ways. Normalising turns each carriage return, with the line feed
that may follow it, into one line feed, so that line `n` stays line `n`. Lines are the pieces
between line feeds.
-/

namespace LiterateCheck.Text

/-- One line feed for each line ending: a carriage return with a line feed, or either alone. -/
def normalizeLineEndings : List Char → List Char
  | [] => []
  | '\r' :: '\n' :: rest => '\n' :: normalizeLineEndings rest
  | c :: rest => (if c = '\r' then '\n' else c) :: normalizeLineEndings rest

/-- The lines of a text. A final line feed is followed by an empty line. -/
def lines (text : List Char) : List (List Char) :=
  text.splitOn '\n'

/-- Lines written one under the other. -/
def unlines (rows : List (List Char)) : List Char :=
  List.intercalate ['\n'] rows

/-- No carriage return is left. -/
theorem carriageReturn_not_mem_normalizeLineEndings (text : List Char) :
    '\r' ∉ normalizeLineEndings text := by
  fun_induction normalizeLineEndings text with
  | case1 => simp
  | case2 rest ih => simp [ih]
  | case3 c rest h ih =>
    split
    · simp [ih]
    · rename_i hc
      simp [ih, Ne.symm hc]

end LiterateCheck.Text
