import LiterateCheck.Text.Lines

/-!
# Lines of a document

A document ends its lines in three ways. Normalising makes each end one line feed, so the lines
between line feeds are those of the document.

1. `HasLines` reads a document from left to right: a line without line ends, then the end that
   stands there, then the rest.
2. Two replacements, of the pairs first and then of what is left of the carriage returns, do the
   same as one pass (`replaceReturns_eq`), and where there is no carriage return nothing changes.
3. The lines after normalising are those of the document, just one list for each
   (`lines_normalizeLineEndings_eq_iff`).
-/

namespace LiterateCheck.Text

/-! ## Normalising -/

theorem normalizeLineEndings_cons {c : Char} (h : c ≠ '\r') (rest : List Char) :
    normalizeLineEndings (c :: rest) = c :: normalizeLineEndings rest := by
  rw [normalizeLineEndings.eq_3 c rest fun _ heq => absurd heq h, if_neg h]

theorem normalizeLineEndings_pair (rest : List Char) :
    normalizeLineEndings ('\r' :: '\n' :: rest) = '\n' :: normalizeLineEndings rest := rfl

theorem normalizeLineEndings_return {rest : List Char} (h : rest.head? ≠ some '\n') :
    normalizeLineEndings ('\r' :: rest) = '\n' :: normalizeLineEndings rest := by
  rw [normalizeLineEndings.eq_3 '\r' rest, if_pos rfl]
  rintro others - rfl
  exact h rfl

/-- A text without carriage returns stays as it is, whatever follows. -/
theorem normalizeLineEndings_append {front : List Char} (h : '\r' ∉ front) (back : List Char) :
    normalizeLineEndings (front ++ back) = front ++ normalizeLineEndings back := by
  induction front with
  | nil => rfl
  | cons c rest ih =>
    have hc : c ≠ '\r' := (List.ne_of_not_mem_cons h).symm
    rw [List.cons_append, normalizeLineEndings_cons hc, ih (List.not_mem_of_not_mem_cons h),
      List.cons_append]

theorem normalizeLineEndings_eq_self {text : List Char} (h : '\r' ∉ text) :
    normalizeLineEndings text = text := by
  have happend := normalizeLineEndings_append h []
  rwa [List.append_nil, show normalizeLineEndings [] = [] from rfl, List.append_nil] at happend

/-- A run of carriage returns ends a line at each of them. The last one takes the line feed that
may follow. -/
theorem normalizeLineEndings_replicate (count : Nat) (rest : List Char) :
    normalizeLineEndings (List.replicate (count + 1) '\r' ++ '\n' :: rest) =
      List.replicate (count + 1) '\n' ++ normalizeLineEndings rest := by
  induction count with
  | zero => rfl
  | succ count ih =>
    have hhead : (List.replicate (count + 1) '\r' ++ '\n' :: rest).head? ≠ some '\n' := by
      simp [List.replicate_succ]
    rw [List.replicate_succ, List.cons_append, normalizeLineEndings_return hhead, ih]
    rfl

/-! ## Replacing -/

/-- A text with each occurrence of a mark replaced. The next occurrence is looked for behind the
last one. -/
def replaceAll (mark replacement : List Char) : List Char → List Char
  | [] => []
  | c :: rest =>
    if mark.isPrefixOf (c :: rest) then
      replacement ++ replaceAll mark replacement (rest.drop (mark.length - 1))
    else c :: replaceAll mark replacement rest
  termination_by text => text.length

/-- Line feeds in place of carriage returns: of those that a line feed follows together with it,
then of all others. -/
def replaceReturns (text : List Char) : List Char :=
  replaceAll ['\r'] ['\n'] (replaceAll ['\r', '\n'] ['\n'] text)

theorem replaceAll_single (c : Char) (rest : List Char) :
    replaceAll ['\r'] ['\n'] (c :: rest) =
      (if c = '\r' then '\n' else c) :: replaceAll ['\r'] ['\n'] rest := by
  rw [replaceAll]
  by_cases hc : c = '\r'
  · subst hc
    rfl
  · rw [if_neg hc, if_neg]
    simpa using Ne.symm hc

theorem replaceAll_pair (rest : List Char) :
    replaceAll ['\r', '\n'] ['\n'] ('\r' :: '\n' :: rest) =
      '\n' :: replaceAll ['\r', '\n'] ['\n'] rest := by
  have hmark : ['\r', '\n'].isPrefixOf ('\r' :: '\n' :: rest) = true := rfl
  rw [replaceAll, if_pos hmark]
  rfl

theorem replaceAll_pair_of_ne {c : Char} {rest : List Char}
    (h : ∀ others, c = '\r' → rest ≠ '\n' :: others) :
    replaceAll ['\r', '\n'] ['\n'] (c :: rest) = c :: replaceAll ['\r', '\n'] ['\n'] rest := by
  rw [replaceAll, if_neg]
  rw [List.isPrefixOf_iff_prefix]
  rintro ⟨others, heq⟩
  obtain ⟨hc, hrest⟩ := List.cons.inj heq
  exact h others hc.symm hrest.symm

theorem replaceReturns_eq (text : List Char) : replaceReturns text = normalizeLineEndings text := by
  unfold replaceReturns
  fun_induction normalizeLineEndings text with
  | case1 => simp [replaceAll]
  | case2 rest ih =>
    rw [replaceAll_pair, replaceAll_single, if_neg (by decide), ih]
  | case3 c rest h ih => rw [replaceAll_pair_of_ne h, replaceAll_single, ih]

/-! ## The lines of a document -/

/-- Neither a carriage return nor a line feed stands in a line. -/
def IsLine (line : List Char) : Prop := '\r' ∉ line ∧ '\n' ∉ line

/-- The lines of a document, from left to right. A line ends at a carriage return with a line feed,
at a carriage return that no line feed follows, or at a line feed that is not the second half of
such a pair; the last line is what remains. -/
inductive HasLines : List Char → List (List Char) → Prop
  | last {line : List Char} : IsLine line → HasLines line [line]
  | pair {line rest : List Char} {others : List (List Char)} :
    IsLine line → HasLines rest others → HasLines (line ++ '\r' :: '\n' :: rest) (line :: others)
  | carriageReturn {line rest : List Char} {others : List (List Char)} :
    IsLine line → rest.head? ≠ some '\n' → HasLines rest others →
      HasLines (line ++ '\r' :: rest) (line :: others)
  | lineFeed {line rest : List Char} {others : List (List Char)} :
    IsLine line → HasLines rest others → HasLines (line ++ '\n' :: rest) (line :: others)

theorem isLine_nil : IsLine [] := ⟨List.not_mem_nil, List.not_mem_nil⟩

theorem HasLines.cons {c : Char} (hreturn : c ≠ '\r') (hfeed : c ≠ '\n') {text : List Char}
    {lines : List (List Char)} (h : HasLines text lines) :
    HasLines (c :: text) (lines.modifyHead (c :: ·)) := by
  have hline {line : List Char} (h : IsLine line) : IsLine (c :: line) :=
    ⟨List.not_mem_cons_of_ne_of_not_mem (Ne.symm hreturn) h.1,
      List.not_mem_cons_of_ne_of_not_mem (Ne.symm hfeed) h.2⟩
  cases h with
  | last h => exact .last (hline h)
  | pair h hrest => exact .pair (hline h) hrest
  | carriageReturn h hhead hrest => exact .carriageReturn (hline h) hhead hrest
  | lineFeed h hrest => exact .lineFeed (hline h) hrest

theorem exists_hasLines (text : List Char) : ∃ lines, HasLines text lines := by
  fun_induction normalizeLineEndings text with
  | case1 => exact ⟨[[]], .last isLine_nil⟩
  | case2 rest ih =>
    obtain ⟨lines, hlines⟩ := ih
    exact ⟨[] :: lines, .pair isLine_nil hlines⟩
  | case3 c rest h ih =>
    obtain ⟨lines, hlines⟩ := ih
    by_cases hreturn : c = '\r'
    · subst hreturn
      refine ⟨[] :: lines, .carriageReturn isLine_nil ?_ hlines⟩
      intro hhead
      obtain ⟨others, rfl⟩ := List.head?_eq_some_iff.1 hhead
      exact h others rfl rfl
    · by_cases hfeed : c = '\n'
      · subst hfeed
        exact ⟨[] :: lines, .lineFeed isLine_nil hlines⟩
      · exact ⟨_, hlines.cons hreturn hfeed⟩

theorem lines_of_isLine {line : List Char} (h : IsLine line) : lines line = [line] :=
  List.splitOn_eq_singleton h.2

theorem lines_append_lineFeed (front back : List Char) :
    lines (front ++ '\n' :: back) = lines front ++ lines back :=
  List.splitOn_append_cons_self front back

/-- Where a line ends and the rest is normalised, the line stands before the lines of the rest. -/
theorem lines_of_ends {line tail rest : List Char} (hline : IsLine line)
    (htail : normalizeLineEndings tail = '\n' :: normalizeLineEndings rest) :
    lines (normalizeLineEndings (line ++ tail)) = line :: lines (normalizeLineEndings rest) := by
  rw [normalizeLineEndings_append hline.1, htail, lines_append_lineFeed, lines_of_isLine hline]
  rfl

theorem HasLines.lines_eq {text : List Char} {rows : List (List Char)} (h : HasLines text rows) :
    lines (normalizeLineEndings text) = rows := by
  induction h with
  | last h => rw [normalizeLineEndings_eq_self h.1, lines_of_isLine h]
  | pair h _ ih => rw [lines_of_ends h (normalizeLineEndings_pair _), ih]
  | carriageReturn h hhead _ ih => rw [lines_of_ends h (normalizeLineEndings_return hhead), ih]
  | lineFeed h _ ih => rw [lines_of_ends h (normalizeLineEndings_cons (by decide) _), ih]

/-- A document has one list of lines, and they are the lines of the normalised text. -/
theorem lines_normalizeLineEndings_eq_iff {text : List Char} {rows : List (List Char)} :
    lines (normalizeLineEndings text) = rows ↔ HasLines text rows := by
  constructor
  · rintro rfl
    obtain ⟨rows, hrows⟩ := exists_hasLines text
    rwa [hrows.lines_eq]
  · exact HasLines.lines_eq

theorem lines_replicate_lineFeed (count : Nat) (rest : List Char) :
    lines (List.replicate count '\n' ++ rest) = List.replicate count [] ++ lines rest := by
  induction count with
  | zero => rfl
  | succ count ih =>
    rw [List.replicate_succ, List.cons_append, List.replicate_succ, List.cons_append, ← ih]
    exact lines_append_lineFeed [] _

/-- **Normalising keeps the lines of a document.** No carriage return is left, the pieces between
line feeds are just the document's lines, and a run of carriage returns before a line feed ends one
line each. Nothing more happens to a normalised text, and two replacements, which are left out where
there is no carriage return, come to the same. -/
theorem normalizeLineEndings_keeps_lines (text : List Char) :
    '\r' ∉ normalizeLineEndings text ∧
    (∀ rows, HasLines text rows ↔ rows = lines (normalizeLineEndings text)) ∧
    (∀ count, lines (normalizeLineEndings (List.replicate (count + 1) '\r' ++ '\n' :: text)) =
      List.replicate (count + 1) [] ++ lines (normalizeLineEndings text)) ∧
    normalizeLineEndings (normalizeLineEndings text) = normalizeLineEndings text ∧
    replaceReturns text = normalizeLineEndings text ∧
    normalizeLineEndings text = if '\r' ∈ text then replaceReturns text else text := by
  have hnone := carriageReturn_not_mem_normalizeLineEndings text
  refine ⟨hnone, fun rows => ?_, fun count => ?_, normalizeLineEndings_eq_self hnone,
    replaceReturns_eq text, ?_⟩
  · rw [← lines_normalizeLineEndings_eq_iff, eq_comm]
  · rw [normalizeLineEndings_replicate, lines_replicate_lineFeed]
  · split
    · exact (replaceReturns_eq text).symm
    · rename_i hreturn
      exact normalizeLineEndings_eq_self hreturn

/-- A carriage return alone and a pair behind it end two lines. -/
example : lines (normalizeLineEndings "a\r\r\nb".toList) = ["a".toList, [], "b".toList] := by
  decide

end LiterateCheck.Text
