import LiterateCheck.Proofs.SourceMap.WrittenLocator

/-!
# Locators part by part

What a locator says of its line, of its column and of its end is told by the texts that can stand
there, each on its own.

1. A text starts with a longer locator only where it starts with the shorter one, and with one of
   each form at most (`Starts.eq_of_position`, `Starts.eq_of_range`).
2. So a column is read exactly when a line and a column stand there, and an end exactly when all
   four numbers do (`column?_eq_some_iff`, `stop?_eq_some_iff`).
3. Digits and marks take one byte each, so the characters that a locator takes are bytes as well
   (`utf8ByteSize_text`).
-/

namespace LiterateCheck

open Text (IsNumeral NoDigitAhead noDigitAhead_cons digitsValue)

namespace Text

/-- The digits of a number are its whole run, so a text starts with one number only. -/
theorem numeral_append_inj {digits digits' rest rest' : List Char} (hdigits : IsNumeral digits)
    (hrest : NoDigitAhead rest) (hdigits' : IsNumeral digits') (hrest' : NoDigitAhead rest')
    (h : digits ++ rest = digits' ++ rest') : digits = digits' ∧ rest = rest' := by
  have hrun := congrArg (List.takeWhile Char.isDigit) h
  rw [takeWhile_append_of_head hdigits.digit hrest,
    takeWhile_append_of_head hdigits'.digit hrest'] at hrun
  subst hrun
  exact ⟨rfl, List.append_cancel_left h⟩

theorem isNumeral_toString {n : Nat} (hn : n ≤ maxNumber) : IsNumeral (toString n).toList where
  ne_nil := by simp
  digit _ hc := isDigit_of_mem_toString hc
  fits := by rwa [digitsValue_toString]

end Text

namespace WrittenLocator

variable {text d d' e e' f f' g g' : List Char}

/-! ## One locator of each form -/

theorem starts_line_iff : (line d).Starts text ↔
    IsNumeral d ∧ ∃ rest, text = d ++ rest ∧ NoDigitAhead rest := by
  constructor
  · rintro ⟨hnumeral, hahead⟩
    exact ⟨hnumeral d (List.mem_singleton_self d), hahead⟩
  · rintro ⟨hd, hahead⟩
    exact ⟨List.forall_mem_singleton.2 hd, hahead⟩

theorem starts_position_iff : (position d e).Starts text ↔
    IsNumeral d ∧ IsNumeral e ∧ ∃ rest, text = d ++ ':' :: (e ++ rest) ∧ NoDigitAhead rest := by
  have htext (rest : List Char) : (position d e).text ++ rest = d ++ ':' :: (e ++ rest) := by
    simp [WrittenLocator.text]
  constructor
  · rintro ⟨hnumeral, rest, heq, hahead⟩
    obtain ⟨hd, he⟩ : IsNumeral d ∧ IsNumeral e := by simpa [numbers] using hnumeral
    exact ⟨hd, he, rest, heq.trans (htext rest), hahead⟩
  · rintro ⟨hd, he, rest, heq, hahead⟩
    exact ⟨by simpa [numbers] using ⟨hd, he⟩, rest, heq.trans (htext rest).symm, hahead⟩

theorem starts_range_iff : (range d e f g).Starts text ↔
    IsNumeral d ∧ IsNumeral e ∧ IsNumeral f ∧ IsNumeral g ∧
      ∃ rest, text = d ++ ':' :: (e ++ '-' :: (f ++ ':' :: (g ++ rest))) ∧ NoDigitAhead rest := by
  have htext (rest : List Char) : (range d e f g).text ++ rest =
      d ++ ':' :: (e ++ '-' :: (f ++ ':' :: (g ++ rest))) := by
    simp [WrittenLocator.text]
  constructor
  · rintro ⟨hnumeral, rest, heq, hahead⟩
    obtain ⟨hd, he, hf, hg⟩ : IsNumeral d ∧ IsNumeral e ∧ IsNumeral f ∧ IsNumeral g := by
      simpa [numbers] using hnumeral
    exact ⟨hd, he, hf, hg, rest, heq.trans (htext rest), hahead⟩
  · rintro ⟨hd, he, hf, hg, rest, heq, hahead⟩
    exact ⟨by simpa [numbers] using ⟨hd, he, hf, hg⟩, rest, heq.trans (htext rest).symm, hahead⟩

theorem Starts.line_of_position (h : (position d e).Starts text) : (line d).Starts text := by
  obtain ⟨hd, -, rest, heq, -⟩ := starts_position_iff.1 h
  exact starts_line_iff.2 ⟨hd, _, heq, noDigitAhead_cons (by decide) _⟩

theorem Starts.position_of_range (h : (range d e f g).Starts text) :
    (position d e).Starts text := by
  obtain ⟨hd, he, -, -, rest, heq, -⟩ := starts_range_iff.1 h
  exact starts_position_iff.2 ⟨hd, he, _, heq, noDigitAhead_cons (by decide) _⟩

theorem Starts.eq_of_line (h : (line d).Starts text) (h' : (line d').Starts text) : d = d' := by
  obtain ⟨hd, rest, rfl, hrest⟩ := starts_line_iff.1 h
  obtain ⟨hd', rest', heq, hrest'⟩ := starts_line_iff.1 h'
  exact (Text.numeral_append_inj hd hrest hd' hrest' heq).1

theorem Starts.eq_of_position (h : (position d e).Starts text)
    (h' : (position d' e').Starts text) : d = d' ∧ e = e' := by
  obtain rfl := h.line_of_position.eq_of_line h'.line_of_position
  obtain ⟨-, he, rest, rfl, hrest⟩ := starts_position_iff.1 h
  obtain ⟨-, he', rest', heq, hrest'⟩ := starts_position_iff.1 h'
  have hcolumn := (List.cons.inj (List.append_cancel_left heq)).2
  exact ⟨rfl, (Text.numeral_append_inj he hrest he' hrest' hcolumn).1⟩

theorem Starts.eq_of_range (h : (range d e f g).Starts text)
    (h' : (range d' e' f' g').Starts text) : d = d' ∧ e = e' ∧ f = f' ∧ g = g' := by
  obtain ⟨rfl, rfl⟩ := h.position_of_range.eq_of_position h'.position_of_range
  obtain ⟨-, -, hf, hg, rest, rfl, hrest⟩ := starts_range_iff.1 h
  obtain ⟨-, -, hf', hg', rest', heq, hrest'⟩ := starts_range_iff.1 h'
  have hcolumn := (List.cons.inj (List.append_cancel_left heq)).2
  have hstop := (List.cons.inj (List.append_cancel_left hcolumn)).2
  have hcolon (rest : List Char) : NoDigitAhead (':' :: rest) := noDigitAhead_cons (by decide) rest
  obtain ⟨rfl, hlast⟩ := Text.numeral_append_inj hf (hcolon _) hf' (hcolon _) hstop
  obtain ⟨rfl, -⟩ := Text.numeral_append_inj hg hrest hg' hrest' (List.cons.inj hlast).2
  exact ⟨rfl, rfl, rfl, rfl⟩

/-! ## What the longest one says -/

variable {written : WrittenLocator}

/-- The longest locator holds the line that stands there. -/
theorem IsLongest.line_eq_iff (h : written.IsLongest text) {n : Nat} :
    written.locator.line = n ↔ ∃ d, (line d).Starts text ∧ digitsValue d = n := by
  obtain ⟨d, hd, hvalue⟩ : ∃ d, (line d).Starts text ∧ written.locator.line = digitsValue d := by
    cases written with
    | line d => exact ⟨d, h.starts, rfl⟩
    | position d e => exact ⟨d, h.starts.line_of_position, rfl⟩
    | range d e f g => exact ⟨d, h.starts.position_of_range.line_of_position, rfl⟩
  rw [hvalue]
  constructor
  · rintro rfl
    exact ⟨d, hd, rfl⟩
  · rintro ⟨d', hd', rfl⟩
    rw [hd.eq_of_line hd']

/-- The longest locator has a column when a line and a column stand there. -/
theorem IsLongest.column?_eq_some_iff (h : written.IsLongest text) {n : Nat} :
    written.locator.column? = some n ↔
      ∃ d e, (position d e).Starts text ∧ digitsValue e = n := by
  -- a form with a column holds the one that stands there
  have hcolumn {d e : List Char} (hstarts : (position d e).Starts text) :
      some (digitsValue e) = some n ↔ ∃ d e, (position d e).Starts text ∧ digitsValue e = n := by
    rw [Option.some.injEq]
    constructor
    · rintro rfl
      exact ⟨d, e, hstarts, rfl⟩
    · rintro ⟨d', e', hstarts', rfl⟩
      rw [(hstarts.eq_of_position hstarts').2]
  cases written with
  | line d =>
    refine iff_of_false (fun hnone => by cases hnone) ?_
    rintro ⟨d', e, hstarts, -⟩
    obtain rfl := h.starts.eq_of_line hstarts.line_of_position
    exact h.not_starts _ (by simp [WrittenLocator.text]) hstarts
  | position d e => exact hcolumn h.starts
  | range d e f g => exact hcolumn h.starts.position_of_range

theorem IsLongest.stop?_eq_some_iff (h : written.IsLongest text) {stop : Nat × Nat} :
    written.locator.stop? = some stop ↔
      ∃ d e f g, (range d e f g).Starts text ∧ (digitsValue f, digitsValue g) = stop := by
  cases written with
  | line d =>
    refine iff_of_false (fun hnone => by cases hnone) ?_
    rintro ⟨d', e, f, g, hstarts, -⟩
    obtain rfl := h.starts.eq_of_line hstarts.position_of_range.line_of_position
    exact h.not_starts _ (by simp [WrittenLocator.text]) hstarts
  | position d e =>
    refine iff_of_false (fun hnone => by cases hnone) ?_
    rintro ⟨d', e', f, g, hstarts, -⟩
    obtain ⟨rfl, rfl⟩ := h.starts.eq_of_position hstarts.position_of_range
    exact h.not_starts _ (by simp [WrittenLocator.text]) hstarts
  | range d e f g =>
    show some (digitsValue f, digitsValue g) = some stop ↔ _
    rw [Option.some.injEq]
    constructor
    · rintro rfl
      exact ⟨d, e, f, g, h.starts, rfl⟩
    · rintro ⟨d', e', f', g', hstarts', rfl⟩
      obtain ⟨-, -, rfl, rfl⟩ := h.starts.eq_of_range hstarts'
      rfl

/-! ## Bytes -/

theorem utf8ByteSize_text (h : written.Starts text) :
    (String.ofList written.text).utf8ByteSize = written.text.length := by
  have hone : ∀ c ∈ written.text, c.utf8Size = 1 := by
    intro c hc
    rw [Char.utf8Size_eq_one_iff]
    rcases of_mem_text h hc with hdigit | rfl | rfl
    · obtain ⟨-, hle⟩ := Char.isDigit_iff_toNat.1 hdigit
      exact UInt32.le_iff_toNat_le.2 (Nat.le_trans hle (by decide))
    · decide
    · decide
  generalize written.text = characters at hone
  induction characters with
  | nil => rfl
  | cons c rest ih =>
    obtain ⟨hc, hrest⟩ := List.forall_mem_cons.1 hone
    rw [String.ofList_cons, String.utf8ByteSize_append, String.utf8ByteSize_singleton, hc, ih hrest,
      List.length_cons, Nat.add_comm]

end WrittenLocator

namespace Locator

open WrittenLocator

/-! ## What is read -/

/-- A line and a column in decimal, and the end of a range where there is one. -/
def render (line column : Nat) (stop? : Option (Nat × Nat)) : String :=
  toString line ++ ":" ++ toString column ++
    match stop? with
    | some stop => "-" ++ toString stop.1 ++ ":" ++ toString stop.2
    | none => ""

theorem read?_render_append {line column : Nat} {stop? : Option (Nat × Nat)}
    (hline : line ≤ Text.maxNumber) (hcolumn : column ≤ Text.maxNumber)
    (hstop : ∀ stop ∈ stop?, stop.1 ≤ Text.maxNumber ∧ stop.2 ≤ Text.maxNumber)
    {rest : List Char} (hdigit : NoDigitAhead rest) (hdash : rest.head? ≠ some '-') :
    read? ((render line column stop?).toList ++ rest) =
      some ⟨line, some column, stop?, (render line column stop?).toList.length⟩ := by
  have hd := Text.isNumeral_toString hline
  have he := Text.isNumeral_toString hcolumn
  cases stop? with
  | none =>
    have hnone : rangeEnd? rest = none := by
      refine Option.eq_none_iff_forall_ne_some.2 fun stop hstop => ?_
      obtain ⟨f, g, after, rfl, -⟩ := exists_numerals_of_rangeEnd? hstop
      exact hdash rfl
    have htext : (render line column none).toList ++ rest =
        (toString line).toList ++ ':' :: ((toString column).toList ++ rest) := by
      simp [render]
    rw [htext, read?_column hd he hdigit, hnone, Option.elim_none, WrittenLocator.locator,
      Text.digitsValue_toString, Text.digitsValue_toString]
    simp [WrittenLocator.text, render]
  | some stop =>
    obtain ⟨hstopLine, hstopColumn⟩ := hstop stop rfl
    have hf := Text.isNumeral_toString hstopLine
    have hg := Text.isNumeral_toString hstopColumn
    have htext : (render line column (some stop)).toList ++ rest =
        (toString line).toList ++ ':' :: ((toString column).toList ++
          '-' :: ((toString stop.1).toList ++ ':' :: ((toString stop.2).toList ++ rest))) := by
      simp [render]
    rw [htext, read?_column hd he (noDigitAhead_cons (by decide) _),
      rangeEnd?_numerals hf hg hdigit, Option.elim_some]
    simp only [Text.digitsValue_toString, Option.some.injEq, Locator.mk.injEq, true_and]
    simp [render]
    omega

/-- **What is read of a locator.** It is read when a line stands there, a number that is a whole run
of digits and fits in 64 bits. It holds a column when a colon and such a number follow, and an end
when two more of them do behind a dash. It takes just the characters of these parts, which are as
many bytes, so the text can be cut there. And numbers that fit are read back from their decimal
form, before any text that goes on neither with a digit nor with a dash. -/
theorem read?_reads (text : String) :
    ((read? text.toList).isSome = true ↔
      ∃ d, (WrittenLocator.line d).Starts text.toList) ∧
    (∀ locator, read? text.toList = some locator →
      (∀ n, locator.line = n ↔
        ∃ d, (WrittenLocator.line d).Starts text.toList ∧ digitsValue d = n) ∧
      (∀ n, locator.column? = some n ↔
        ∃ d e, (WrittenLocator.position d e).Starts text.toList ∧ digitsValue e = n) ∧
      (∀ stop, locator.stop? = some stop ↔
        ∃ d e f g, (WrittenLocator.range d e f g).Starts text.toList ∧
          (digitsValue f, digitsValue g) = stop) ∧
      (∃ written : WrittenLocator, written.Starts text.toList ∧ written.locator = locator ∧
        locator.consumed = (String.ofList written.text).utf8ByteSize) ∧
      locator.consumed ≤ text.utf8ByteSize ∧
      String.Pos.Raw.IsValid text ⟨locator.consumed⟩) ∧
    ∀ line column stop?, line ≤ Text.maxNumber → column ≤ Text.maxNumber →
      (∀ stop ∈ stop?, stop.1 ≤ Text.maxNumber ∧ stop.2 ≤ Text.maxNumber) →
      NoDigitAhead text.toList → text.toList.head? ≠ some '-' →
      read? (render line column stop? ++ text).toList =
        some ⟨line, some column, stop?, (render line column stop?).toList.length⟩ := by
  refine ⟨?_, fun locator hread => ?_, fun line column stop? hline hcolumn hstop hdigit hdash => ?_⟩
  · constructor
    · intro hsome
      obtain ⟨locator, hread⟩ := Option.isSome_iff_exists.1 hsome
      obtain ⟨d, hd⟩ : ∃ d, (WrittenLocator.line d).Starts text.toList := by
        obtain ⟨written, hwritten, rfl⟩ := read?_eq_some_iff.1 hread
        exact (hwritten.line_eq_iff.1 rfl).imp fun d h => h.1
      exact ⟨d, hd⟩
    · rintro ⟨d, hd⟩
      rw [← Option.ne_none_iff_isSome]
      exact fun hnone => read?_eq_none_iff.1 hnone _ hd
  · obtain ⟨written, hwritten, rfl⟩ := read?_eq_some_iff.1 hread
    have hbytes := utf8ByteSize_text hwritten.starts
    have hconsumed : written.locator.consumed = (String.ofList written.text).utf8ByteSize :=
      (consumed_locator written).trans hbytes.symm
    obtain ⟨rest, hrest, -⟩ := hwritten.starts.ahead
    have htext : text = String.ofList written.text ++ String.ofList rest := by
      rw [← String.ofList_append, ← hrest, String.ofList_toList]
    have hvalid : String.Pos.Raw.IsValid text ⟨written.locator.consumed⟩ := by
      rw [String.Pos.Raw.isValid_iff_exists_append]
      exact ⟨_, _, htext, by rw [hconsumed]; rfl⟩
    exact ⟨fun n => hwritten.line_eq_iff, fun n => hwritten.column?_eq_some_iff,
      fun stop => hwritten.stop?_eq_some_iff, ⟨written, hwritten.starts, rfl, hconsumed⟩,
      hvalid.le_rawEndPos, hvalid⟩
  · rw [String.toList_append]
    exact read?_render_append hline hcolumn hstop hdigit hdash

/-- A range before a word is read back. -/
theorem read?_reads_range :
    read? (render 2 3 (some (4, 5)) ++ " error").toList = some ⟨2, some 3, some (4, 5), 7⟩ :=
  (read?_reads " error").2.2 2 3 (some (4, 5)) (by decide) (by decide) (by decide) (by decide)
    (by decide)

end Locator

end LiterateCheck
