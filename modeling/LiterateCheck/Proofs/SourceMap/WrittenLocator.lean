import LiterateCheck.SourceMap.Locator
import LiterateCheck.Proofs.Text.Decimal

/-!
# Locators as they are written

A locator is written with two or four numbers, or with one. A text can start with several of them,
each longer than the one before; the longest is read.

1. A numeral is a whole run of digits whose value fits (`Text.leadingNumber?_numeral_append`).
2. Each of the three forms is read when it cannot be made longer (`read?_of_isLongest`).
3. So reading gives the longest locator that the text starts with, and fails only where there is
   none (`read?_eq_some_iff`, `read?_eq_none_iff`).
-/

namespace LiterateCheck

namespace Text

/-- Digits that name a number. -/
structure IsNumeral (digits : List Char) : Prop where
  ne_nil : digits ≠ []
  digit : ∀ c ∈ digits, c.isDigit = true
  fits : digitsValue digits ≤ maxNumber

instance (digits : List Char) : Decidable (IsNumeral digits) :=
  decidable_of_iff ((digits != [] && digits.all Char.isDigit &&
      decide (digitsValue digits ≤ maxNumber)) = true) <| by
    rw [Bool.and_eq_true, Bool.and_eq_true, bne_iff_ne, List.all_eq_true, decide_eq_true_iff]
    exact ⟨fun ⟨⟨hne, hdigit⟩, hfits⟩ => ⟨hne, hdigit, hfits⟩,
      fun ⟨hne, hdigit, hfits⟩ => ⟨⟨hne, hdigit⟩, hfits⟩⟩

theorem noDigitAhead_cons {c : Char} (h : c.isDigit = false) (rest : List Char) :
    NoDigitAhead (c :: rest) := by
  intro d hd
  obtain rfl := Option.some.inj hd
  exact h

theorem leadingNumber?_numeral_append {digits rest : List Char} (hdigits : IsNumeral digits)
    (hrest : NoDigitAhead rest) :
    leadingNumber? (digits ++ rest) = some ⟨digitsValue digits, digits.length⟩ := by
  have hrun : (digits ++ rest).takeWhile Char.isDigit = digits :=
    takeWhile_append_of_head hdigits.digit hrest
  unfold leadingNumber?
  rw [hrun]
  dsimp only
  rw [if_neg (by simpa using hdigits.ne_nil), if_pos hdigits.fits]

theorem exists_numeral_of_leadingNumber? {text : List Char} {n : Leading}
    (h : leadingNumber? text = some n) :
    ∃ digits rest, text = digits ++ rest ∧ IsNumeral digits ∧ NoDigitAhead rest := by
  simp only [leadingNumber?] at h
  split at h
  · cases h
  · rename_i hne
    split at h
    · rename_i hfits
      refine ⟨text.takeWhile Char.isDigit, text.dropWhile Char.isDigit,
        List.takeWhile_append_dropWhile.symm, ⟨?_, ?_, hfits⟩, ?_⟩
      · simpa using hne
      · exact fun c hc => List.all_eq_true.1 List.all_takeWhile c hc
      · intro c hc
        have hhead := List.head?_dropWhile_not Char.isDigit text
        rw [Option.mem_def.1 hc] at hhead
        simpa using hhead
    · cases h

end Text

open Text (IsNumeral NoDigitAhead noDigitAhead_cons digitsValue)

/-- A locator as it is written: the digits of its numbers. -/
inductive WrittenLocator where
  | line (line : List Char)
  | position (line column : List Char)
  | range (line column stopLine stopColumn : List Char)
  deriving DecidableEq, Repr

namespace WrittenLocator

/-- The digits of each number. -/
def numbers : WrittenLocator → List (List Char)
  | line d => [d]
  | position d e => [d, e]
  | range d e f g => [d, e, f, g]

/-- The numbers with the marks between them. -/
def text : WrittenLocator → List Char
  | line d => d
  | position d e => d ++ ':' :: e
  | range d e f g => d ++ ':' :: (e ++ '-' :: (f ++ ':' :: g))

/-- What the numbers say. -/
def locator (written : WrittenLocator) : Locator :=
  match written with
  | line d => ⟨digitsValue d, none, none, written.text.length⟩
  | position d e => ⟨digitsValue d, some (digitsValue e), none, written.text.length⟩
  | range d e f g =>
    ⟨digitsValue d, some (digitsValue e), some (digitsValue f, digitsValue g),
      written.text.length⟩

/-- A text starts with a locator. None of its numbers is cut off before the end of its digits. -/
structure Starts (written : WrittenLocator) (text : List Char) : Prop where
  numeral : ∀ digits ∈ written.numbers, IsNumeral digits
  ahead : ∃ rest, text = written.text ++ rest ∧ NoDigitAhead rest

/-- The longest locator that a text starts with. -/
structure IsLongest (written : WrittenLocator) (text : List Char) : Prop where
  starts : written.Starts text
  longest (other : WrittenLocator) : other.Starts text → other.text.length ≤ written.text.length

theorem consumed_locator (written : WrittenLocator) :
    written.locator.consumed = written.text.length := by
  cases written <;> rfl

theorem of_mem_text {written : WrittenLocator} {text : List Char} (h : written.Starts text)
    {c : Char} (hc : c ∈ written.text) : c.isDigit = true ∨ c = ':' ∨ c = '-' := by
  have hdigit {digits : List Char} (hdigits : digits ∈ written.numbers) (hmem : c ∈ digits) :
      c.isDigit = true := (h.numeral digits hdigits).digit c hmem
  cases written with
  | line d => exact .inl (hdigit (List.mem_singleton_self d) hc)
  | position d e =>
    simp only [WrittenLocator.text, numbers, List.mem_append, List.mem_cons] at hc hdigit
    rcases hc with hc | rfl | hc
    · exact .inl (hdigit (.inl rfl) hc)
    · exact .inr (.inl rfl)
    · exact .inl (hdigit (.inr (.inl rfl)) hc)
  | range d e f g =>
    simp only [WrittenLocator.text, numbers, List.mem_append, List.mem_cons] at hc hdigit
    rcases hc with hc | rfl | hc | rfl | hc | rfl | hc
    · exact .inl (hdigit (.inl rfl) hc)
    · exact .inr (.inl rfl)
    · exact .inl (hdigit (.inr (.inl rfl)) hc)
    · exact .inr (.inr rfl)
    · exact .inl (hdigit (.inr (.inr (.inl rfl))) hc)
    · exact .inr (.inl rfl)
    · exact .inl (hdigit (.inr (.inr (.inr (.inl rfl)))) hc)

theorem length_text_le_of_starts {written : WrittenLocator} {text : List Char}
    (h : written.Starts text) : written.text.length ≤ text.length := by
  obtain ⟨rest, rfl, -⟩ := h.ahead
  rw [List.length_append]
  exact Nat.le_add_right ..

/-- A text that is a locator starts with no longer one. -/
theorem isLongest_text {written : WrittenLocator}
    (h : ∀ digits ∈ written.numbers, IsNumeral digits) : written.IsLongest written.text where
  starts := by
    refine ⟨h, [], (List.append_nil _).symm, fun c hc => ?_⟩
    cases hc
  longest _ hother := length_text_le_of_starts hother

theorem exists_isLongest {text : List Char} (written : WrittenLocator)
    (h : written.Starts text) : ∃ longest : WrittenLocator, longest.IsLongest text := by
  induction hroom : text.length - written.text.length using Nat.strongRecOn
    generalizing written with
  | ind room ih =>
    by_cases hlonger : ∃ other : WrittenLocator, other.Starts text ∧
        written.text.length < other.text.length
    · obtain ⟨other, hother, hlt⟩ := hlonger
      have hle := length_text_le_of_starts hother
      exact ih (text.length - other.text.length) (by omega) other hother rfl
    · refine ⟨written, h, fun other hother => ?_⟩
      exact Nat.not_lt.1 fun hlt => hlonger ⟨other, hother, hlt⟩

theorem IsLongest.not_starts {written : WrittenLocator} {text : List Char}
    (h : written.IsLongest text) (other : WrittenLocator)
    (hlonger : written.text.length < other.text.length) : ¬ other.Starts text := by
  intro hother
  have hle := h.longest other hother
  omega

end WrittenLocator

namespace Locator

open WrittenLocator

theorem numberAfter?_numeral {digits rest : List Char} (hdigits : IsNumeral digits)
    (hrest : NoDigitAhead rest) (mark : Char) :
    numberAfter? mark (mark :: (digits ++ rest)) = some ⟨digitsValue digits, digits.length⟩ := by
  rw [numberAfter?, if_pos (beq_self_eq_true mark)]
  exact Text.leadingNumber?_numeral_append hdigits hrest

theorem exists_numeral_of_numberAfter? {mark : Char} {text : List Char} {n : Text.Leading}
    (h : numberAfter? mark text = some n) :
    ∃ digits rest, text = mark :: (digits ++ rest) ∧ IsNumeral digits ∧ NoDigitAhead rest := by
  cases text with
  | nil => cases h
  | cons c text =>
    rw [numberAfter?] at h
    split at h
    · rename_i hc
      obtain ⟨digits, rest, rfl, hdigits, hrest⟩ := Text.exists_numeral_of_leadingNumber? h
      exact ⟨digits, rest, by rw [beq_iff_eq.1 hc], hdigits, hrest⟩
    · cases h

theorem rangeEnd?_numerals {f g rest : List Char} (hf : IsNumeral f) (hg : IsNumeral g)
    (hrest : NoDigitAhead rest) :
    rangeEnd? ('-' :: (f ++ ':' :: (g ++ rest))) =
      some ((digitsValue f, digitsValue g), f.length + g.length + 2) := by
  have hcolon : NoDigitAhead (':' :: (g ++ rest)) := noDigitAhead_cons (by decide) _
  unfold rangeEnd?
  rw [numberAfter?_numeral hf hcolon]
  simp only [Option.bind_eq_bind, Option.bind_some, List.drop_succ_cons, List.drop_left]
  rw [numberAfter?_numeral hg hrest]
  rfl

theorem exists_numerals_of_rangeEnd? {text : List Char} {stop : (Nat × Nat) × Nat}
    (h : rangeEnd? text = some stop) :
    ∃ f g rest, text = '-' :: (f ++ ':' :: (g ++ rest)) ∧ IsNumeral f ∧ IsNumeral g ∧
      NoDigitAhead rest := by
  unfold rangeEnd? at h
  simp only [Option.bind_eq_bind, Option.bind_eq_some_iff] at h
  obtain ⟨line, hline, column, hcolumn, -⟩ := h
  obtain ⟨f, after, rfl, hf, hafter⟩ := exists_numeral_of_numberAfter? hline
  rw [numberAfter?_numeral hf hafter] at hline
  obtain rfl := Option.some.inj hline
  rw [List.drop_succ_cons, List.drop_left] at hcolumn
  obtain ⟨g, rest, rfl, hg, hrest⟩ := exists_numeral_of_numberAfter? hcolumn
  exact ⟨f, g, rest, rfl, hf, hg, hrest⟩

theorem read?_line {d rest : List Char} (hd : IsNumeral d) (hrest : NoDigitAhead rest)
    (hcolumn : numberAfter? ':' rest = none) :
    read? (d ++ rest) = some (WrittenLocator.line d).locator := by
  unfold read?
  rw [Text.leadingNumber?_numeral_append hd hrest]
  simp only [Option.bind_eq_bind, Option.bind_some, List.drop_left]
  rw [hcolumn]
  rfl

/-- Behind a line and a column the end of a range is read. -/
theorem read?_column {d e rest : List Char} (hd : IsNumeral d) (he : IsNumeral e)
    (hrest : NoDigitAhead rest) :
    read? (d ++ ':' :: (e ++ rest)) =
      some ((rangeEnd? rest).elim (WrittenLocator.position d e).locator fun stop =>
        ⟨digitsValue d, some (digitsValue e), some stop.1, d.length + 1 + e.length + stop.2⟩) := by
  have htaken : (WrittenLocator.position d e).text.length = d.length + 1 + e.length := by
    simp only [WrittenLocator.text, List.length_append, List.length_cons]
    omega
  have htext : d ++ ':' :: (e ++ rest) = (WrittenLocator.position d e).text ++ rest := by
    simp [WrittenLocator.text]
  unfold read?
  rw [Text.leadingNumber?_numeral_append hd (noDigitAhead_cons (by decide) _)]
  simp only [Option.bind_eq_bind, Option.bind_some, List.drop_left]
  rw [numberAfter?_numeral he hrest, htext, locator, htaken]
  dsimp only
  rw [← htaken, List.drop_left]
  cases rangeEnd? rest with
  | none => rfl
  | some stop => rfl

/-- The longest locator is read. -/
theorem read?_of_isLongest {written : WrittenLocator} {text : List Char}
    (h : written.IsLongest text) : read? text = some written.locator := by
  obtain ⟨rest, rfl, hrest⟩ := h.starts.ahead
  have hnumeral := h.starts.numeral
  cases written with
  | line d =>
    have hd : IsNumeral d := by simpa [numbers] using hnumeral
    refine read?_line hd hrest (Option.eq_none_iff_forall_ne_some.2 fun n hn => ?_)
    obtain ⟨e, after, rfl, he, hafter⟩ := exists_numeral_of_numberAfter? hn
    refine h.not_starts (.position d e) ?_ ⟨?_, after, ?_, hafter⟩
    · simp [WrittenLocator.text]
    · simpa [numbers] using ⟨hd, he⟩
    · simp [WrittenLocator.text]
  | position d e =>
    obtain ⟨hd, he⟩ : IsNumeral d ∧ IsNumeral e := by simpa [numbers] using hnumeral
    have hstop : rangeEnd? rest = none := by
      refine Option.eq_none_iff_forall_ne_some.2 fun stop hstop => ?_
      obtain ⟨f, g, after, rfl, hf, hg, hafter⟩ := exists_numerals_of_rangeEnd? hstop
      refine h.not_starts (.range d e f g) ?_ ⟨?_, after, ?_, hafter⟩
      · simp only [WrittenLocator.text, List.length_append, List.length_cons]
        omega
      · simpa [numbers] using ⟨hd, he, hf, hg⟩
      · simp [WrittenLocator.text]
    rw [show (WrittenLocator.position d e).text ++ rest = d ++ ':' :: (e ++ rest) by
      simp [WrittenLocator.text], read?_column hd he hrest, hstop, Option.elim_none]
  | range d e f g =>
    obtain ⟨hd, he, hf, hg⟩ : IsNumeral d ∧ IsNumeral e ∧ IsNumeral f ∧ IsNumeral g := by
      simpa [numbers] using hnumeral
    rw [show (WrittenLocator.range d e f g).text ++ rest =
        d ++ ':' :: (e ++ '-' :: (f ++ ':' :: (g ++ rest))) by simp [WrittenLocator.text],
      read?_column hd he (noDigitAhead_cons (by decide) _), rangeEnd?_numerals hf hg hrest,
      Option.elim_some]
    simp only [locator, WrittenLocator.text, List.length_append, List.length_cons]
    congr 2
    omega

theorem exists_starts_of_read? {text : List Char} {locator : Locator}
    (h : read? text = some locator) : ∃ written : WrittenLocator, written.Starts text := by
  unfold read? at h
  simp only [Option.bind_eq_bind, Option.bind_eq_some_iff] at h
  obtain ⟨line, hline, -⟩ := h
  obtain ⟨d, rest, rfl, hd, hrest⟩ := Text.exists_numeral_of_leadingNumber? hline
  exact ⟨.line d, by simpa [numbers] using hd, rest, rfl, hrest⟩

/-- What is read is the longest locator that the text starts with. -/
theorem read?_eq_some_iff {text : List Char} {locator : Locator} :
    read? text = some locator ↔
      ∃ written : WrittenLocator, written.IsLongest text ∧ written.locator = locator := by
  constructor
  · intro h
    obtain ⟨first, hfirst⟩ := exists_starts_of_read? h
    obtain ⟨written, hwritten⟩ := exists_isLongest first hfirst
    refine ⟨written, hwritten, ?_⟩
    exact Option.some.inj ((read?_of_isLongest hwritten).symm.trans h)
  · rintro ⟨written, hwritten, rfl⟩
    exact read?_of_isLongest hwritten

theorem read?_eq_none_iff {text : List Char} :
    read? text = none ↔ ∀ written : WrittenLocator, ¬ written.Starts text := by
  constructor
  · intro h written hstarts
    obtain ⟨longest, hlongest⟩ := exists_isLongest written hstarts
    rw [read?_of_isLongest hlongest] at h
    cases h
  · intro h
    cases hread : read? text with
    | none => rfl
    | some locator =>
      obtain ⟨written, hstarts⟩ := exists_starts_of_read? hread
      exact absurd hstarts (h written)

end Locator

end LiterateCheck
