import Mathlib.Data.Bool.AllAny
import Mathlib.Data.List.Infix
import LiterateCheck.SourceMap.Relocate
import LiterateCheck.Proofs.Text.Decimal

/-!
# Finding locations in a text

Each part of a location is found by its own scan: the marker from the left, the start of the path
from the right, the numbers behind the marker. Where the text is put together from these parts, the
scans take it apart again.

1. `splitAtMark?_append`, `splitAtDelimiter_append`, `pathEnd_append`, `Locator.read?_append`: one
   lemma for each scan.
2. `relocateChars_append`: so a location behind a delimiter is replaced as a whole, and what follows
   is relocated as if it stood alone.
-/

namespace LiterateCheck

/-- A text is empty, or its last character satisfies `p`. -/
def EndsWith (p : Char → Prop) (text : List Char) : Prop :=
  ∀ c ∈ text.getLast?, p c

instance (p : Char → Prop) [DecidablePred p] (text : List Char) : Decidable (EndsWith p text) :=
  decidable_of_iff (text.getLast?.all (decide <| p ·) = true)
    (by simp [EndsWith, Option.all_eq_true])

/-- A line and a column as they are written behind a path and a colon. -/
def locatorText (line column : Nat) : List Char :=
  (toString line).toList ++ ':' :: (toString column).toList

theorem Locator.read?_append {line column : Nat} (hline : line ≤ Text.maxNumber)
    (hcolumn : column ≤ Text.maxNumber) {rest : List Char} (hdigit : Text.NoDigitAhead rest)
    (hrange : rest.head? ≠ some '-') :
    read? (locatorText line column ++ rest) =
      some ⟨line, some column, none, (locatorText line column).length⟩ := by
  have htext : locatorText line column ++ rest =
      (toString line).toList ++ ':' :: ((toString column).toList ++ rest) := by
    unfold locatorText
    rw [List.append_assoc, List.cons_append]
  have hlength : (toString line).toList.length + 1 + (toString column).toList.length =
      (locatorText line column).length := by
    unfold locatorText
    rw [List.length_append, List.length_cons]
    omega
  have hcolon : Text.NoDigitAhead (':' :: ((toString column).toList ++ rest)) := by
    intro c hc
    cases hc
    decide
  have hnumber : numberAfter? ':' (':' :: ((toString column).toList ++ rest)) =
      some ⟨column, (toString column).toList.length⟩ := by
    rw [numberAfter?, if_pos (beq_self_eq_true ':')]
    exact Text.leadingNumber?_append hcolumn hdigit
  have hend : rangeEnd? rest = none := by
    unfold rangeEnd?
    cases rest with
    | nil => rfl
    | cons c rest =>
      have hc : (c == '-') = false := by simpa using hrange
      simp [numberAfter?, hc]
  unfold read?
  rw [htext, Text.leadingNumber?_append hline hcolon]
  simp only [Option.bind_eq_bind, Option.bind_some, List.drop_left]
  rw [hnumber]
  dsimp only
  rw [hlength, ← htext, List.drop_left, hend]

namespace SourceMap

theorem splitAtMark?_append {mark before : List Char} (hmark : mark ≠ [])
    (h : ¬ mark <:+: before ++ mark.dropLast) (after : List Char) :
    splitAtMark? mark (before ++ (mark ++ after)) = some (before, after) := by
  induction before with
  | nil =>
    obtain ⟨c, rest, rfl⟩ := List.exists_cons_of_ne_nil hmark
    have hfirst : (c :: rest).isPrefixOf (c :: (rest ++ after)) = true :=
      List.isPrefixOf_iff_prefix.2 (List.prefix_append (c :: rest) after)
    rw [List.nil_append, List.cons_append, splitAtMark?, if_pos hfirst]
    rw [← List.cons_append, List.drop_left]
  | cons c before ih =>
    have hrest : ¬ mark <:+: before ++ mark.dropLast := fun hwithin =>
      h (hwithin.trans (List.suffix_cons ..).isInfix)
    have hprefix : ¬ mark.isPrefixOf (c :: (before ++ (mark ++ after))) = true := by
      intro hp
      have hlong := List.isPrefixOf_iff_prefix.1 hp
      have hshort : c :: (before ++ mark.dropLast) <+: c :: (before ++ (mark ++ after)) := by
        rw [List.cons_prefix_cons, List.prefix_append_right_inj]
        exact ⟨rfl, (List.dropLast_prefix mark).trans (List.prefix_append ..)⟩
      refine h (List.prefix_of_prefix_length_le hlong hshort ?_).isInfix
      have hpos := List.length_pos_iff.2 hmark
      simp only [List.length_cons, List.length_append, List.length_dropLast]
      omega
    rw [List.cons_append, splitAtMark?, if_neg hprefix, ih hrest]
    rfl

/-- A mark does not stand across the end of a text whose last character it does not hold. -/
theorem not_infix_append {mark left right : List Char} (hend : EndsWith (· ∉ mark) left)
    (hleft : ¬ mark <:+: left) (hright : ¬ mark <:+: right) : ¬ mark <:+: left ++ right := by
  rintro ⟨front, back, h⟩
  rw [List.append_assoc] at h
  rcases List.append_eq_append_iff.1 h with ⟨middle, rfl, hmiddle⟩ | ⟨middle, rfl, hmiddle⟩
  · rcases List.append_eq_append_iff.1 hmiddle with ⟨rest, rfl, -⟩ | ⟨rest, rfl, hrest⟩
    · exact hleft ⟨front, rest, by simp⟩
    · cases hlast : middle.getLast? with
      | none =>
        rw [List.getLast?_eq_none_iff.1 hlast] at hright
        exact hright ⟨[], back, hrest.symm⟩
      | some c =>
        refine hend c (by rw [List.getLast?_append, hlast]; rfl) ?_
        exact List.mem_append_left rest (List.mem_of_getLast? hlast)
  · exact hright ⟨middle, back, by simp [hmiddle]⟩

theorem not_infix_append_cons {mark left right : List Char} {c : Char} (hc : c ∉ mark)
    (hleft : ¬ mark <:+: left) (hright : ¬ mark <:+: right) : ¬ mark <:+: left ++ c :: right := by
  have hconcat : ¬ mark <:+: left ++ [c] := by
    rw [List.infix_concat_iff, List.suffix_concat_iff]
    rintro ((rfl | ⟨front, rfl, -⟩) | h)
    · exact hleft List.nil_infix
    · exact hc (List.mem_append_right _ (List.mem_singleton_self c))
    · exact hleft h
  have hend : EndsWith (· ∉ mark) (left ++ [c]) := by
    intro d hd
    rw [List.getLast?_concat] at hd
    obtain rfl := Option.some.inj hd
    exact hc
  rw [← List.singleton_append, ← List.append_assoc]
  exact not_infix_append hend hconcat hright

/-- A mark does not stand across the end of a text when what follows lacks its last character. -/
theorem not_infix_append_of_not_mem {mark left right : List Char} {c : Char} (hc : c ∉ right)
    (hleft : ¬ mark ++ [c] <:+: left) : ¬ mark ++ [c] <:+: left ++ right := by
  rintro ⟨front, back, h⟩
  rcases List.append_eq_append_iff.1 h with ⟨middle, rfl, -⟩ | ⟨middle, hfront, rfl⟩
  · exact hleft ⟨front, middle, rfl⟩
  · cases hlast : middle.getLast? with
    | none =>
      rw [List.getLast?_eq_none_iff.1 hlast, List.append_nil] at hfront
      exact hleft ⟨front, [], by rw [List.append_nil, hfront]⟩
    | some d =>
      have hend := congrArg List.getLast? hfront
      rw [← List.append_assoc, List.getLast?_concat, List.getLast?_append, hlast] at hend
      obtain rfl := Option.some.inj hend
      exact hc (List.mem_append_left _ (List.mem_of_getLast? hlast))

theorem splitAtDelimiter_append {left path : List Char}
    (hleft : EndsWith (isDelimiter · = true) left) (hpath : ∀ c ∈ path, isDelimiter c = false) :
    splitAtDelimiter (left ++ path) = (left, path) := by
  have hrun : (left ++ path).reverse.takeWhile (fun c => !isDelimiter c) = path.reverse := by
    rw [List.reverse_append]
    refine Text.takeWhile_append_of_head (fun c hc => ?_) (fun c hc => ?_)
    · rw [hpath c (List.mem_reverse.1 hc)]
      rfl
    · rw [List.head?_reverse] at hc
      rw [hleft c hc]
      rfl
  unfold splitAtDelimiter
  rw [hrun, List.reverse_reverse]
  dsimp only
  rw [List.length_append, Nat.add_sub_cancel, List.take_left]

theorem pathEnd_append {front directory name : List Char} (hfront : EndsWith (· = '/') front)
    (hdirectory : ∀ c ∈ directory, c ≠ '/' ∧ c ≠ '\\') (hname : ∀ c ∈ name, c ≠ '/' ∧ c ≠ '\\') :
    pathEnd (front ++ directory ++ '/' :: name) =
      (String.ofList directory, String.ofList name) := by
  have hkeep {text : List Char} (h : ∀ c ∈ text, c ≠ '/' ∧ c ≠ '\\') :
      text.map (fun c => if c == '\\' then '/' else c) = text ∧ text.splitOn '/' = [text] := by
    refine ⟨(List.map_congr_left fun c hc => ?_).trans (List.map_id _),
      List.splitOn_eq_singleton fun hc => (h _ hc).1 rfl⟩
    rw [if_neg (by simpa using (h c hc).2)]
    rfl
  obtain ⟨pieces, hpieces⟩ : ∃ pieces, ((front ++ directory).map
      fun c => if c == '\\' then '/' else c).splitOn '/' = pieces ++ [directory] := by
    rw [List.map_append, (hkeep hdirectory).1]
    cases hlast : front.getLast? with
    | none =>
      rw [List.getLast?_eq_none_iff.1 hlast]
      exact ⟨[], (hkeep hdirectory).2⟩
    | some c =>
      obtain ⟨rest, rfl⟩ := List.getLast?_eq_some_iff.1 hlast
      obtain rfl := hfront c hlast
      rw [List.map_append, List.append_assoc, List.map_singleton, List.singleton_append,
        show (if ('/' == '\\') = true then '/' else '/') = '/' from rfl,
        List.splitOn_append_cons_self, (hkeep hdirectory).2]
      exact ⟨_, rfl⟩
  unfold pathEnd
  rw [List.map_append, List.map_cons, (hkeep hname).1,
    show (if ('/' == '\\') = true then '/' else '/') = '/' from rfl,
    List.splitOn_append_cons_self, hpieces, (hkeep hname).2]
  simp

/-- What stands in place of a location: the position that it came from, or the location itself. -/
def relocated (map : SourceMap) (path : List Char) (line column : Nat) : List Char :=
  match map.replacement? path ⟨line, some column, none, (locatorText line column).length⟩ with
  | some replacement => replacement.toList
  | none => path ++ ':' :: locatorText line column

/-- A location behind a delimiter is replaced as a whole. What stands before it stays, and what
follows is relocated as if it stood alone. -/
theorem relocateChars_append (map : SourceMap) {left path : List Char}
    (hleft : EndsWith (isDelimiter · = true) left) (hpath : ∀ c ∈ path, isDelimiter c = false)
    (hsuffix : generatedSuffix.toList <:+ path) (hmarkLeft : ¬ marker <:+: left)
    (hmarkPath : ¬ marker <:+: path) {line column : Nat} (hline : line ≤ Text.maxNumber)
    (hcolumn : column ≤ Text.maxNumber) {rest : List Char} (hdigit : Text.NoDigitAhead rest)
    (hrange : rest.head? ≠ some '-') :
    map.relocateChars (left ++ (path ++ ':' :: (locatorText line column ++ rest))) =
      left ++ (map.relocated path line column ++ map.relocateChars rest) := by
  obtain ⟨stem, rfl⟩ := hsuffix
  have hdelimiter : EndsWith (· ∉ marker) left := by
    intro c hc hmem
    have hplain : ∀ c ∈ marker, isDelimiter c = false := List.all_iff_forall_prop.1 (by decide)
    have hfalse := hplain c hmem
    rw [hleft c hc] at hfalse
    cases hfalse
  have hmark : ¬ marker <:+: left ++ stem ++ marker.dropLast := by
    rw [show marker.dropLast = generatedSuffix.toList from List.dropLast_concat, List.append_assoc]
    exact not_infix_append hdelimiter hmarkLeft hmarkPath
  have hsplit : splitAtMark? marker
      (left ++ (stem ++ generatedSuffix.toList ++ ':' :: (locatorText line column ++ rest))) =
      some (left ++ stem, locatorText line column ++ rest) := by
    rw [← splitAtMark?_append (by decide) hmark]
    simp [marker]
  have hstem : splitAtDelimiter (left ++ stem) = (left, stem) :=
    splitAtDelimiter_append hleft fun c hc => hpath c (List.mem_append_left _ hc)
  rw [relocateChars]
  split
  · rename_i hnone
    rw [hsplit] at hnone
    cases hnone
  · rename_i before after hsome
    rw [hsplit] at hsome
    cases hsome
    rw [hstem]
    dsimp only
    rw [Locator.read?_append hline hcolumn hdigit hrange]
    dsimp only
    rw [List.take_left, List.drop_left]
    unfold relocated
    cases map.replacement? (stem ++ generatedSuffix.toList)
        ⟨line, some column, none, (locatorText line column).length⟩ with
    | none => simp [marker]
    | some replacement => simp

end SourceMap

end LiterateCheck
