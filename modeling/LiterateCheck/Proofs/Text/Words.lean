import LiterateCheck.Text.Blank

/-!
# Words of a text

Blanks part words and belong to none, so the words of two texts with a blank between them are the
words of the one and of the other (`words_append_blank`), and blanks at its ends add none
(`words_trim`). Where the space is the only blank, words are the pieces between spaces
(`words_eq_splitOn`).
-/

namespace LiterateCheck.Text

theorem splitOnP_congr {p q : Char → Bool} {text : List Char} (h : ∀ c ∈ text, p c = q c) :
    text.splitOnP p = text.splitOnP q := by
  induction text with
  | nil => rfl
  | cons c rest ih =>
    obtain ⟨hc, hrest⟩ := List.forall_mem_cons.1 h
    rw [List.splitOnP_cons_eq_if_modifyHead, List.splitOnP_cons_eq_if_modifyHead, hc, ih hrest]

theorem words_eq_splitOn {text : List Char} (h : ∀ c ∈ text, isBlank c = (c == ' ')) :
    words text = (text.splitOn ' ').filter fun piece => !piece.isEmpty := by
  unfold words
  rw [List.splitOn_eq_splitOnP, splitOnP_congr h]

theorem words_append_blank (front back : List Char) {blank : Char} (h : isBlank blank = true) :
    words (front ++ blank :: back) = words front ++ words back := by
  unfold words
  rw [List.splitOnP_append_cons front back h, List.filter_append]

theorem words_nil : words [] = [] := rfl

theorem words_blanks_append {blanks : List Char} (h : ∀ c ∈ blanks, isBlank c = true)
    (text : List Char) : words (blanks ++ text) = words text := by
  induction blanks with
  | nil => rfl
  | cons blank others ih =>
    obtain ⟨hblank, hothers⟩ := List.forall_mem_cons.1 h
    have hfirst := words_append_blank [] (others ++ text) hblank
    rw [words_nil, List.nil_append, List.nil_append] at hfirst
    rw [List.cons_append, hfirst, ih hothers]

theorem words_eq_nil {blanks : List Char} (h : ∀ c ∈ blanks, isBlank c = true) :
    words blanks = [] := by
  have hwords := words_blanks_append h []
  rwa [List.append_nil, words_nil] at hwords

theorem words_append_blanks (text : List Char) {blanks : List Char}
    (h : ∀ c ∈ blanks, isBlank c = true) : words (text ++ blanks) = words text := by
  cases blanks with
  | nil => rw [List.append_nil]
  | cons blank others =>
    obtain ⟨hblank, hothers⟩ := List.forall_mem_cons.1 h
    rw [words_append_blank text others hblank, words_eq_nil hothers, List.append_nil]

theorem words_dropWhile {p : Char → Bool} (hp : ∀ c, p c = true → isBlank c = true)
    (text : List Char) : words (text.dropWhile p) = words text := by
  have hblanks : ∀ c ∈ text.takeWhile p, isBlank c = true := fun c hc =>
    hp c (List.all_eq_true.1 List.all_takeWhile c hc)
  calc words (text.dropWhile p)
      = words (text.takeWhile p ++ text.dropWhile p) := (words_blanks_append hblanks _).symm
    _ = words text := by rw [List.takeWhile_append_dropWhile]

theorem words_trim (text : List Char) : words (trim text) = words text := by
  have hback (front : List Char) : words (dropEndWhile isBlank front) = words front := by
    have hblanks : ∀ c ∈ (front.reverse.takeWhile isBlank).reverse, isBlank c = true := fun c hc =>
      List.all_eq_true.1 List.all_takeWhile c (List.mem_reverse.1 hc)
    calc words (dropEndWhile isBlank front)
        = words (dropEndWhile isBlank front ++ (front.reverse.takeWhile isBlank).reverse) :=
          (words_append_blanks _ hblanks).symm
      _ = words front := by
          unfold dropEndWhile
          rw [← List.reverse_append, List.takeWhile_append_dropWhile, List.reverse_reverse]
  unfold trim
  rw [hback, words_dropWhile fun _ h => h]

end LiterateCheck.Text
