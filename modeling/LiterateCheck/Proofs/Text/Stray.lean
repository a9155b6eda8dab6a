import LiterateCheck.Text.Stray
import LiterateCheck.Proofs.Text.ByteOrder

/-!
# Names and their bytes

1. A name is put together from the pieces of its parts, where no part ends in a NUL or the next
   begins with no character that stands for a byte (`pieces_append`). So sizes add up, and what the
   system refuses in a part it refuses in the whole.
2. A name that is UTF-8 is shown as it is, and its bytes are those of the text (`shown_eq_of_isUtf8`,
   `rawBytes_eq_of_isUtf8`). In any other name U+FFFD is shown, and nothing else that is not in it
   (`mem_shown`).
-/

namespace LiterateCheck.Text

theorem pieces_cons_cons (c d : Char) (rest : List Char) :
    pieces (c :: d :: rest) =
      if c == '\x00' && standsForByte d then .stray (.ofNat d.toNat) :: pieces rest
      else .char c :: pieces (d :: rest) :=
  rfl

theorem pieces_cons_of_ne {c : Char} (hc : c ≠ '\x00') (rest : List Char) :
    pieces (c :: rest) = .char c :: pieces rest := by
  cases rest with
  | nil => rfl
  | cons d rest => rw [pieces_cons_cons, if_neg (by simp [hc])]

/-- Pieces do not go over a boundary that no NUL stands before, or no character behind that stands
for a byte. -/
theorem pieces_append {a b : List Char}
    (h : a.getLast? ≠ some '\x00' ∨ ∀ c ∈ b.head?, standsForByte c = false) :
    pieces (a ++ b) = pieces a ++ pieces b := by
  induction a using pieces.induct with
  | case1 => rfl
  | case2 c =>
    cases b with
    | nil => rfl
    | cons d b =>
      have hpair : (c == '\x00' && standsForByte d) = false := by
        rcases h with h | h
        · simp_all
        · rw [h d rfl, Bool.and_false]
      rw [List.singleton_append, pieces_cons_cons, hpair]
      rfl
  | case3 c d rest hpair ih =>
    have hstands := (Bool.and_eq_true _ _).mp hpair
    have hrest : rest.getLast? ≠ some '\x00' ∨ ∀ c ∈ b.head?, standsForByte c = false := by
      refine h.imp_left fun hlast hnul => hlast ?_
      rw [List.getLast?_cons_cons, List.getLast?_cons, hnul]
      rfl
    rw [List.cons_append, List.cons_append, pieces_cons_cons, pieces_cons_cons, if_pos hpair,
      if_pos hpair, ih hrest, List.cons_append]
  | case4 c d rest hpair ih =>
    rw [List.getLast?_cons_cons] at h
    rw [List.cons_append, List.cons_append, pieces_cons_cons, pieces_cons_cons, if_neg hpair,
      if_neg hpair, ← List.cons_append, ih h, List.cons_append]

/-! ## Names without stray bytes -/

theorem pieces_eq_map {chars : List Char} (h : (pieces chars).all Piece.isChar = true) :
    pieces chars = chars.map .char := by
  induction chars using pieces.induct with
  | case1 => rfl
  | case2 c => rfl
  | case3 c d rest hpair ih =>
    rw [pieces_cons_cons, if_pos hpair] at h
    cases h
  | case4 c d rest hpair ih =>
    rw [pieces_cons_cons, if_neg hpair] at h ⊢
    rw [ih ((Bool.and_eq_true _ _).mp h).2]
    rfl

theorem isUtf8_of_nul_not_mem {name : String} (h : '\x00' ∉ name.toList) : isUtf8 name = true := by
  unfold isUtf8
  suffices ∀ chars : List Char, '\x00' ∉ chars → (pieces chars).all Piece.isChar = true from this _ h
  intro chars hchars
  induction chars with
  | nil => rfl
  | cons c chars ih =>
    rw [List.mem_cons, not_or] at hchars
    rw [pieces_cons_of_ne (Ne.symm hchars.1), List.all_cons, ih hchars.2]
    rfl

theorem utf8?_eq_some_iff {name text : String} :
    utf8? name = some text ↔ isUtf8 name = true ∧ name = text := by
  unfold utf8?
  rw [Option.ite_none_right_eq_some, Option.some.injEq]

theorem rawBytes_eq_of_isUtf8 {name : String} (h : isUtf8 name = true) :
    rawBytes name = bytes name := by
  unfold rawBytes
  rw [bytes_eq_flatMap, pieces_eq_map h, List.flatMap_map]
  rfl

theorem shownFrom_map_char (lead : LeadByte) (chars : List Char) :
    shownFrom lead (chars.map .char) = chars := by
  induction chars generalizing lead with
  | nil => rfl
  | cons c chars ih => rw [List.map_cons, shownFrom, ih]

theorem shown_eq_of_isUtf8 {name : String} (h : isUtf8 name = true) : shown name = name := by
  unfold shown
  rw [pieces_eq_map h, shownFrom_map_char, String.ofList_toList]

/-! ## What is shown -/

theorem char_mem_pieces {c : Char} {chars : List Char} (h : .char c ∈ pieces chars) :
    c ∈ chars := by
  induction chars using pieces.induct with
  | case1 => cases h
  | case2 d => simpa [pieces] using h
  | case3 d e rest hpair ih =>
    rw [pieces_cons_cons, if_pos hpair, List.mem_cons] at h
    exact List.mem_cons_of_mem _ (List.mem_cons_of_mem _ (ih (h.resolve_left nofun)))
  | case4 d e rest hpair ih =>
    rw [pieces_cons_cons, if_neg hpair, List.mem_cons] at h
    rcases h with h | h
    · exact Piece.char.inj h ▸ List.mem_cons_self
    · exact List.mem_cons_of_mem _ (ih h)

theorem mem_shownFrom {c : Char} {lead : LeadByte} {made : List Piece}
    (h : c ∈ shownFrom lead made) : c = '\uFFFD' ∨ .char c ∈ made := by
  induction made generalizing lead with
  | nil => cases h
  | cons piece made ih =>
    cases piece with
    | char d =>
      rw [shownFrom, List.mem_cons] at h
      rcases h with rfl | h
      · exact .inr List.mem_cons_self
      · exact (ih h).imp_right (List.mem_cons_of_mem _)
    | stray b =>
      rw [shownFrom] at h
      split at h
      · exact (ih h).imp_right (List.mem_cons_of_mem _)
      · rcases List.mem_cons.1 h with rfl | h
        · exact .inl rfl
        · exact (ih h).imp_right (List.mem_cons_of_mem _)

/-- What is shown of a name stands in it, but for U+FFFD. -/
theorem mem_shown {c : Char} {name : String} (h : c ∈ (shown name).toList) :
    c = '\uFFFD' ∨ c ∈ name.toList := by
  unfold shown at h
  rw [String.toList_ofList] at h
  exact (mem_shownFrom h).imp_right char_mem_pieces

/-- What is shown first of a name is no byte of it. -/
theorem standsForByte_of_mem_head? {c d : Char} {rest : List Char} (hc : standsForByte c = false)
    (h : d ∈ (shownFrom .nothing (pieces (c :: rest))).head?) : standsForByte d = false := by
  cases rest with
  | nil => exact Option.some.inj h ▸ hc
  | cons e rest =>
    rw [pieces_cons_cons] at h
    split at h
    · exact Option.some.inj h ▸ by decide
    · exact Option.some.inj h ▸ hc

/-- What is shown is UTF-8. -/
theorem isUtf8_shown (name : String) : isUtf8 (shown name) = true := by
  unfold isUtf8 shown
  rw [String.toList_ofList]
  suffices ∀ (lead : LeadByte) (chars : List Char),
      (pieces (shownFrom lead (pieces chars))).all Piece.isChar = true from this _ _
  intro lead chars
  induction chars using pieces.induct generalizing lead with
  | case1 => rfl
  | case2 c => rfl
  | case3 c d rest hpair ih =>
    rw [pieces_cons_cons, if_pos hpair, shownFrom]
    split
    · exact ih _
    · rw [pieces_cons_of_ne (by decide), List.all_cons, ih]
      rfl
  | case4 c d rest hpair ih =>
    rw [pieces_cons_cons, if_neg hpair, shownFrom]
    have hbehind : [c].getLast? ≠ some '\x00' ∨
        ∀ e ∈ (shownFrom .nothing (pieces (d :: rest))).head?, standsForByte e = false := by
      rw [Bool.not_eq_true, Bool.and_eq_false_iff] at hpair
      refine hpair.imp (fun hc heq => ?_) fun hd e he => standsForByte_of_mem_head? hd he
      rw [List.getLast?_singleton, Option.some.injEq] at heq
      rw [heq] at hc
      cases hc
    rw [← List.singleton_append, pieces_append hbehind, List.all_append, ih]
    rfl

/-! ### Characters where they are shown -/

theorem shownFrom_append_char (lead : LeadByte) (made : List Piece) (c : Char)
    (others : List Piece) :
    shownFrom lead (made ++ .char c :: others) =
      shownFrom lead made ++ c :: shownFrom .nothing others := by
  induction made generalizing lead with
  | nil => rfl
  | cons piece made ih =>
    cases piece with
    | char d => rw [List.cons_append, shownFrom, shownFrom, ih, List.cons_append]
    | stray b =>
      rw [List.cons_append, shownFrom, shownFrom]
      split
      · exact ih _
      · rw [ih, List.cons_append]

theorem eq_nil_of_shownFrom_nothing {made : List Piece} (h : shownFrom .nothing made = []) :
    made = [] := by
  cases made with
  | nil => rfl
  | cons piece made => cases piece <;> cases h

/-- A character other than U+FFFD is shown only where it stands. -/
theorem exists_of_shownFrom_eq {lead : LeadByte} {made : List Piece} {front back : List Char}
    {c : Char} (hc : c ≠ '\uFFFD') (h : shownFrom lead made = front ++ c :: back) :
    ∃ first second, made = first ++ .char c :: second ∧ shownFrom lead first = front ∧
      shownFrom .nothing second = back := by
  induction made generalizing lead front with
  | nil => simp [shownFrom] at h
  | cons piece made ih =>
    cases piece with
    | char d =>
      rw [shownFrom] at h
      cases front with
      | nil =>
        obtain ⟨rfl, hback⟩ := List.cons.inj h
        exact ⟨[], made, rfl, rfl, hback⟩
      | cons e front =>
        obtain ⟨rfl, hrest⟩ := List.cons.inj h
        obtain ⟨first, second, rfl, rfl, hback⟩ := ih hrest
        exact ⟨.char d :: first, second, rfl, rfl, hback⟩
    | stray b =>
      rw [shownFrom] at h
      split at h
      · rename_i hawaited
        obtain ⟨first, second, rfl, rfl, hback⟩ := ih h
        exact ⟨.stray b :: first, second, rfl, by rw [shownFrom, if_pos hawaited], hback⟩
      · rename_i hawaited
        cases front with
        | nil => exact absurd (List.cons.inj h).1.symm hc
        | cons e front =>
          obtain ⟨rfl, hrest⟩ := List.cons.inj h
          obtain ⟨first, second, rfl, rfl, hback⟩ := ih hrest
          exact ⟨.stray b :: first, second, rfl, by rw [shownFrom, if_neg hawaited], hback⟩

theorem exists_of_shownFrom_nothing_eq {made : List Piece} {front back : List Char}
    (hfront : '\uFFFD' ∉ front) (h : shownFrom .nothing made = front ++ back) :
    ∃ second, made = front.map .char ++ second ∧ shownFrom .nothing second = back := by
  induction front generalizing made with
  | nil => exact ⟨made, rfl, h⟩
  | cons c front ih =>
    rw [List.mem_cons, not_or] at hfront
    obtain ⟨first, second, rfl, hnil, hrest⟩ :=
      @exists_of_shownFrom_eq _ _ [] _ _ (Ne.symm hfront.1) h
    obtain ⟨second, rfl, hback⟩ := ih hfront.2 hrest
    rw [eq_nil_of_shownFrom_nothing hnil]
    exact ⟨second, rfl, hback⟩

theorem exists_of_shownFrom_eq_append {lead : LeadByte} {made : List Piece}
    {front middle back : List Char} (hne : middle ≠ []) (hmiddle : '\uFFFD' ∉ middle)
    (h : shownFrom lead made = front ++ (middle ++ back)) :
    ∃ first second, made = first ++ (middle.map .char ++ second) ∧ shownFrom lead first = front ∧
      shownFrom .nothing second = back := by
  obtain ⟨c, middle, rfl⟩ := List.exists_cons_of_ne_nil hne
  rw [List.mem_cons, not_or] at hmiddle
  obtain ⟨first, second, rfl, hfirst, hrest⟩ := exists_of_shownFrom_eq (Ne.symm hmiddle.1) h
  obtain ⟨second, rfl, hback⟩ := exists_of_shownFrom_nothing_eq hmiddle.2 hrest
  exact ⟨first, second, rfl, hfirst, hback⟩

/-! ### Names as they are written -/

/-- How a piece is written. -/
def Piece.chars : Piece → List Char
  | char c => [c]
  | stray b => ['\x00', .ofNat b.toNat]

theorem flatMap_pieces (chars : List Char) : (pieces chars).flatMap Piece.chars = chars := by
  induction chars using pieces.induct with
  | case1 => rfl
  | case2 c => rfl
  | case3 c d rest hpair ih =>
    obtain ⟨hc, hd⟩ := (Bool.and_eq_true _ _).mp hpair
    have hsmall : (UInt8.ofNat d.toNat).toNat = d.toNat := by
      have hle : d.toNat ≤ 0xFF := of_decide_eq_true ((Bool.and_eq_true _ _).mp hd).2
      exact UInt8.toNat_ofNat_of_lt' (Nat.lt_succ_of_le hle)
    rw [pieces_cons_cons, if_pos hpair, List.flatMap_cons, ih, Piece.chars, hsmall,
      Char.ofNat_toNat, beq_iff_eq.1 hc]
    rfl
  | case4 c d rest hpair ih =>
    rw [pieces_cons_cons, if_neg hpair, List.flatMap_cons, ih]
    rfl

theorem flatMap_map_char (chars : List Char) :
    (chars.map Piece.char).flatMap Piece.chars = chars := by
  rw [List.flatMap_map]
  exact List.flatMap_singleton' chars

/-- A text without U+FFFD is shown in a name only where it is written. -/
theorem infix_of_infix_shown {mark : List Char} {name : String} (hmark : '\uFFFD' ∉ mark)
    (h : mark <:+: (shown name).toList) : mark <:+: name.toList := by
  by_cases hnil : mark = []
  · rw [hnil]
    exact List.nil_infix
  obtain ⟨front, back, hshown⟩ := h
  unfold shown at hshown
  rw [String.toList_ofList, List.append_assoc] at hshown
  obtain ⟨first, second, hpieces, -⟩ := exists_of_shownFrom_eq_append hnil hmark hshown.symm
  rw [← flatMap_pieces name.toList, hpieces, List.flatMap_append, List.flatMap_append,
    flatMap_map_char, ← List.append_assoc]
  exact ⟨_, _, rfl⟩

/-- A text that keeps apart from any name before it, and is shown as it is. -/
structure IsPlainEnd (back : String) : Prop where
  ne_empty : back ≠ ""
  noNul : '\x00' ∉ back.toList
  noMark : '\uFFFD' ∉ back.toList
  head : back.toList.head?.any standsForByte = false

theorem IsPlainEnd.pieces_append {back : String} (h : IsPlainEnd back) (front : List Char) :
    pieces (front ++ back.toList) = pieces front ++ back.toList.map .char := by
  have hhead : ∀ c ∈ back.toList.head?, standsForByte c = false :=
    (Option.any_eq_false _ _).1 h.head
  rw [Text.pieces_append (.inr hhead), pieces_eq_map (isUtf8_of_nul_not_mem h.noNul)]

theorem shownFrom_append_map_char (lead : LeadByte) (made : List Piece) {chars : List Char}
    (hne : chars ≠ []) :
    shownFrom lead (made ++ chars.map .char) = shownFrom lead made ++ chars := by
  obtain ⟨c, chars, rfl⟩ := List.exists_cons_of_ne_nil hne
  rw [List.map_cons, shownFrom_append_char, shownFrom_map_char]

theorem IsPlainEnd.shown_append {back : String} (h : IsPlainEnd back) (front : String) :
    shown (front ++ back) = shown front ++ back := by
  unfold shown
  rw [String.toList_append, h.pieces_append,
    shownFrom_append_map_char _ _ (by simpa using h.ne_empty), String.ofList_append,
    String.ofList_toList]

theorem IsPlainEnd.shown_eq_append_iff {name front back : String} (h : IsPlainEnd back) :
    shown name = front ++ back ↔ ∃ first, name = first ++ back ∧ shown first = front := by
  constructor
  · intro hshown
    unfold shown at hshown
    rw [← String.toList_inj, String.toList_ofList, String.toList_append,
      ← List.append_nil back.toList] at hshown
    obtain ⟨first, second, hpieces, hfirst, hsecond⟩ :=
      exists_of_shownFrom_eq_append (by simpa using h.ne_empty) h.noMark hshown
    rw [eq_nil_of_shownFrom_nothing hsecond, List.append_nil] at hpieces
    have hname : name.toList = first.flatMap Piece.chars ++ back.toList := by
      rw [← flatMap_pieces name.toList, hpieces, List.flatMap_append, flatMap_map_char]
    have hraw : pieces (first.flatMap Piece.chars) = first := by
      rw [hname, h.pieces_append] at hpieces
      exact List.append_cancel_right hpieces
    refine ⟨String.ofList (first.flatMap Piece.chars), ?_, ?_⟩
    · rw [← String.toList_inj, hname, String.toList_append, String.toList_ofList]
    · unfold shown
      rw [String.toList_ofList, hraw, hfirst, String.ofList_toList]
  · rintro ⟨first, rfl, rfl⟩
    exact h.shown_append first

theorem IsPlainEnd.isUtf8_append {back : String} (h : IsPlainEnd back) (front : String) :
    isUtf8 (front ++ back) = isUtf8 front := by
  unfold isUtf8
  rw [String.toList_append, h.pieces_append, List.all_append,
    show (back.toList.map Piece.char).all Piece.isChar = true by simp [Piece.isChar],
    Bool.and_true]

/-- A separator parts what is shown. -/
theorem shown_append_separator (front back : String) :
    shown (front ++ "/" ++ back) = shown front ++ "/" ++ shown back := by
  have hpieces : pieces (front ++ "/" ++ back).toList =
      pieces front.toList ++ .char '/' :: pieces back.toList := by
    rw [String.append_assoc, String.toList_append, pieces_append (.inr (by simp; decide)),
      String.toList_append, show "/".toList = ['/'] from rfl, List.singleton_append,
      pieces_cons_of_ne (by decide)]
  unfold shown
  rw [hpieces, shownFrom_append_char, String.ofList_append, String.ofList_cons,
    ← String.append_assoc]
  rfl

theorem shown_eq_empty_iff {name : String} : shown name = "" ↔ name = "" := by
  constructor
  · intro h
    unfold shown at h
    rw [← String.toList_inj, String.toList_ofList] at h
    rw [← String.toList_inj, ← flatMap_pieces name.toList, eq_nil_of_shownFrom_nothing h]
    rfl
  · rintro rfl
    rfl

/-! ## Sizes -/

theorem rawSize_pos {name : String} (h : name ≠ "") : 0 < rawSize name := by
  have hsize (piece : Piece) : piece.bytes ≠ [] := by
    cases piece with
    | char c => exact String.utf8EncodeChar_ne_nil
    | stray b => exact List.cons_ne_nil _ _
  unfold rawSize rawBytes
  rw [List.length_pos_iff]
  intro hnil
  refine h ?_
  rw [← String.toList_inj, ← flatMap_pieces name.toList]
  cases hpieces : pieces name.toList with
  | nil => rfl
  | cons piece others =>
    rw [hpieces, List.flatMap_cons, List.append_eq_nil_iff] at hnil
    exact absurd hnil.1 (hsize piece)

end LiterateCheck.Text
