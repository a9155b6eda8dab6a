import LiterateCheck.Proofs.Text.Stray

/-!
# Names that bytes make

The names of the system are bytes, and `ofRaw` makes a name of them. As long as no NUL is among the
bytes, which is so in every name that the system takes, nothing is lost:

1. The name has these bytes (`rawBytes_ofRaw`).
2. It is shown as the bytes are read, with U+FFFD for what is not UTF-8 (`shown_ofRaw`).
3. It is UTF-8 exactly when the bytes are those of a text, and it is this text
   (`utf8?_ofRaw_eq_some_iff`).

The bytes of a character are read as the character, and no others are (`exists_following_encode`,
`cons_eq_of_following`).
-/

namespace LiterateCheck.Text

/-! ## Reading a character -/

theorem following_zero (value low high : Nat) (raw : List UInt8) :
    following value 0 low high raw = (some value, raw) := by
  cases raw <;> rfl

theorem following_ofNat_cons {value count low high n : Nat} (rest : List UInt8) (hlow : low ≤ n)
    (hhigh : n ≤ high) (hlt : n < 0x100) :
    following value (count + 1) low high (.ofNat n :: rest) =
      following (value * 64 + n % 64) count 0x80 0xBF rest := by
  rw [following, show (UInt8.ofNat n).toNat = n from UInt8.toNat_ofNat_of_lt' hlt, if_pos]
  rw [Bool.and_eq_true, decide_eq_true_eq, decide_eq_true_eq]
  exact ⟨hlow, hhigh⟩

theorem exists_of_following_succ {value count low high v : Nat} {raw left : List UInt8}
    (h : following value (count + 1) low high raw = (some v, left)) :
    ∃ b rest, raw = b :: rest ∧ low ≤ b.toNat ∧ b.toNat ≤ high ∧
      following (value * 64 + b.toNat % 64) count 0x80 0xBF rest = (some v, left) := by
  cases raw with
  | nil => cases h
  | cons b rest =>
    rw [following] at h
    split at h
    · rename_i hrange
      rw [Bool.and_eq_true, decide_eq_true_eq, decide_eq_true_eq] at hrange
      exact ⟨b, rest, rfl, hrange.1, hrange.2, h⟩
    · cases h

theorem following_suffix (value count low high : Nat) (raw : List UInt8) :
    (following value count low high raw).2 <:+ raw := by
  fun_induction following value count low high raw with
  | case1 => exact List.suffix_rfl
  | case2 => exact List.suffix_rfl
  | case3 value low high count b rest h ih => exact ih.trans (List.suffix_cons b rest)
  | case4 => exact List.suffix_rfl

/-- What a first byte announces. The second byte is above `low` where a shorter encoding would do,
and below `high` where a surrogate or a number above the last code point would follow. -/
inductive LeadByte.Announced : LeadByte → Nat → Prop where
  | alone {b : Nat} (hb : b < 0x80) : Announced ⟨b, 0, 0x80, 0xBF⟩ b
  | ofTwo {b bits : Nat} (hb : b = bits + 0xC0) (hle : 2 ≤ bits) (hlt : bits < 0x20) :
      Announced ⟨bits, 1, 0x80, 0xBF⟩ b
  | ofThree {b bits low high : Nat} (hb : b = bits + 0xE0) (hlt : bits < 0x10)
      (hlow : 0x80 ≤ low) (hhigh : high ≤ 0xBF) (hshort : bits = 0 → 0xA0 ≤ low)
      (hsurrogate : bits = 0xD → high ≤ 0x9F) : Announced ⟨bits, 2, low, high⟩ b
  | ofFour {b bits low high : Nat} (hb : b = bits + 0xF0) (hle : bits ≤ 4)
      (hlow : 0x80 ≤ low) (hhigh : high ≤ 0xBF) (hshort : bits = 0 → 0x90 ≤ low)
      (hlast : bits = 4 → high ≤ 0x8F) : Announced ⟨bits, 3, low, high⟩ b

theorem LeadByte.announced_of_ofNat? {b : Nat} {lead : LeadByte} (h : ofNat? b = some lead) :
    lead.Announced b := by
  revert h
  fun_cases ofNat? b <;> intro h
  case case1 hb => exact Option.some.inj h ▸ .alone hb
  case case2 | case10 => cases h
  case case3 => exact Option.some.inj h ▸ .ofTwo (by omega) (by omega) (by omega)
  -- what is left are the first bytes of three and of four, in each case bounds for the second byte
  all_goals
    simp only [beq_iff_eq] at *
    obtain rfl := Option.some.inj h
    first
    | exact .ofThree (by omega) (by omega) (by omega) (by omega) (by omega) (by omega)
    | exact .ofFour (by omega) (by omega) (by omega) (by omega) (by omega) (by omega)

theorem LeadByte.Announced.range {lead : LeadByte} {b : Nat} (h : lead.Announced b) :
    0x80 ≤ lead.low ∧ lead.high ≤ 0xBF := by
  cases h with
  | alone => exact ⟨Nat.le_refl _, Nat.le_refl _⟩
  | ofTwo => exact ⟨Nat.le_refl _, Nat.le_refl _⟩
  | ofThree _ _ hlow hhigh => exact ⟨hlow, hhigh⟩
  | ofFour _ _ hlow hhigh => exact ⟨hlow, hhigh⟩

theorem utf8EncodeChar_ofNat {n : Nat} (h : n.isValidChar) :
    (n ≤ 0x7f ∧ String.utf8EncodeChar (.ofNat n) = [.ofNat n]) ∨
    (0x7f < n ∧ n ≤ 0x7ff ∧ String.utf8EncodeChar (.ofNat n) =
      [.ofNat (n / 64 % 0x20 + 0xc0), .ofNat (n % 0x40 + 0x80)]) ∨
    (0x7ff < n ∧ n ≤ 0xffff ∧ String.utf8EncodeChar (.ofNat n) =
      [.ofNat (n / 4096 % 0x10 + 0xe0), .ofNat (n / 64 % 0x40 + 0x80),
        .ofNat (n % 0x40 + 0x80)]) ∨
    (0xffff < n ∧ n < 0x110000 ∧ String.utf8EncodeChar (.ofNat n) =
      [.ofNat (n / 262144 % 0x08 + 0xf0), .ofNat (n / 4096 % 0x40 + 0x80),
        .ofNat (n / 64 % 0x40 + 0x80), .ofNat (n % 0x40 + 0x80)]) := by
  have hcases := utf8EncodeChar_cases (.ofNat n)
  rwa [show (Char.ofNat n).toNat = n by rw [Char.ofNat, dif_pos h]; rfl] at hcases

/-- A character that is read is encoded by the bytes that it was read from. -/
theorem cons_eq_of_following {b : UInt8} {rest left : List UInt8} {lead : LeadByte} {v : Nat}
    (hlead : LeadByte.ofNat? b.toNat = some lead)
    (h : following lead.bits lead.following lead.low lead.high rest = (some v, left)) :
    b :: rest = String.utf8EncodeChar (.ofNat v) ++ left := by
  have heq {b : UInt8} {n : Nat} (hb : b.toNat = n) : b = .ofNat n := by
    rw [← hb, UInt8.ofNat_toNat]
  cases LeadByte.announced_of_ofNat? hlead with
  | alone hb =>
    cases h
    have hvalid : b.toNat.isValidChar := .inl (by omega)
    rcases utf8EncodeChar_ofNat hvalid with ⟨-, h⟩ | h | h | h
    any_goals omega
    rw [h, UInt8.ofNat_toNat]
    rfl
  | @ofTwo _ bits hb hle hlt =>
    obtain ⟨c, rest, rfl, hlow, hhigh, h⟩ := exists_of_following_succ h
    cases h
    dsimp only at hlow hhigh ⊢
    have hvalid : (bits * 64 + c.toNat % 64).isValidChar := .inl (by omega)
    rcases utf8EncodeChar_ofNat hvalid with h | ⟨-, -, h⟩ | h | h
    any_goals omega
    rw [h]
    exact List.cons_eq_cons.2 ⟨heq (by omega), List.cons_eq_cons.2 ⟨heq (by omega), rfl⟩⟩
  | @ofThree _ bits low high hb hlt hlow hhigh hshort hsurrogate =>
    obtain ⟨c, rest, rfl, hlowc, hhighc, h⟩ := exists_of_following_succ h
    obtain ⟨d, rest, rfl, hlowd, hhighd, h⟩ := exists_of_following_succ h
    cases h
    dsimp only at hlowc hhighc ⊢
    have hvalid : ((bits * 64 + c.toNat % 64) * 64 + d.toNat % 64).isValidChar := by
      unfold Nat.isValidChar
      omega
    rcases utf8EncodeChar_ofNat hvalid with h | h | ⟨-, -, h⟩ | h
    any_goals omega
    rw [h]
    exact List.cons_eq_cons.2 ⟨heq (by omega), List.cons_eq_cons.2 ⟨heq (by omega),
      List.cons_eq_cons.2 ⟨heq (by omega), rfl⟩⟩⟩
  | @ofFour _ bits low high hb hle hlow hhigh hshort hlast =>
    obtain ⟨c, rest, rfl, hlowc, hhighc, h⟩ := exists_of_following_succ h
    obtain ⟨d, rest, rfl, hlowd, hhighd, h⟩ := exists_of_following_succ h
    obtain ⟨e, rest, rfl, hlowe, hhighe, h⟩ := exists_of_following_succ h
    cases h
    dsimp only at hlowc hhighc ⊢
    have hvalid : (((bits * 64 + c.toNat % 64) * 64 + d.toNat % 64) * 64 +
        e.toNat % 64).isValidChar := by
      unfold Nat.isValidChar
      omega
    rcases utf8EncodeChar_ofNat hvalid with h | h | h | ⟨-, -, h⟩
    any_goals omega
    rw [h]
    exact List.cons_eq_cons.2 ⟨heq (by omega), List.cons_eq_cons.2 ⟨heq (by omega),
      List.cons_eq_cons.2 ⟨heq (by omega), List.cons_eq_cons.2 ⟨heq (by omega), rfl⟩⟩⟩⟩

section

variable {bits c : Nat}

theorem LeadByte.ofNat?_two (hle : 2 ≤ bits) (hlt : bits < 0x20) (hlow : 0x80 ≤ c)
    (hhigh : c ≤ 0xBF) :
    ∃ low high, ofNat? (bits + 0xC0) = some ⟨bits, 1, low, high⟩ ∧ low ≤ c ∧ c ≤ high := by
  refine ⟨0x80, 0xBF, ?_, hlow, hhigh⟩
  rw [ofNat?, if_neg (by omega), if_neg (by omega), if_pos (by omega), Nat.add_sub_cancel]

theorem LeadByte.ofNat?_three (hlt : bits < 0x10) (hlow : 0x80 ≤ c) (hhigh : c ≤ 0xBF)
    (hshort : bits = 0 → 0xA0 ≤ c) (hsurrogate : bits = 0xD → c ≤ 0x9F) :
    ∃ low high, ofNat? (bits + 0xE0) = some ⟨bits, 2, low, high⟩ ∧ low ≤ c ∧ c ≤ high := by
  by_cases hzero : bits = 0
  · subst hzero
    exact ⟨_, _, rfl, hshort rfl, hhigh⟩
  by_cases hthirteen : bits = 0xD
  · subst hthirteen
    exact ⟨_, _, rfl, hlow, hsurrogate rfl⟩
  refine ⟨0x80, 0xBF, ?_, hlow, hhigh⟩
  simp only [ofNat?, beq_iff_eq]
  rw [if_neg (by omega), if_neg (by omega), if_neg (by omega), if_neg (by omega),
    if_neg (by omega), if_pos (by omega), Nat.add_sub_cancel]

theorem LeadByte.ofNat?_four (hle : bits ≤ 4) (hlow : 0x80 ≤ c) (hhigh : c ≤ 0xBF)
    (hshort : bits = 0 → 0x90 ≤ c) (hlast : bits = 4 → c ≤ 0x8F) :
    ∃ low high, ofNat? (bits + 0xF0) = some ⟨bits, 3, low, high⟩ ∧ low ≤ c ∧ c ≤ high := by
  by_cases hzero : bits = 0
  · subst hzero
    exact ⟨_, _, rfl, hshort rfl, hhigh⟩
  by_cases hfour : bits = 4
  · subst hfour
    exact ⟨_, _, rfl, hlow, hlast rfl⟩
  refine ⟨0x80, 0xBF, ?_, hlow, hhigh⟩
  simp only [ofNat?, beq_iff_eq]
  rw [if_neg (by omega), if_neg (by omega), if_neg (by omega), if_neg (by omega),
    if_neg (by omega), if_neg (by omega), if_neg (by omega), if_pos (by omega), Nat.add_sub_cancel]

end

/-- The bytes that encode a character are read as this character. -/
theorem exists_following_encode (c : Char) (left : List UInt8) :
    ∃ b rest lead, String.utf8EncodeChar c ++ left = b :: rest ∧
      LeadByte.ofNat? b.toNat = some lead ∧
      following lead.bits lead.following lead.low lead.high rest = (some c.toNat, left) := by
  have hnat {n : Nat} (h : n < 0x100) : (UInt8.ofNat n).toNat = n := UInt8.toNat_ofNat_of_lt' h
  have hvalid : c.toNat < 0xd800 ∨ 0xdfff < c.toNat ∧ c.toNat < 0x110000 := c.valid
  rcases utf8EncodeChar_cases c with ⟨hc, h⟩ | ⟨hc, hc', h⟩ | ⟨hc, hc', h⟩ | ⟨hc, hc', h⟩
  · refine ⟨.ofNat c.toNat, left, ⟨c.toNat, 0, 0x80, 0xBF⟩, by rw [h]; rfl, ?_, following_zero ..⟩
    rw [hnat (by omega)]
    exact if_pos (by omega)
  · obtain ⟨low, high, hlead, hlow, hhigh⟩ := @LeadByte.ofNat?_two (c.toNat / 64 % 0x20)
      (c.toNat % 0x40 + 0x80) (by omega) (by omega) (by omega) (by omega)
    refine ⟨_, _, _, by rw [h]; rfl, (by rw [hnat (by omega)]; exact hlead), ?_⟩
    refine (following_ofNat_cons left hlow hhigh (by omega)).trans ?_
    rw [following_zero]
    simp
    omega
  · obtain ⟨low, high, hlead, hlow, hhigh⟩ := @LeadByte.ofNat?_three (c.toNat / 4096 % 0x10)
      (c.toNat / 64 % 0x40 + 0x80) (by omega) (by omega) (by omega) (by omega) (by omega)
    refine ⟨_, _, _, by rw [h]; rfl, (by rw [hnat (by omega)]; exact hlead), ?_⟩
    refine (following_ofNat_cons _ hlow hhigh (by omega)).trans ?_
    refine (following_ofNat_cons left (by omega) (by omega) (by omega)).trans ?_
    rw [following_zero]
    simp
    omega
  · obtain ⟨low, high, hlead, hlow, hhigh⟩ := @LeadByte.ofNat?_four (c.toNat / 262144 % 0x08)
      (c.toNat / 4096 % 0x40 + 0x80) (by omega) (by omega) (by omega) (by omega) (by omega)
    refine ⟨_, _, _, by rw [h]; rfl, (by rw [hnat (by omega)]; exact hlead), ?_⟩
    refine (following_ofNat_cons _ hlow hhigh (by omega)).trans ?_
    refine (following_ofNat_cons _ (by omega) (by omega) (by omega)).trans ?_
    refine (following_ofNat_cons left (by omega) (by omega) (by omega)).trans ?_
    rw [following_zero]
    simp
    omega

/-! ## The pieces of a name that bytes make -/

/-- Whether a byte and those behind it begin with a whole character. -/
def beginsChar (b : UInt8) (rest : List UInt8) : Bool :=
  (LeadByte.ofNat? b.toNat).any fun lead =>
    (following lead.bits lead.following lead.low lead.high rest).1.isSome

theorem beginsChar_of_none {b : UInt8} (h : LeadByte.ofNat? b.toNat = none) (rest : List UInt8) :
    beginsChar b rest = false := by
  rw [beginsChar, h]
  rfl

theorem beginsChar_of_some {b : UInt8} {lead : LeadByte} (h : LeadByte.ofNat? b.toNat = some lead)
    (rest : List UInt8) :
    beginsChar b rest =
      (following lead.bits lead.following lead.low lead.high rest).1.isSome := by
  rw [beginsChar, h]
  rfl

theorem le_of_beginsChar_eq_false {b : UInt8} {rest : List UInt8}
    (h : beginsChar b rest = false) : 0x80 ≤ b.toNat := by
  refine Nat.le_of_not_lt fun hlt => ?_
  rw [beginsChar_of_some (if_pos hlt), following_zero] at h
  cases h

theorem pieces_stray {b : UInt8} (hb : 0x80 ≤ b.toNat) (rest : List Char) :
    pieces ('\x00' :: .ofNat b.toNat :: rest) = .stray b :: pieces rest := by
  have hlt : b.toNat < 0x100 := b.toNat_lt
  have hnat : (Char.ofNat b.toNat).toNat = b.toNat := by
    rw [Char.ofNat, dif_pos (.inl (by omega))]
    rfl
  rw [pieces_cons_cons, if_pos, hnat, UInt8.ofNat_toNat]
  rw [beq_self_eq_true, Bool.true_and, standsForByte, hnat, Bool.and_eq_true, decide_eq_true_eq,
    decide_eq_true_eq]
  exact ⟨hb, Nat.le_of_lt_succ hlt⟩

theorem pieces_ofRaw_stray {b : UInt8} {rest : List UInt8} (h : beginsChar b rest = false) :
    pieces (ofRaw (b :: rest)) = .stray b :: pieces (ofRaw rest) := by
  rw [← pieces_stray (le_of_beginsChar_eq_false h), ofRaw]
  cases hlead : LeadByte.ofNat? b.toNat with
  | none => rfl
  | some lead =>
    rw [beginsChar_of_some hlead, Option.isSome_eq_false_iff, Option.isNone_iff_eq_none] at h
    simp only [h]

theorem pieces_ofRaw_char {b : UInt8} {rest left : List UInt8} {lead : LeadByte} {v : Nat}
    (hb : b ≠ 0) (hlead : LeadByte.ofNat? b.toNat = some lead)
    (h : following lead.bits lead.following lead.low lead.high rest = (some v, left)) :
    pieces (ofRaw (b :: rest)) = .char (.ofNat v) :: pieces (ofRaw left) := by
  have hne : Char.ofNat v ≠ '\x00' := by
    intro hnul
    have hread := cons_eq_of_following hlead h
    rw [hnul] at hread
    exact hb (List.cons.inj hread).1
  rw [ofRaw, hlead]
  simp only [h]
  exact pieces_cons_of_ne hne _

/-- The name has the bytes that it was made of. -/
theorem rawBytes_ofRaw {raw : List UInt8} (h : 0 ∉ raw) : rawBytes (.ofList (ofRaw raw)) = raw := by
  unfold rawBytes
  rw [String.toList_ofList]
  induction raw using ofRaw.induct with
  | case1 =>
    rw [ofRaw]
    rfl
  | case2 b rest hlead ih =>
    rw [pieces_ofRaw_stray (beginsChar_of_none hlead rest), List.flatMap_cons,
      ih (List.not_mem_of_not_mem_cons h)]
    rfl
  | case3 b rest lead hlead tail htail ih =>
    have hstray : beginsChar b rest = false := by
      rw [beginsChar_of_some hlead, htail]
      rfl
    rw [pieces_ofRaw_stray hstray, List.flatMap_cons, ih (List.not_mem_of_not_mem_cons h)]
    rfl
  | case4 b rest lead hlead tail value hvalue ih =>
    have hread := cons_eq_of_following hlead (Prod.ext hvalue rfl)
    have hleft : 0 ∉ tail.2 := fun hmem =>
      List.not_mem_of_not_mem_cons h ((following_suffix ..).mem hmem)
    rw [pieces_ofRaw_char (List.ne_of_not_mem_cons h).symm hlead (Prod.ext hvalue rfl),
      List.flatMap_cons, ih hleft]
    exact hread.symm

/-! ### How the name is shown -/

theorem shownFrom_nothing_stray (b : UInt8) (made : List Piece) :
    shownFrom .nothing (.stray b :: made) =
      '\uFFFD' :: shownFrom ((LeadByte.ofNat? b.toNat).getD .nothing) made :=
  rfl

/-- A byte that is not awaited is shown as if none were. -/
theorem shownFrom_unawaited {lead : LeadByte} {b : UInt8} {rest : List UInt8} (hb : b ≠ 0)
    (h : ¬(lead.low ≤ b.toNat && b.toNat ≤ lead.high) = true) :
    shownFrom lead (pieces (ofRaw (b :: rest))) =
      shownFrom .nothing (pieces (ofRaw (b :: rest))) := by
  cases hbegins : beginsChar b rest with
  | false =>
    rw [pieces_ofRaw_stray hbegins, shownFrom_nothing_stray, shownFrom, if_neg]
    rw [Bool.and_assoc, Bool.and_eq_true]
    exact fun hawaited => h hawaited.2
  | true =>
    obtain ⟨first, hlead, hread⟩ := (Option.any_eq_true _ _).1 hbegins
    obtain ⟨v, hv⟩ := Option.isSome_iff_exists.1 hread
    rw [pieces_ofRaw_char hb hlead (Prod.ext hv rfl), shownFrom, shownFrom]

/-- Bytes that a first byte awaits, as far as they come, show nothing. -/
theorem shownFrom_awaited {value count low high : Nat} {raw left : List UInt8} (bits : Nat)
    (h : following value count low high raw = (none, left)) (hlow : 0x80 ≤ low)
    (hhigh : high ≤ 0xBF) (hraw : 0 ∉ raw) :
    shownFrom ⟨bits, count, low, high⟩ (pieces (ofRaw raw)) =
      shownFrom .nothing (pieces (ofRaw left)) := by
  induction count generalizing value low high raw bits with
  | zero =>
    rw [following_zero] at h
    cases h
  | succ count ih =>
    cases raw with
    | nil =>
      cases h
      rw [ofRaw]
      rfl
    | cons b rest =>
      rw [following] at h
      split at h
      · rename_i hrange
        have hbounds := hrange
        rw [Bool.and_eq_true, decide_eq_true_eq, decide_eq_true_eq] at hbounds
        have hlead : LeadByte.ofNat? b.toNat = none :=
          (if_neg (by omega)).trans (if_pos (by omega))
        rw [pieces_ofRaw_stray (beginsChar_of_none hlead rest), shownFrom, if_pos]
        · exact ih _ h (by decide) (by decide) (List.not_mem_of_not_mem_cons hraw)
        · rw [Bool.and_assoc, hrange, Bool.and_true, decide_eq_true_eq]
          exact Nat.succ_pos count
      · rename_i hrange
        cases h
        exact shownFrom_unawaited (List.ne_of_not_mem_cons hraw).symm hrange

/-- The name is shown as the bytes are read. -/
theorem shown_ofRaw {raw : List UInt8} (h : 0 ∉ raw) :
    shown (.ofList (ofRaw raw)) = .ofList (decodeLossy raw) := by
  unfold shown
  rw [String.toList_ofList]
  congr 1
  induction raw using decodeLossy.induct with
  | case1 =>
    rw [ofRaw, decodeLossy]
    rfl
  | case2 b rest hlead ih =>
    rw [pieces_ofRaw_stray (beginsChar_of_none hlead rest), shownFrom_nothing_stray, hlead,
      decodeLossy, hlead]
    exact congrArg _ (ih (List.not_mem_of_not_mem_cons h))
  | case3 b rest lead hlead tail ih =>
    have hrest := List.not_mem_of_not_mem_cons h
    have hleft : 0 ∉ tail.2 := fun hmem => hrest ((following_suffix ..).mem hmem)
    rw [decodeLossy, hlead]
    dsimp only
    rw [← ih hleft]
    cases hread : tail.1 with
    | none =>
      have hstray : beginsChar b rest = false := by
        rw [beginsChar_of_some hlead, hread]
        rfl
      obtain ⟨hlow, hhigh⟩ := (LeadByte.announced_of_ofNat? hlead).range
      rw [pieces_ofRaw_stray hstray, shownFrom_nothing_stray, hlead]
      exact congrArg _ (shownFrom_awaited lead.bits (Prod.ext hread rfl) hlow hhigh hrest)
    | some v =>
      rw [pieces_ofRaw_char (List.ne_of_not_mem_cons h).symm hlead (Prod.ext hread rfl), shownFrom]
      rfl

/-! ### When the name is UTF-8 -/

/-- The bytes of a text make this text. -/
theorem ofRaw_bytes (text : String) : ofRaw (bytes text) = text.toList := by
  rw [bytes_eq_flatMap]
  induction text.toList with
  | nil =>
    rw [List.flatMap_nil, ofRaw]
  | cons c chars ih =>
    obtain ⟨b, rest, lead, hcons, hlead, hread⟩ :=
      exists_following_encode c (chars.flatMap String.utf8EncodeChar)
    rw [List.flatMap_cons, hcons, ofRaw, hlead]
    simp only [hread]
    rw [ih, Char.ofNat_toNat]

theorem nul_not_mem_of_zero_not_mem_bytes {text : String} (h : 0 ∉ bytes text) :
    '\x00' ∉ text.toList := by
  rw [bytes_eq_flatMap] at h
  exact fun hmem => h (List.mem_flatMap.2 ⟨'\x00', hmem, List.mem_cons_self⟩)

/-- **Names and texts.** A name without a NUL is a text exactly when its bytes are those of the
text. -/
theorem utf8?_ofRaw_eq_some_iff {raw : List UInt8} {text : String} (h : 0 ∉ raw) :
    utf8? (.ofList (ofRaw raw)) = some text ↔ raw = bytes text := by
  rw [utf8?_eq_some_iff]
  constructor
  · rintro ⟨hutf8, rfl⟩
    rw [← rawBytes_eq_of_isUtf8 hutf8, rawBytes_ofRaw h]
  · rintro rfl
    rw [ofRaw_bytes, String.ofList_toList]
    exact ⟨isUtf8_of_nul_not_mem (nul_not_mem_of_zero_not_mem_bytes h), rfl⟩

theorem bytes_ne_of_utf8?_eq_none {raw : List UInt8} (h : 0 ∉ raw)
    (hnone : utf8? (.ofList (ofRaw raw)) = none) (text : String) : bytes text ≠ raw := by
  intro hbytes
  rw [(utf8?_ofRaw_eq_some_iff h).2 hbytes.symm] at hnone
  cases hnone

theorem ofRaw_cons_bytes {b : UInt8} (h : LeadByte.ofNat? b.toNat = none) (text : String) :
    ofRaw (b :: bytes text) = '\x00' :: .ofNat b.toNat :: text.toList := by
  rw [ofRaw, h, ofRaw_bytes]

end LiterateCheck.Text
