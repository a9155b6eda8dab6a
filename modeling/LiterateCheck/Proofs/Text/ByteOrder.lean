/-!
# Texts by their bytes

Texts are compared character by character. Their UTF-8 bytes, compared byte by byte, come in the
same order (`bytes_lt_bytes`): of two characters the lesser one has, at the first byte where
their encodings differ, the lesser byte, and neither encoding begins the other.
-/

namespace LiterateCheck.Text

/-- The UTF-8 bytes of a text. -/
def bytes (text : String) : List UInt8 :=
  text.toUTF8.data.toList

theorem bytes_eq_flatMap (text : String) :
    bytes text = text.toList.flatMap String.utf8EncodeChar := by
  unfold bytes
  rw [show text.toUTF8 = text.toList.utf8Encode from String.utf8Encode_toList.symm]
  simp [List.utf8Encode]

/-- Two lists differ somewhere, and the first has the lesser byte where they first do. -/
def Precedes : List UInt8 → List UInt8 → Prop
  | x :: a, y :: b => x < y ∨ x = y ∧ Precedes a b
  | _, _ => False

theorem append_lt_append_of_precedes {a b : List UInt8} (h : Precedes a b) (s t : List UInt8) :
    a ++ s < b ++ t := by
  induction a generalizing b with
  | nil => exact absurd h not_false
  | cons x a ih =>
    cases b with
    | nil => exact absurd h not_false
    | cons y b =>
      rw [List.cons_append, List.cons_append, List.cons_lt_cons_iff]
      rcases h with h | ⟨rfl, h⟩
      · exact .inl h
      · exact .inr ⟨rfl, ih h⟩

/-- The encoding of a character by the size of its number. -/
theorem utf8EncodeChar_cases (c : Char) :
    (c.toNat ≤ 0x7f ∧ String.utf8EncodeChar c = [.ofNat c.toNat]) ∨
    (0x7f < c.toNat ∧ c.toNat ≤ 0x7ff ∧ String.utf8EncodeChar c =
      [.ofNat (c.toNat / 64 % 0x20 + 0xc0), .ofNat (c.toNat % 0x40 + 0x80)]) ∨
    (0x7ff < c.toNat ∧ c.toNat ≤ 0xffff ∧ String.utf8EncodeChar c =
      [.ofNat (c.toNat / 4096 % 0x10 + 0xe0), .ofNat (c.toNat / 64 % 0x40 + 0x80),
        .ofNat (c.toNat % 0x40 + 0x80)]) ∨
    (0xffff < c.toNat ∧ c.toNat < 0x110000 ∧ String.utf8EncodeChar c =
      [.ofNat (c.toNat / 262144 % 0x08 + 0xf0), .ofNat (c.toNat / 4096 % 0x40 + 0x80),
        .ofNat (c.toNat / 64 % 0x40 + 0x80), .ofNat (c.toNat % 0x40 + 0x80)]) := by
  have hmax : c.toNat < 0x110000 := by
    have hvalid : c.toNat < 0xd800 ∨ 0xdfff < c.toNat ∧ c.toNat < 0x110000 := c.valid
    omega
  unfold String.utf8EncodeChar
  by_cases h1 : c.toNat ≤ 0x7f
  · exact .inl ⟨h1, if_pos h1⟩
  by_cases h2 : c.toNat ≤ 0x7ff
  · exact .inr (.inl ⟨by omega, h2, (if_neg h1).trans (if_pos h2)⟩)
  by_cases h3 : c.toNat ≤ 0xffff
  · exact .inr (.inr (.inl ⟨by omega, h3, (if_neg h1).trans ((if_neg h2).trans (if_pos h3))⟩))
  · exact .inr (.inr (.inr ⟨by omega, hmax,
      (if_neg h1).trans ((if_neg h2).trans (if_neg h3))⟩))

/-- Of two characters the lesser one has the lesser encoding. The digits of a number to the base 64
come in the order of the number, and longer encodings start with greater bytes. -/
theorem precedes_utf8EncodeChar {c d : Char} (h : c < d) :
    Precedes (String.utf8EncodeChar c) (String.utf8EncodeChar d) := by
  have hlt : c.toNat < d.toNat := h
  have hdigit (n : Nat) : n / 4096 = n / 64 / 64 ∧ n / 262144 = n / 64 / 64 / 64 := by
    rw [Nat.div_div_eq_div_mul, Nat.div_div_eq_div_mul]
    exact ⟨rfl, rfl⟩
  rcases utf8EncodeChar_cases c with ⟨hc, ec⟩ | ⟨hc, hc2, ec⟩ | ⟨hc, hc2, ec⟩ | ⟨hc, hc2, ec⟩ <;>
  rcases utf8EncodeChar_cases d with ⟨hd, ed⟩ | ⟨hd, hd2, ed⟩ | ⟨hd, hd2, ed⟩ | ⟨hd, hd2, ed⟩ <;>
  · rw [ec, ed]
    simp only [Precedes, UInt8.lt_iff_toNat_lt, ← UInt8.toNat_inj, UInt8.toNat_ofNat', or_false,
      and_false, (hdigit _).1, (hdigit _).2]
    omega

theorem bytes_lt_of_lt {s t : List Char} (h : s < t) :
    s.flatMap String.utf8EncodeChar < t.flatMap String.utf8EncodeChar := by
  induction s generalizing t with
  | nil =>
    cases t with
    | nil => exact absurd h (List.not_lt_nil [])
    | cons d t =>
      obtain ⟨x, a, hx⟩ := List.exists_cons_of_ne_nil (@String.utf8EncodeChar_ne_nil d)
      rw [List.flatMap_nil, List.flatMap_cons, hx]
      exact List.nil_lt_cons ..
  | cons c s ih =>
    cases t with
    | nil => exact absurd h (List.not_lt_nil _)
    | cons d t =>
      rw [List.flatMap_cons, List.flatMap_cons]
      rcases List.cons_lt_cons_iff.1 h with hlt | ⟨rfl, hrest⟩
      · exact append_lt_append_of_precedes (precedes_utf8EncodeChar hlt) ..
      · exact List.append_left_lt (ih hrest)

/-- Texts come in the order of their bytes. -/
theorem bytes_lt_bytes {s t : String} (h : s < t) : bytes s < bytes t := by
  rw [bytes_eq_flatMap, bytes_eq_flatMap]
  exact bytes_lt_of_lt h

end LiterateCheck.Text
