import LiterateCheck.Text.Number

/-!
# Written numbers

A number is written with digits only, and reading them gives the number back
(`leadingNumber?_append`).
-/

namespace LiterateCheck.Text

theorem toList_toString (n : Nat) : (toString n).toList = Nat.toDigits 10 n := by
  rw [Nat.toString_eq_repr, Nat.toList_repr]

theorem isDigit_of_mem_toString {n : Nat} {c : Char} (h : c ∈ (toString n).toList) :
    c.isDigit = true := by
  rw [toList_toString] at h
  exact Nat.isDigit_of_mem_toDigits (by decide) (by decide) h

theorem digitsValue_toString (n : Nat) : digitsValue (toString n).toList = n := by
  rw [toList_toString]
  exact Nat.ofDigitChars_ten_toDigits

/-- A text does not go on with a digit. -/
def NoDigitAhead (text : List Char) : Prop :=
  ∀ c ∈ text.head?, c.isDigit = false

instance (text : List Char) : Decidable (NoDigitAhead text) :=
  decidable_of_iff (text.head?.all (!·.isDigit) = true) (by simp [NoDigitAhead, Option.all_eq_true])

theorem takeWhile_append_of_head {α : Type} {p : α → Bool} {front back : List α}
    (hfront : ∀ a ∈ front, p a = true) (hback : ∀ a, back.head? = some a → p a = false) :
    (front ++ back).takeWhile p = front := by
  rw [List.takeWhile_append_of_pos hfront]
  cases back with
  | nil => simp
  | cons a rest => simp [hback a rfl]

theorem leadingNumber?_append {n : Nat} (hn : n ≤ maxNumber) {rest : List Char}
    (hrest : NoDigitAhead rest) :
    leadingNumber? ((toString n).toList ++ rest) = some ⟨n, (toString n).toList.length⟩ := by
  have hdigits : ((toString n).toList ++ rest).takeWhile Char.isDigit = (toString n).toList :=
    takeWhile_append_of_head (fun c hc => isDigit_of_mem_toString hc) hrest
  unfold leadingNumber?
  rw [hdigits]
  dsimp only
  rw [if_neg (by simp), digitsValue_toString, if_pos hn]

end LiterateCheck.Text
