/-!
# Looking up keys

A list of pairs holds a value for a key: the one of the first pair with that key.
-/

namespace LiterateCheck

variable {α β : Type} [BEq α] [LawfulBEq α] [DecidableEq α]

theorem lookup_cons_eq_ite (key k : α) (value : β) (pairs : List (α × β)) :
    ((k, value) :: pairs).lookup key = if key = k then some value else pairs.lookup key := by
  rw [List.lookup_cons]
  by_cases h : key = k
  · simp [h]
  · rw [if_neg h, beq_eq_false_iff_ne.2 h]

/-- Keys that a predicate drops are not found any more; the others are found as before. -/
theorem lookup_filter_fst (p : α → Bool) (key : α) (pairs : List (α × β)) :
    (pairs.filter fun pair => p pair.1).lookup key =
      if p key then pairs.lookup key else none := by
  induction pairs with
  | nil => simp
  | cons head others ih =>
    obtain ⟨k, value⟩ := head
    rw [List.filter_cons, lookup_cons_eq_ite]
    by_cases h : key = k
    · subst h
      by_cases hp : p key = true
      · rw [if_pos hp, lookup_cons_eq_ite, if_pos rfl, if_pos hp, if_pos rfl]
      · rw [if_neg hp, ih, if_neg hp, if_neg hp]
    · rw [if_neg h, ← ih]
      split
      · rw [lookup_cons_eq_ite, if_neg h]
      · rfl

end LiterateCheck
