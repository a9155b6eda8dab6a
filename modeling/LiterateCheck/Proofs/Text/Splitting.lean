/-!
# Pieces of a text

The pieces between separators hold no separator, and none is longer than the text.
-/

namespace LiterateCheck.Text

variable {α : Type} [BEq α] [LawfulBEq α]

theorem not_mem_of_mem_splitOn {a : α} {text piece : List α} (h : piece ∈ text.splitOn a) :
    a ∉ piece := by
  induction text generalizing piece with
  | nil =>
    rw [List.splitOn_nil, List.mem_singleton] at h
    subst h
    exact List.not_mem_nil
  | cons c rest ih =>
    rw [List.splitOn_cons_eq_if_modifyHead] at h
    split at h
    · rcases List.mem_cons.1 h with rfl | h
      · exact List.not_mem_nil
      · exact ih h
    · rename_i hc
      obtain ⟨first, others, hrest⟩ := List.exists_cons_of_ne_nil (List.splitOn_ne_nil a rest)
      rw [hrest, List.modifyHead_cons] at h
      rcases List.mem_cons.1 h with rfl | h
      · have hfirst : a ∉ first := ih (hrest ▸ List.mem_cons_self ..)
        rintro hmem
        rcases List.mem_cons.1 hmem with rfl | hmem
        · exact hc (beq_self_eq_true a)
        · exact hfirst hmem
      · exact ih (hrest ▸ List.mem_cons_of_mem _ h)

omit [LawfulBEq α] in
theorem length_le_of_mem_splitOn {a : α} {text piece : List α} (h : piece ∈ text.splitOn a) :
    piece.length ≤ text.length := by
  induction text generalizing piece with
  | nil =>
    rw [List.splitOn_nil, List.mem_singleton] at h
    subst h
    exact Nat.le_refl _
  | cons c rest ih =>
    rw [List.splitOn_cons_eq_if_modifyHead] at h
    split at h
    · rcases List.mem_cons.1 h with rfl | h
      · exact Nat.zero_le _
      · exact Nat.le_succ_of_le (ih h)
    · obtain ⟨first, others, hrest⟩ := List.exists_cons_of_ne_nil (List.splitOn_ne_nil a rest)
      rw [hrest, List.modifyHead_cons] at h
      rcases List.mem_cons.1 h with rfl | h
      · exact Nat.succ_le_succ (ih (hrest ▸ List.mem_cons_self ..))
      · exact Nat.le_succ_of_le (ih (hrest ▸ List.mem_cons_of_mem _ h))

end LiterateCheck.Text
