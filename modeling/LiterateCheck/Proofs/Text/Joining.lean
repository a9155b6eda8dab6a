/-!
# Joining texts
-/

namespace LiterateCheck.Text

theorem join_map_eq_empty {α : Type} {f : α → String} {items : List α}
    (h : ∀ item ∈ items, f item = "") : String.join (items.map f) = "" := by
  induction items with
  | nil => rfl
  | cons item others ih =>
    obtain ⟨hitem, hothers⟩ := List.forall_mem_cons.1 h
    rw [List.map_cons, String.join_cons, hitem, ih hothers, String.empty_append]

theorem join_map_ite {α : Type} (p : α → Prop) [DecidablePred p] (f : α → String)
    (items : List α) :
    String.join (items.map fun item => if p item then f item else "") =
      String.join ((items.filter fun item => p item).map f) := by
  induction items with
  | nil => rfl
  | cons item others ih =>
    rw [List.map_cons, String.join_cons, ih]
    by_cases hitem : p item
    · rw [if_pos hitem, List.filter_cons_of_pos (by simpa using hitem), List.map_cons,
        String.join_cons]
    · rw [if_neg hitem, List.filter_cons_of_neg (by simpa using hitem), String.empty_append]

theorem join_map_eq_of_forall_ne {α : Type} {f : α → String} {items : List α}
    (hitems : items.Nodup) {one : α} (hone : one ∈ items)
    (h : ∀ item ∈ items, item ≠ one → f item = "") : String.join (items.map f) = f one := by
  induction items with
  | nil => cases hone
  | cons item others ih =>
    obtain ⟨hitem, hothers⟩ := List.forall_mem_cons.1 h
    obtain ⟨hnew, hnodup⟩ := List.nodup_cons.1 hitems
    rw [List.map_cons, String.join_cons]
    rcases List.mem_cons.1 hone with rfl | hmem
    · have hempty : String.join (others.map f) = "" := by
        refine join_map_eq_empty fun other hother => hothers other hother ?_
        rintro rfl
        exact hnew hother
      rw [hempty, String.append_empty]
    · have hne : item ≠ one := by
        rintro rfl
        exact hnew hmem
      rw [hitem hne, ih hnodup hmem hothers, String.empty_append]

end LiterateCheck.Text
