import LiterateCheck.Path

/-!
# The order of paths

Components are compared by kind and then by their bytes, and paths by their components, one after the
other. The comparison of paths is transitive and total, and two paths compare as equal exactly when
they have the same components. So paths with different components are sorted into a strictly
increasing list (`pairwise_sort`).
-/

namespace LiterateCheck

namespace Component

instance : Std.TransCmp compare :=
  inferInstanceAs (Std.TransCmp (compareLex (compareOn rank)
    (compareLex (compareOn fun step => Text.rawBytes step.text) (compareOn text))))

/-- The kinds other than names have one text each. -/
instance : Std.LawfulEqCmp compare where
  eq_of_compare {a b} h := by
    obtain ⟨hrank, hrest⟩ := Ordering.then_eq_eq.1 h
    obtain ⟨-, htext⟩ := Ordering.then_eq_eq.1 hrest
    have hrank := Std.LawfulEqCmp.eq_of_compare hrank
    have htext := Std.LawfulEqCmp.eq_of_compare htext
    cases a <;> cases b <;> first | rfl | exact congrArg name htext | cases hrank

end Component

namespace Path

theorem compareComponents_eq_compareLex :
    compareComponents = List.compareLex Component.compare := by
  funext as bs
  induction as generalizing bs with
  | nil => cases bs <;> rfl
  | cons a as ih =>
    cases bs with
    | nil => rfl
    | cons b bs => rw [compareComponents, List.compareLex_cons_cons, ih]

theorem compareComponents_append_left (front as bs : List Component) :
    compareComponents (front ++ as) (front ++ bs) = compareComponents as bs := by
  induction front with
  | nil => rfl
  | cons a front ih =>
    have hself : Component.compare a a = .eq := Std.ReflCmp.compare_self
    rw [List.cons_append, List.cons_append, compareComponents, hself, Ordering.eq_then, ih]

instance : Std.TransCmp compareComponents := by
  rw [compareComponents_eq_compareLex]
  infer_instance

instance : Std.LawfulEqCmp compareComponents := by
  rw [compareComponents_eq_compareLex]
  infer_instance

instance : Std.TransCmp compare where
  eq_swap {a b} :=
    show compareComponents a.components b.components =
        (compareComponents b.components a.components).swap
      from Std.OrientedCmp.eq_swap
  isLE_trans {a b c} (hab : (compareComponents a.components b.components).isLE)
      (hbc : (compareComponents b.components c.components).isLE) :=
    show (compareComponents a.components c.components).isLE from Std.TransCmp.isLE_trans hab hbc

theorem compare_eq_eq_iff {a b : Path} : a.compare b = .eq ↔ a.components = b.components := by
  show compareComponents a.components b.components = .eq ↔ _
  exact Std.LawfulEqCmp.compare_eq_iff_eq

theorem sort_perm (paths : List Path) : (sort paths).Perm paths :=
  List.mergeSort_perm ..

theorem pairwise_sort {paths : List Path} (h : (paths.map components).Nodup) :
    (sort paths).Pairwise fun a b => a.compare b = .lt := by
  have hle : (sort paths).Pairwise fun a b => (a.compare b).isLE := by
    refine List.pairwise_mergeSort (fun a b c => Std.TransCmp.isLE_trans) (fun a b => ?_) paths
    rw [Bool.or_eq_true, ← Std.OrientedCmp.isGE_iff_isLE (a := a)]
    cases a.compare b <;> decide
  have hne : ((sort paths).map components).Nodup :=
    ((sort_perm paths).map components).nodup_iff.2 h
  refine hle.imp₂ (fun a b hle hne => ?_) (List.pairwise_map.1 hne)
  rw [ne_eq, ← compare_eq_eq_iff] at hne
  cases hcompare : a.compare b with
  | lt => rfl
  | eq => exact absurd hcompare hne
  | gt => simp [hcompare] at hle

theorem sort_eq_of_increasing {paths : List Path}
    (h : paths.Pairwise fun a b => a.compare b = .lt) : sort paths = paths :=
  List.mergeSort_of_pairwise (h.imp fun hlt => by rw [hlt]; rfl)

/-- Strictly increasing lists of the same paths are one list. -/
theorem eq_of_perm_of_increasing {paths paths' : List Path} (h : paths.Perm paths')
    (hpaths : paths.Pairwise fun a b => a.compare b = .lt)
    (hpaths' : paths'.Pairwise fun a b => a.compare b = .lt) : paths = paths' := by
  refine List.Perm.eq_of_pairwise (fun a b _ _ hab hba => ?_) hpaths hpaths' h
  have hswap : a.compare b = (b.compare a).swap := Std.OrientedCmp.eq_swap
  rw [hab, hba] at hswap
  cases hswap

end Path

end LiterateCheck
