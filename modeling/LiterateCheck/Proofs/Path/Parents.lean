import LiterateCheck.Proofs.Path.Components

/-!
# The path above a path

A path without its last component has the names of the path but for the last one that counts
(`names_of_parent?`), and is absolute when the path is (`isAbsolute_of_parent?`).
-/

namespace LiterateCheck.Path

/-! ## Parts and texts -/

theorem parts_intercalate {parts : List String} (hne : parts ≠ [])
    (hparts : ∀ part ∈ parts, '/' ∉ part.toList) :
    (Path.mk ("/".intercalate parts)).parts = parts := by
  have hpieces : ∀ piece ∈ parts.map String.toList, '/' ∉ piece := by
    intro piece hpiece
    obtain ⟨part, hpart, rfl⟩ := List.mem_map.1 hpiece
    exact hparts part hpart
  unfold Path.parts
  rw [String.toList_intercalate, show "/".toList = ['/'] from rfl,
    List.splitOn_intercalate '/' hpieces (by simpa using hne), List.map_map]
  exact (List.map_congr_left fun part _ => String.ofList_toList).trans (List.map_id parts)

theorem isAbsolute_iff {path : Path} :
    path.isAbsolute = true ↔ ∃ second others, path.parts = "" :: second :: others := by
  unfold isAbsolute parts
  cases htext : path.text.toList with
  | nil => simp
  | cons c rest =>
    obtain ⟨first, others, hrest⟩ := List.exists_cons_of_ne_nil (List.splitOn_ne_nil '/' rest)
    rw [List.splitOn_cons_eq_if_modifyHead, hrest]
    by_cases hc : c = '/'
    · subst hc
      simp
    · simp [hc]

/-! ## Parts that stand for nothing -/

/-- A part that is no step behind the first one. -/
def IsIdle (part : String) : Prop := part = "" ∨ part = "."

theorem dropIdleEnd_append (parts : List String) :
    ∃ idle, parts = dropIdleEnd parts ++ idle ∧ ∀ part ∈ idle, IsIdle part := by
  cases parts with
  | nil => exact ⟨[], rfl, by simp⟩
  | cons first others =>
    refine ⟨(others.reverse.takeWhile fun part => part == "" || part == ".").reverse, ?_, ?_⟩
    · unfold dropIdleEnd
      rw [List.cons_append, ← List.reverse_append, List.takeWhile_append_dropWhile,
        List.reverse_reverse]
    · intro part hpart
      have hidle := List.all_eq_true.1 List.all_takeWhile part (List.mem_reverse.1 hpart)
      simpa [IsIdle] using hidle

/-- Behind a first part, the last part that is left counts. -/
theorem not_isIdle_of_getLast?_dropIdleEnd {parts : List String} {last : String}
    (hlast : (dropIdleEnd parts).getLast? = some last)
    (hmore : (dropIdleEnd parts).dropLast ≠ []) : ¬IsIdle last := by
  cases parts with
  | nil => cases hlast
  | cons first others =>
    unfold dropIdleEnd at hlast hmore
    dsimp only at hlast hmore
    cases hleft : others.reverse.dropWhile fun part => part == "" || part == "." with
    | nil =>
      rw [hleft] at hmore
      exact absurd rfl hmore
    | cons counted before =>
      rw [hleft, List.reverse_cons, ← List.cons_append, List.getLast?_concat] at hlast
      cases hlast
      have hne : (others.reverse.dropWhile fun part => part == "" || part == ".") ≠ [] := by
        simp [hleft]
      simpa [IsIdle, hleft] using List.head_dropWhile_not _ hne

theorem head?_dropIdleEnd (parts : List String) : (dropIdleEnd parts).head? = parts.head? := by
  cases parts <;> rfl

/-- The parts that are left for the path above. -/
def partsAbove (path : Path) : List String :=
  dropIdleEnd (dropIdleEnd path.parts).dropLast

/-- Besides the last part that counts, only idle parts are dropped, and a first part never is one of
them. Where a part is left, the last part does count. -/
theorem parts_eq_partsAbove_append (path : Path) :
    ∃ idle last idle', path.parts = path.partsAbove ++ (idle ++ last :: idle') ∧
      (∀ part ∈ idle, IsIdle part) ∧ (∀ part ∈ idle', IsIdle part) ∧
      (path.partsAbove = [] → idle = []) ∧ (path.partsAbove ≠ [] → ¬IsIdle last) := by
  obtain ⟨idle', hparts, hidle'⟩ := dropIdleEnd_append path.parts
  have hne : dropIdleEnd path.parts ≠ [] := by
    intro hnil
    have hhead := head?_dropIdleEnd path.parts
    rw [hnil, List.head?_nil, eq_comm, List.head?_eq_none_iff] at hhead
    exact map_splitOn_ne_nil _ hhead
  obtain ⟨idle, hfront, hidle⟩ := dropIdleEnd_append (dropIdleEnd path.parts).dropLast
  refine ⟨idle, (dropIdleEnd path.parts).getLast hne, idle', ?_, hidle, hidle', fun hnil => ?_,
    fun habove => not_isIdle_of_getLast?_dropIdleEnd (List.getLast?_eq_some_getLast hne)
      fun hnil => ?_⟩
  · rw [← List.append_assoc, partsAbove, ← hfront, ← List.singleton_append, ← List.append_assoc,
      List.dropLast_concat_getLast hne, ← hparts]
  · unfold partsAbove at hnil
    have hhead := head?_dropIdleEnd (dropIdleEnd path.parts).dropLast
    rw [hnil, List.head?_nil, eq_comm, List.head?_eq_none_iff] at hhead
    rw [hhead] at hfront
    exact (List.append_eq_nil_iff.1 hfront.symm).2
  · unfold partsAbove at habove
    rw [hnil] at habove
    exact habove rfl

theorem parent?_eq_some {path parent : Path} (h : path.parent? = some parent) :
    path.components.getLast? ≠ none ∧ path.components.getLast? ≠ some .root ∧
      parent = if path.isAbsolute && path.partsAbove == [""] then ⟨"/"⟩
        else ⟨"/".intercalate path.partsAbove⟩ := by
  unfold parent? at h
  split at h
  · cases h
  · cases h
  · rename_i last hroot hlast
    rw [hlast]
    refine ⟨by simp, fun heq => hroot (Option.some.inj heq), ?_⟩
    dsimp only at h
    unfold partsAbove
    split at h
    · rename_i hslash
      rw [if_pos hslash]
      exact (Option.some.inj h).symm
    · rename_i hslash
      rw [if_neg hslash]
      exact (Option.some.inj h).symm

theorem separator_not_mem_partsAbove {path : Path} :
    ∀ part ∈ path.partsAbove, '/' ∉ part.toList := by
  obtain ⟨idle, last, idle', hparts, -⟩ := parts_eq_partsAbove_append path
  intro part hpart
  exact separator_not_mem_of_mem_parts (hparts ▸ List.mem_append_left _ hpart)

/-! ## The names of the path above -/

theorem names_eq_of_parent? {path parent : Path} (h : path.parent? = some parent) :
    parent.names = path.partsAbove.filter fun part => !part.isEmpty := by
  obtain ⟨-, -, hparent⟩ := parent?_eq_some h
  rw [hparent]
  split
  · rename_i hslash
    rw [beq_iff_eq.1 (Bool.and_eq_true_iff.1 hslash).2]
    rfl
  · by_cases hne : path.partsAbove = []
    · rw [hne]
      rfl
    · unfold names
      rw [parts_intercalate hne separator_not_mem_partsAbove]

theorem counting_of_isIdle {parts : List String} (h : ∀ part ∈ parts, IsIdle part) :
    counting parts = [] := by
  unfold counting
  rw [List.filter_filter, List.filter_eq_nil_iff]
  intro part hpart
  rcases h part hpart with rfl | rfl <;> decide

theorem counting_singleton {part : String} (h : ¬IsIdle part) : counting [part] = [part] := by
  unfold IsIdle at h
  rw [not_or] at h
  unfold counting
  rw [List.filter_cons_of_pos (by simpa using h.1), List.filter_nil,
    List.filter_cons_of_pos (by simpa using h.2), List.filter_nil]

/-- Of what is dropped for the path above, at most the last part counts. -/
theorem counting_dropped {idle idle' : List String} (hidle : ∀ part ∈ idle, IsIdle part)
    (hidle' : ∀ part ∈ idle', IsIdle part) (last : String) :
    counting (idle ++ last :: idle') = counting [last] := by
  rw [counting_append, counting_of_isIdle hidle, List.nil_append, ← List.singleton_append,
    counting_append, counting_of_isIdle hidle', List.append_nil]

theorem names_of_parent? {path parent : Path} (h : path.parent? = some parent) :
    ∃ dropped, path.names = parent.names ++ dropped ∧
      (dropped.filter (· ≠ ".")).length ≤ 1 := by
  obtain ⟨idle, last, idle', hparts, hidle, hidle', -⟩ := parts_eq_partsAbove_append path
  refine ⟨(idle ++ last :: idle').filter fun part => !part.isEmpty, ?_, ?_⟩
  · have hnames := names_eq_of_parent? h
    unfold names at hnames ⊢
    rw [hnames, hparts, List.filter_append]
  · change (counting (idle ++ last :: idle')).length ≤ 1
    rw [counting_dropped hidle hidle']
    exact Nat.le_trans (List.length_filter_le ..) (List.length_filter_le ..)

/-- A part that counts stands behind the first one of an absolute path other than the root, so the
first one is left. -/
theorem partsAbove_ne_nil {path : Path} (habsolute : path.isAbsolute = true)
    (hroot : path.components.getLast? ≠ some .root) : path.partsAbove ≠ [] := by
  intro habove
  obtain ⟨idle, last, idle', hparts, -, hidle', hnil, -⟩ := parts_eq_partsAbove_append path
  obtain ⟨second, others, hfirst⟩ := isAbsolute_iff.1 habsolute
  rw [habove, hnil habove, List.nil_append, List.nil_append, hfirst] at hparts
  obtain ⟨rfl, rfl⟩ := List.cons.inj hparts
  have hnone : (second :: others).filterMap component? = [] :=
    List.filterMap_eq_nil_iff.2 fun part hpart => if_pos (hidle' part hpart)
  apply hroot
  rw [components_eq_componentsOf, habsolute, hfirst]
  unfold componentsOf
  rw [if_pos rfl, List.filterMap_cons_none (by rfl), hnone]
  rfl

/-- The path above an absolute path goes one name less far. -/
theorem way_of_parent? {path parent : Path} (habsolute : path.isAbsolute = true)
    (h : path.parent? = some parent) : ∃ name, path.way = parent.way ++ [name] := by
  obtain ⟨-, hroot, -⟩ := parent?_eq_some h
  obtain ⟨idle, last, idle', hparts, hidle, hidle', -, hlast⟩ := parts_eq_partsAbove_append path
  have hcounts := hlast (partsAbove_ne_nil habsolute hroot)
  have habove : parent.way = counting path.partsAbove :=
    congrArg (List.filter (· ≠ ".")) (names_eq_of_parent? h)
  refine ⟨last, ?_⟩
  rw [habove, way, hparts, counting_append, counting_dropped hidle hidle',
    counting_singleton hcounts]

theorem isAbsolute_of_parent? {path parent : Path} (h : path.parent? = some parent) :
    parent.isAbsolute = path.isAbsolute := by
  obtain ⟨-, hroot, hparent⟩ := parent?_eq_some h
  obtain ⟨idle, last, idle', hparts, -⟩ := parts_eq_partsAbove_append path
  cases habsolute : path.isAbsolute with
  | true =>
    obtain ⟨second, others, hfirst⟩ := isAbsolute_iff.1 habsolute
    have hleft := partsAbove_ne_nil habsolute hroot
    rw [hparent, habsolute, Bool.true_and]
    split
    · rfl
    rename_i hslash
    obtain ⟨first, rest, habove⟩ := List.exists_cons_of_ne_nil hleft
    have hempty : first = "" := by
      rw [habove, hfirst] at hparts
      exact (List.cons.inj hparts).1.symm
    obtain ⟨next, rest, rfl⟩ : ∃ next others, rest = next :: others := by
      refine List.exists_cons_of_ne_nil fun hrest => hslash ?_
      rw [habove, hrest, hempty]
      rfl
    refine isAbsolute_iff.2 ⟨next, rest, ?_⟩
    rw [parts_intercalate (by simp [habove]) separator_not_mem_partsAbove, habove, hempty]
  | false =>
    rw [hparent, habsolute, Bool.false_and, if_neg Bool.false_ne_true]
    by_cases hne : path.partsAbove = []
    · rw [hne]
      rfl
    · rw [Bool.eq_false_iff]
      intro hparent
      obtain ⟨second, others, habove⟩ := isAbsolute_iff.1 hparent
      rw [parts_intercalate hne separator_not_mem_partsAbove] at habove
      rw [habove, List.cons_append, List.cons_append] at hparts
      cases habsolute.symm.trans (isAbsolute_iff.2 ⟨_, _, hparts⟩)

end LiterateCheck.Path
