import LiterateCheck.Disk.Lookup
import LiterateCheck.Proofs.Text.Splitting
import LiterateCheck.Proofs.Text.Stray

/-!
# Joining paths

A path that is joined to a base goes on from it: its names follow the names of the base, and it is
absolute when the base is. A name that a file can have is a path of one step, and the steps of every
path are such names, `.` and `..` apart.
-/

namespace LiterateCheck.Path

/-! ## Names -/

/-- The pieces of a text between separators, without the empty ones. -/
def pieces (text : List Char) : List String :=
  ((text.splitOn '/').map String.ofList).filter fun part => !part.isEmpty

theorem names_eq_pieces (path : Path) : path.names = pieces path.text.toList := rfl

theorem pieces_nil : pieces [] = [] := rfl

theorem pieces_append_separator (front back : List Char) :
    pieces (front ++ '/' :: back) = pieces front ++ pieces back := by
  unfold pieces
  rw [List.splitOn_append_cons_self, List.map_append, List.filter_append]

theorem names_join (base : Path) {path : Path} (hpath : path.isAbsolute = false) :
    (base.join path).names = base.names ++ path.names := by
  unfold join
  rw [hpath, if_neg Bool.false_ne_true]
  split
  · rename_i h
    rcases Bool.or_eq_true_iff.1 h with hempty | hlast
    · rw [names_eq_pieces, names_eq_pieces base, String.isEmpty_iff.1 hempty]
      simp [pieces_nil, names_eq_pieces]
    · obtain ⟨front, hfront⟩ := List.getLast?_eq_some_iff.1 (beq_iff_eq.1 hlast)
      simp only [names_eq_pieces, String.toList_append, hfront]
      rw [List.append_assoc, List.singleton_append, pieces_append_separator,
        pieces_append_separator, pieces_nil, List.append_nil]
  · simp only [names_eq_pieces, String.toList_append]
    rw [List.append_assoc, show "/".toList = ['/'] from rfl, List.singleton_append,
      pieces_append_separator]

theorem isAbsolute_join (base : Path) {path : Path} (hpath : path.isAbsolute = false) :
    (base.join path).isAbsolute = base.isAbsolute := by
  unfold join
  rw [hpath, if_neg Bool.false_ne_true]
  by_cases hempty : base.text = ""
  · have hbase : base.isAbsolute = false := by
      unfold isAbsolute
      rw [hempty]
      rfl
    rw [if_pos (by simp [hempty]), hbase, ← hpath]
    unfold isAbsolute
    rw [hempty, String.empty_append]
  · have hne : base.text.toList ≠ [] := by simpa using hempty
    obtain ⟨c, rest, hc⟩ := List.exists_cons_of_ne_nil hne
    unfold isAbsolute
    split <;> simp only [String.toList_append, List.append_assoc, hc, List.cons_append,
      List.head?_cons]

/-- A path that is joined to another stands behind a separator, which the base may bring along. -/
theorem toList_join {base path : Path} (hbase : base.text ≠ "") (hpath : path.isAbsolute = false) :
    ∃ front, (base.join path).text.toList = front ++ '/' :: path.text.toList ∧
      (front = base.text.toList ∨ base.text.toList = front ++ ['/']) := by
  unfold join
  rw [hpath, if_neg Bool.false_ne_true]
  split
  · rename_i h
    rcases Bool.or_eq_true_iff.1 h with hempty | hlast
    · exact absurd (String.isEmpty_iff.1 hempty) hbase
    · obtain ⟨front, hfront⟩ := List.getLast?_eq_some_iff.1 (beq_iff_eq.1 hlast)
      refine ⟨front, ?_, .inr hfront⟩
      rw [String.toList_append, hfront, List.append_assoc, List.singleton_append]
  · exact ⟨base.text.toList, by simp, .inl rfl⟩

theorem text_join_ne_empty {base path : Path} (hbase : base.text ≠ "")
    (hpath : path.isAbsolute = false) : (base.join path).text ≠ "" := by
  obtain ⟨front, hfront, -⟩ := toList_join hbase hpath
  intro hempty
  rw [hempty] at hfront
  exact absurd (congrArg List.length hfront) (by simp)

/-! ### Sizes -/

theorem pieces_join (base : Path) {path : Path} (hpath : path.isAbsolute = false) :
    ∃ middle, (middle = [] ∨ middle = [.char '/']) ∧
      Text.pieces (base.join path).text.toList =
        Text.pieces base.text.toList ++ middle ++ Text.pieces path.text.toList := by
  unfold join
  rw [hpath, if_neg Bool.false_ne_true]
  split
  · rename_i h
    refine ⟨[], .inl rfl, ?_⟩
    rw [String.toList_append, List.append_nil, Text.pieces_append (.inl fun hlast => ?_)]
    rcases Bool.or_eq_true_iff.1 h with hempty | hseparator
    · rw [String.isEmpty_iff.1 hempty] at hlast
      cases hlast
    · rw [beq_iff_eq.1 hseparator] at hlast
      cases hlast
  · refine ⟨[.char '/'], .inr rfl, ?_⟩
    rw [String.append_assoc, String.toList_append, Text.pieces_append (.inr (by simp; decide)),
      String.toList_append, show "/".toList = ['/'] from rfl, List.singleton_append,
      Text.pieces_cons_of_ne (by decide), List.append_assoc]
    rfl

theorem size_le_join (base : Path) {path : Path} (hpath : path.isAbsolute = false) :
    base.size + path.size ≤ (base.join path).size := by
  obtain ⟨middle, -, hpieces⟩ := pieces_join base hpath
  unfold size Text.rawSize Text.rawBytes
  rw [hpieces, List.flatMap_append, List.flatMap_append, List.length_append, List.length_append]
  omega

theorem holdsNul_join (base : Path) {path : Path} (hpath : path.isAbsolute = false) :
    Text.holdsNul (base.join path).text =
      (Text.holdsNul base.text || Text.holdsNul path.text) := by
  obtain ⟨middle, hmiddle, hpieces⟩ := pieces_join base hpath
  have hnone : middle.contains (.char '\x00') = false := by
    rcases hmiddle with rfl | rfl <;> decide
  unfold Text.holdsNul
  rw [hpieces, List.contains_append, List.contains_append, hnone, Bool.or_false]

/-- A path leads on from another by some names. -/
structure GoesOn (base : Path) (more : List String) (path : Path) : Prop where
  isAbsolute_eq : path.isAbsolute = base.isAbsolute
  names_eq : path.names = base.names ++ more

theorem GoesOn.refl (base : Path) : GoesOn base [] base :=
  ⟨rfl, (List.append_nil _).symm⟩

theorem GoesOn.join {base path next : Path} {more : List String} (h : GoesOn base more path)
    (hnext : next.isAbsolute = false) : GoesOn base (more ++ next.names) (path.join next) where
  isAbsolute_eq := (isAbsolute_join path hnext).trans h.isAbsolute_eq
  names_eq := by rw [names_join path hnext, h.names_eq, List.append_assoc]

/-! ## Names of files -/

/-- One step of a path: a name, a `.` or a `..`. -/
structure IsStep (name : String) : Prop where
  ne_empty : name ≠ ""
  noSeparator : '/' ∉ name.toList

theorem IsStep.isAbsolute {name : String} (h : IsStep name) :
    (Path.mk name).isAbsolute = false := by
  unfold Path.isAbsolute
  rw [beq_eq_false_iff_ne]
  intro hhead
  exact h.noSeparator (List.mem_of_mem_head? hhead)

theorem IsStep.names {name : String} (h : IsStep name) : (Path.mk name).names = [name] := by
  unfold Path.names parts
  rw [List.splitOn_eq_singleton h.noSeparator, List.map_singleton, String.ofList_toList,
    List.filter_cons_of_pos (by simpa using h.ne_empty), List.filter_nil]

/-- A name that a file can have: a path of one step. -/
structure IsFileName (name : String) : Prop where
  ne_empty : name ≠ ""
  ne_here : name ≠ "."
  ne_up : name ≠ ".."
  noSeparator : '/' ∉ name.toList

instance (name : String) : Decidable (IsFileName name) :=
  decidable_of_iff (name ≠ "" ∧ name ≠ "." ∧ name ≠ ".." ∧ '/' ∉ name.toList)
    ⟨fun h => ⟨h.1, h.2.1, h.2.2.1, h.2.2.2⟩,
      fun h => ⟨h.ne_empty, h.ne_here, h.ne_up, h.noSeparator⟩⟩

theorem IsFileName.isStep {name : String} (h : IsFileName name) : IsStep name :=
  ⟨h.ne_empty, h.noSeparator⟩

theorem IsFileName.isAbsolute {name : String} (h : IsFileName name) :
    (Path.mk name).isAbsolute = false :=
  h.isStep.isAbsolute

theorem IsFileName.size_lt_join {name : String} (h : IsFileName name) (base : Path) :
    base.size < (base.join ⟨name⟩).size :=
  Nat.lt_of_lt_of_le (Nat.lt_add_of_pos_right (Text.rawSize_pos h.ne_empty))
    (size_le_join base h.isAbsolute)

theorem IsFileName.names {name : String} (h : IsFileName name) :
    (Path.mk name).names = [name] :=
  h.isStep.names

/-- What is joined to a base is followed behind the names of the base. -/
theorem steps_join {base path : Path} (hbase : base.text ≠ "") (hpath : path.text ≠ "")
    (hrelative : path.isAbsolute = false) :
    (base.join path).steps = base.names ++ path.steps := by
  have hend : (base.join path).endsInSeparator = path.endsInSeparator := by
    obtain ⟨front, hfront, -⟩ := toList_join hbase hrelative
    have hne : path.text.toList ≠ [] := by simpa using hpath
    obtain ⟨init, last, hlast⟩ : ∃ init last, path.text.toList = init ++ [last] :=
      ⟨_, _, (List.dropLast_concat_getLast hne).symm⟩
    unfold endsInSeparator
    rw [hfront, hlast, ← List.cons_append, ← List.append_assoc, List.getLast?_concat,
      List.getLast?_concat]
  unfold steps
  rw [hend, names_join base hrelative]
  split
  · rw [List.append_assoc]
  · rfl

theorem text_ne_empty_of_steps {path : Path} (hsteps : path.steps ≠ []) : path.text ≠ "" := by
  intro hempty
  obtain rfl : path = ⟨""⟩ := congrArg Path.mk hempty
  exact hsteps rfl

theorem IsFileName.steps {name : String} (h : IsFileName name) : (Path.mk name).steps = [name] := by
  have hend : (Path.mk name).endsInSeparator = false := by
    unfold endsInSeparator
    rw [beq_eq_false_iff_ne]
    intro hlast
    exact h.noSeparator (List.mem_of_getLast? hlast)
  unfold Path.steps
  rw [hend, if_neg Bool.false_ne_true, h.names]

theorem steps_join_name {base : Path} (hbase : base.text ≠ "") {name : String}
    (hname : IsFileName name) : (base.join ⟨name⟩).steps = base.names ++ [name] := by
  rw [steps_join hbase hname.ne_empty hname.isAbsolute, hname.steps]

theorem separator_not_mem_of_mem_parts {path : Path} {part : String} (h : part ∈ path.parts) :
    '/' ∉ part.toList := by
  obtain ⟨piece, hpiece, rfl⟩ := List.mem_map.1 h
  rw [String.toList_ofList]
  exact Text.not_mem_of_mem_splitOn hpiece

theorem isStep_of_mem_names {path : Path} {name : String} (h : name ∈ path.names) :
    IsStep name := by
  obtain ⟨hpart, hne⟩ := List.mem_filter.1 h
  exact ⟨by simpa using hne, separator_not_mem_of_mem_parts hpart⟩

theorem isFileName_of_mem_names {path : Path} {name : String} (h : name ∈ path.names)
    (hhere : name ≠ ".") (hup : name ≠ "..") : IsFileName name :=
  ⟨(isStep_of_mem_names h).ne_empty, hhere, hup, (isStep_of_mem_names h).noSeparator⟩

theorem isFileName_of_mem_steps {path : Path} {name : String} (h : name ∈ path.steps)
    (hhere : name ≠ ".") (hup : name ≠ "..") : IsFileName name := by
  unfold steps at h
  split at h
  · rcases List.mem_append.1 h with h | h
    · exact isFileName_of_mem_names h hhere hup
    · exact absurd (List.mem_singleton.1 h) hhere
  · exact isFileName_of_mem_names h hhere hup

end LiterateCheck.Path
