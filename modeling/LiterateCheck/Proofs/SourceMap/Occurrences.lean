import Mathlib.Data.List.Induction
import LiterateCheck.Proofs.SourceMap.Locating

/-!
# Where locations stand in a text

A text is searched here as a whole: every place of the marker is known beforehand, and the path
before one is the longest run without a delimiter.

1. No marker stands inside another one or inside a locator, so the places in a text are those of its
   parts (`markerPlaces_marker_append`, `markerPlaces_append_of_not_mem`). Cutting a text at its
   first marker meets them one after the other (`markerPlaces_of_splitAtMark?_eq_some`).
2. A path starts where no longer run without a delimiter does (`isPathStart_append`).
3. The last directory of a path and its file name stand between separators of either kind
   (`pathEnd_of_pathEnds`).
-/

namespace LiterateCheck

theorem exists_parted (p : Char → Bool) (text : List Char) :
    ∃ front back, text = front ++ back ∧ EndsWith (p · = true) front ∧
      ∀ c ∈ back, p c = false := by
  induction text using List.reverseRecOn with
  | nil => exact ⟨[], [], rfl, by simp [EndsWith], by simp⟩
  | append_singleton text c ih =>
    cases hc : p c with
    | true => exact ⟨text ++ [c], [], by simp, by simpa [EndsWith] using hc, by simp⟩
    | false =>
      obtain ⟨front, back, rfl, hfront, hback⟩ := ih
      refine ⟨front, back ++ [c], by simp, hfront, ?_⟩
      intro d hd
      rcases List.mem_append.1 hd with hd | hd
      · exact hback d hd
      · rw [List.mem_singleton.1 hd, hc]

theorem extract_append (front middle back : List Char) :
    (front ++ (middle ++ back)).extract front.length (front.length + middle.length) = middle := by
  rw [List.extract_eq_take_drop, List.drop_left, Nat.add_sub_cancel_left, List.take_left]

namespace SourceMap

/-! ## The marker -/

/-- The places of the marker in a text, from left to right. -/
def markerPlaces (text : List Char) : List Nat :=
  (List.range text.length).filter fun place => marker <+: text.drop place

theorem head?_of_marker_prefix {text : List Char} (h : marker <+: text) :
    text.head? = some '.' := by
  obtain ⟨rest, rfl⟩ := h
  rfl

/-- Behind its first character a marker holds no other one, not even in part. -/
theorem not_marker_prefix_inside (rest : List Char) {place : Nat} (hpos : 0 < place)
    (hplace : place < marker.length) : ¬ marker <+: (marker ++ rest).drop place := by
  intro h
  have hcase : place = 3 := by
    have hhead := head?_of_marker_prefix h
    rw [List.head?_drop, List.getElem?_append_left hplace] at hhead
    have hpoints : ∀ i < marker.length, marker[i]? = some '.' → i = 0 ∨ i = 3 := by decide
    rcases hpoints place hplace hhead with rfl | rfl
    · exact absurd hpos (Nat.lt_irrefl 0)
    · rfl
  subst hcase
  have hthird : (marker ++ rest)[5]? = some 'd' := by
    obtain ⟨tail, htail⟩ := h
    rw [show 5 = 3 + 2 from rfl, ← List.getElem?_drop, ← htail]
    rfl
  have hother : (marker ++ rest)[5]? = some 'b' := rfl
  exact absurd (hother.symm.trans hthird) (by decide)

/-- Where no marker starts in the first part of a text, its places are those of the second part. -/
theorem markerPlaces_append {front back : List Char}
    (h : ∀ place < front.length, ¬ marker <+: (front ++ back).drop place) :
    markerPlaces (front ++ back) = (markerPlaces back).map (front.length + ·) := by
  have hfront : (List.range front.length).filter
      (fun place => marker <+: (front ++ back).drop place) = [] := by
    rw [List.filter_eq_nil_iff]
    intro place hplace
    simpa using h place (List.mem_range.1 hplace)
  have hback : ∀ place, (front ++ back).drop (front.length + place) = back.drop place := by
    intro place
    rw [← List.drop_drop, List.drop_left]
  unfold markerPlaces
  rw [List.length_append, List.range_add, List.filter_append, hfront, List.nil_append,
    List.filter_map]
  simp only [Function.comp_def, hback]

theorem markerPlaces_append_of_not_mem {front : List Char} (hfront : '.' ∉ front)
    (back : List Char) :
    markerPlaces (front ++ back) = (markerPlaces back).map (front.length + ·) := by
  refine markerPlaces_append fun place hplace hprefix => hfront ?_
  have hhead := head?_of_marker_prefix hprefix
  rw [List.head?_drop, List.getElem?_append_left hplace] at hhead
  exact List.mem_of_getElem? hhead

theorem markerPlaces_marker_append (rest : List Char) :
    markerPlaces (marker ++ rest) = 0 :: (markerPlaces rest).map (marker.length + ·) := by
  have hinside : (List.range' 1 (marker.length - 1)).filter
      (fun place => marker <+: (marker ++ rest).drop place) = [] := by
    rw [List.filter_eq_nil_iff]
    intro place hplace
    obtain ⟨hlow, hhigh⟩ := List.mem_range'_1.1 hplace
    simpa using not_marker_prefix_inside rest hlow hhigh
  have hrest : ∀ place, (marker ++ rest).drop (marker.length + place) = rest.drop place := by
    intro place
    rw [← List.drop_drop, List.drop_left]
  have hrange : List.range marker.length = 0 :: List.range' 1 (marker.length - 1) := by decide
  unfold markerPlaces
  rw [List.length_append, List.range_add, List.filter_append, hrange,
    List.filter_cons_of_pos (by simp), hinside, List.filter_map]
  simp only [Function.comp_def, hrest, List.cons_append, List.nil_append]

/-! ## Cutting at the marker -/

theorem not_prefix_of_splitAtMark?_eq_none {mark text : List Char}
    (h : splitAtMark? mark text = none) (place : Nat) : ¬ mark <+: text.drop place := by
  induction text generalizing place with
  | nil =>
    rw [splitAtMark?] at h
    split at h
    · cases h
    · rename_i hmark
      rw [List.drop_nil]
      intro hprefix
      exact hmark (by rw [List.prefix_nil.1 hprefix]; rfl)
  | cons c rest ih =>
    rw [splitAtMark?] at h
    split at h
    · cases h
    · rename_i hhere
      cases place with
      | zero => exact fun hprefix => hhere (List.isPrefixOf_iff_prefix.2 hprefix)
      | succ place => exact ih (Option.map_eq_none_iff.1 h) place

theorem not_prefix_of_splitAtMark?_eq_some {mark text before after : List Char}
    (h : splitAtMark? mark text = some (before, after)) (place : Nat)
    (hplace : place < before.length) : ¬ mark <+: text.drop place := by
  induction text generalizing before place with
  | nil =>
    rw [splitAtMark?] at h
    split at h
    · cases h
      cases hplace
    · cases h
  | cons c rest ih =>
    rw [splitAtMark?] at h
    split at h
    · cases h
      cases hplace
    · rename_i hhere
      obtain ⟨⟨front, back⟩, hrest, heq⟩ := Option.map_eq_some_iff.1 h
      cases heq
      cases place with
      | zero => exact fun hprefix => hhere (List.isPrefixOf_iff_prefix.2 hprefix)
      | succ place => exact ih hrest place (Nat.lt_of_succ_lt_succ hplace)

theorem markerPlaces_of_splitAtMark?_eq_none {text : List Char}
    (h : splitAtMark? marker text = none) : markerPlaces text = [] := by
  unfold markerPlaces
  rw [List.filter_eq_nil_iff]
  intro place _
  simpa using not_prefix_of_splitAtMark?_eq_none h place

/-- The first place is where a text is cut, and the next ones are those of what is left. -/
theorem markerPlaces_of_splitAtMark?_eq_some {text before after : List Char}
    (h : splitAtMark? marker text = some (before, after)) :
    markerPlaces text = before.length ::
      (markerPlaces after).map (before.length + marker.length + ·) := by
  have htext := eq_of_splitAtMark? h
  have hnone := not_prefix_of_splitAtMark?_eq_some h
  rw [htext, List.append_assoc] at hnone ⊢
  rw [markerPlaces_append hnone, markerPlaces_marker_append, List.map_cons, List.map_map]
  simp only [Function.comp_def, Nat.add_zero, Nat.add_assoc]

/-! ## The path -/

/-- The path that ends at `stop` starts at `start`: between them stands no delimiter, and the run
cannot be made longer without reaching back before `low`. -/
structure IsPathStart (text : List Char) (low stop start : Nat) : Prop where
  low_le : low ≤ start
  le_stop : start ≤ stop
  plain : ∀ c ∈ text.extract start stop, isDelimiter c = false
  longest (other : Nat) : low ≤ other → other ≤ stop →
    (∀ c ∈ text.extract other stop, isDelimiter c = false) → start ≤ other

theorem IsPathStart.unique {text : List Char} {low stop start start' : Nat}
    (h : IsPathStart text low stop start) (h' : IsPathStart text low stop start') :
    start = start' :=
  Nat.le_antisymm (h.longest start' h'.low_le h'.le_stop h'.plain)
    (h'.longest start h.low_le h.le_stop h.plain)

/-- The run without a delimiter before a place starts behind the last delimiter. -/
theorem isPathStart_append {left stem : List Char} (done after : List Char)
    (hleft : EndsWith (isDelimiter · = true) left) (hstem : ∀ c ∈ stem, isDelimiter c = false) :
    IsPathStart (done ++ (left ++ (stem ++ after))) done.length
      (done.length + left.length + stem.length) (done.length + left.length) where
  low_le := Nat.le_add_right ..
  le_stop := Nat.le_add_right ..
  plain := by
    have hmiddle := extract_append (done ++ left) stem after
    rw [List.length_append, List.append_assoc] at hmiddle
    rw [hmiddle]
    exact hstem
  longest other hlow hstop hplain := by
    refine Nat.not_lt.1 fun hlt => ?_
    -- a run from before would hold the delimiter at the end of `left`
    obtain ⟨front, c, rfl⟩ : ∃ front c, left = front ++ [c] := by
      refine (List.eq_nil_or_concat' left).resolve_left ?_
      rintro rfl
      rw [List.length_nil, Nat.add_zero] at hlt
      omega
    have hc : isDelimiter c = true := hleft c (by simp)
    have hmem : c ∈ (done ++ (front ++ [c] ++ (stem ++ after))).extract other
        (done.length + (front ++ [c]).length + stem.length) := by
      have hplace : (done ++ (front ++ [c] ++ (stem ++ after)))[done.length + front.length]? =
          some c := by
        simp
      rw [List.length_append, List.length_singleton] at hlt ⊢
      rw [List.extract_eq_take_drop]
      refine List.mem_of_getElem? (i := done.length + front.length - other) ?_
      rw [List.getElem?_take_of_lt (by omega), List.getElem?_drop,
        show other + (done.length + front.length - other) = done.length + front.length by omega,
        hplace]
    rw [hplain c hmem] at hc
    cases hc

/-! ## The end of the path -/

/-- Whether a character parts the steps of a path. -/
def isSeparator (c : Char) : Bool := c == '/' || c == '\\'

/-- The file name of a path, and the directory before it if there is one. -/
inductive PathEnds : List Char → List Char → List Char → Prop
  | name {name : List Char} (hname : ∀ c ∈ name, isSeparator c = false) : PathEnds name [] name
  | directory {front directory name : List Char} {separator : Char}
      (hfront : EndsWith (isSeparator · = true) front)
      (hdirectory : ∀ c ∈ directory, isSeparator c = false)
      (hseparator : isSeparator separator = true)
      (hname : ∀ c ∈ name, isSeparator c = false) :
      PathEnds (front ++ (directory ++ separator :: name)) directory name

theorem exists_pathEnds (path : List Char) :
    ∃ directory name, PathEnds path directory name := by
  obtain ⟨front, name, rfl, hfront, hname⟩ := exists_parted isSeparator path
  rcases List.eq_nil_or_concat' front with rfl | ⟨front, separator, rfl⟩
  · exact ⟨[], name, .name hname⟩
  · obtain ⟨above, directory, rfl, habove, hdirectory⟩ := exists_parted isSeparator front
    have hseparator : isSeparator separator = true := hfront separator (by simp)
    have hends := PathEnds.directory habove hdirectory hseparator hname
    exact ⟨directory, name, by simpa using hends⟩

/-- Every separator written as a slash. -/
def slashed (path : List Char) : List Char :=
  path.map fun c => if c == '\\' then '/' else c

theorem slashed_of_forall {text : List Char} (h : ∀ c ∈ text, isSeparator c = false) :
    slashed text = text := by
  refine (List.map_congr_left fun c hc => ?_).trans (List.map_id _)
  have hc := h c hc
  unfold isSeparator at hc
  rw [Bool.or_eq_false_iff] at hc
  rw [hc.2]
  rfl

theorem slash_of_isSeparator {c : Char} (h : isSeparator c = true) : slashed [c] = ['/'] := by
  unfold isSeparator at h
  rcases Bool.or_eq_true_iff.1 h with h | h
  · rw [beq_iff_eq.1 h]
    rfl
  · rw [beq_iff_eq.1 h]
    rfl

theorem pathEnd_slashed (path : List Char) : pathEnd (slashed path) = pathEnd path := by
  have htwice : (slashed path).map (fun c => if c == '\\' then '/' else c) =
      path.map fun c => if c == '\\' then '/' else c := by
    unfold slashed
    rw [List.map_map]
    refine List.map_congr_left fun c _ => ?_
    dsimp only [Function.comp_apply]
    by_cases hc : (c == '\\') = true
    · rw [if_pos hc]
      rfl
    · rw [if_neg hc, if_neg hc]
  unfold pathEnd
  rw [htwice]

theorem pathEnd_of_pathEnds {path directory name : List Char}
    (h : PathEnds path directory name) :
    pathEnd path = (String.ofList directory, String.ofList name) := by
  have hne {text : List Char} (htext : ∀ c ∈ text, isSeparator c = false) :
      ∀ c ∈ text, c ≠ '/' ∧ c ≠ '\\' := by
    intro c hc
    have hseparator := htext c hc
    unfold isSeparator at hseparator
    simpa using hseparator
  cases h with
  | name hname =>
    unfold pathEnd
    rw [show path.map (fun c => if c == '\\' then '/' else c) = path from slashed_of_forall hname,
      List.splitOn_eq_singleton fun hmem => (hne hname _ hmem).1 rfl]
    rfl
  | @directory front directory name separator hfront hdirectory hseparator hname =>
    have hends : EndsWith (· = '/') (slashed front) := by
      intro c hc
      unfold slashed at hc
      rw [List.getLast?_map] at hc
      obtain ⟨d, hd, rfl⟩ := Option.map_eq_some_iff.1 hc
      exact List.head_eq_of_cons_eq (slash_of_isSeparator (hfront d hd))
    have hslashed : slashed (front ++ (directory ++ separator :: name)) =
        slashed front ++ directory ++ '/' :: name := by
      have hsplit : slashed (front ++ (directory ++ separator :: name)) =
          slashed front ++ (slashed directory ++ (slashed [separator] ++ slashed name)) := by
        simp [slashed]
      rw [hsplit, slashed_of_forall hdirectory, slash_of_isSeparator hseparator,
        slashed_of_forall hname]
      simp
    rw [← pathEnd_slashed, hslashed, pathEnd_append hends (hne hdirectory) (hne hname)]

end SourceMap

end LiterateCheck
