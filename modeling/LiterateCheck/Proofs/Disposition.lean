import LiterateCheck.Proofs.Directive
import LiterateCheck.Proofs.Text.Splitting
import Mathlib.Data.List.Induction

/-!
# What a list of tokens asks for

Directives are taken one by one, from left to right; here their outcome is told of the whole list.

1. Names without repetitions stand in the order in which they first occur
   (`pairwise_idxOf_eraseDups`).
2. Every list of tokens asks for some names: those between the commas of its last token that begins
   with `unless=`, or the baseline alone (`exists_asksFor`, `targets_of_asksFor`).
3. Code is dropped exactly when some token says so, wherever it stands, and otherwise kept for the
   names asked for; nothing else of the tokens counts (`interpret_reads`).
-/

namespace LiterateCheck

/-! ## The order of distinct names -/

theorem pairwise_idxOf_eraseDups (names : List String) :
    names.eraseDups.Pairwise fun a b => names.idxOf a < names.idxOf b := by
  induction names using List.reverseRecOn with
  | nil => exact .nil
  | append_singleton earlier name ih =>
    have hearlier : ∀ a ∈ earlier.eraseDups, (earlier ++ [name]).idxOf a = earlier.idxOf a := by
      intro a ha
      rw [List.idxOf_append, if_pos (List.mem_eraseDups.1 ha)]
    have hnew : ∀ b ∈ ([name].removeAll earlier).eraseDups, b = name ∧ name ∉ earlier := by
      intro b hb
      obtain ⟨hb, hfresh⟩ := List.mem_filter.1 (List.mem_eraseDups.1 hb)
      obtain rfl := List.mem_singleton.1 hb
      exact ⟨rfl, by simpa using hfresh⟩
    rw [List.eraseDups_append, List.pairwise_append]
    refine ⟨?_, ?_, ?_⟩
    · refine ih.imp_of_mem fun ha hb hlt => ?_
      rwa [hearlier _ ha, hearlier _ hb]
    · -- at most the one name is new
      have hshort : ([name].removeAll earlier).length ≤ 1 := List.length_filter_le ..
      match hlist : [name].removeAll earlier, hshort with
      | [], _ => exact .nil
      | [_], _ => exact List.pairwise_singleton _ _
    · intro a ha b hb
      obtain ⟨rfl, hfresh⟩ := hnew b hb
      have hlt : earlier.idxOf a < earlier.length :=
        List.idxOf_lt_length_of_mem (List.mem_eraseDups.1 ha)
      rw [hearlier a ha, List.idxOf_append, if_neg hfresh]
      omega

/-! ## The names asked for -/

/-- The names that a list of tokens asks for, repetitions included. -/
inductive AsksFor : List String → List String → Prop where
  /-- No token begins with `unless=`: the baseline alone. -/
  | baseline {tokens : List String}
      (hnone : ∀ token ∈ tokens, ¬ "unless=".toList <+: token.toList) :
      AsksFor tokens ["_"]
  /-- The last token that begins with `unless=` goes on with the names, parted by commas. -/
  | listed {earlier later names : List String} (hne : names ≠ [])
      (hcommas : ∀ name ∈ names, ',' ∉ name.toList)
      (hlast : ∀ token ∈ later, ¬ "unless=".toList <+: token.toList) :
      AsksFor (earlier ++ ("unless=" ++ ",".intercalate names) :: later) names

theorem namesGroups_iff {token : String} :
    namesGroups token = true ↔ "unless=".toList <+: token.toList :=
  List.isPrefixOf_iff_prefix

theorem filter_namesGroups_eq_nil {tokens : List String}
    (h : ∀ token ∈ tokens, ¬ "unless=".toList <+: token.toList) :
    tokens.filter namesGroups = [] :=
  List.filter_eq_nil_iff.2 fun token htoken hnames => h token htoken (namesGroups_iff.1 hnames)

/-- Names that hold no comma are read back from between the commas. -/
theorem tags_append_intercalate {names : List String} (hne : names ≠ [])
    (hcommas : ∀ name ∈ names, ',' ∉ name.toList) :
    tags ("unless=" ++ ",".intercalate names) = names := by
  have hrest : ("unless=" ++ ",".intercalate names).toList.drop Directive.groupsMark.length =
      [','].intercalate (names.map String.toList) := by
    rw [String.toList_append, String.toList_intercalate]
    exact List.drop_left
  have hpieces : ∀ piece ∈ names.map String.toList, ',' ∉ piece := by
    intro piece hpiece
    obtain ⟨name, hname, rfl⟩ := List.mem_map.1 hpiece
    exact hcommas name hname
  unfold tags
  rw [hrest, List.splitOn_intercalate ',' hpieces (by simpa using hne), List.map_map]
  calc names.map (String.ofList ∘ String.toList)
      = names.map id := List.map_congr_left fun name _ => String.ofList_toList
    _ = names := List.map_id names

/-- A token that names groups is its mark and its tags, parted by commas. -/
theorem eq_append_intercalate_tags {token : String} (h : namesGroups token = true) :
    token = "unless=" ++ ",".intercalate (tags token) := by
  obtain ⟨rest, hrest⟩ := namesGroups_iff.1 h
  have hdrop : token.toList.drop Directive.groupsMark.length = rest := by
    rw [← hrest]
    exact List.drop_left
  have htags : (tags token).map String.toList = rest.splitOn ',' := by
    unfold tags
    rw [hdrop, List.map_map]
    calc (rest.splitOn ',').map (String.toList ∘ String.ofList)
        = (rest.splitOn ',').map id := List.map_congr_left fun piece _ => String.toList_ofList
      _ = rest.splitOn ',' := List.map_id _
  apply String.toList_injective
  rw [String.toList_append, String.toList_intercalate, htags]
  show _ = "unless=".toList ++ [','].intercalate (rest.splitOn ',')
  rw [List.intercalate_splitOn, hrest]

theorem tags_ne_nil (token : String) : tags token ≠ [] := by
  unfold tags
  rw [Ne, List.map_eq_nil_iff]
  exact List.splitOn_ne_nil _ _

theorem comma_not_mem_of_mem_tags {token name : String} (h : name ∈ tags token) :
    ',' ∉ name.toList := by
  obtain ⟨piece, hpiece, rfl⟩ := List.mem_map.1 h
  rw [String.toList_ofList]
  exact Text.not_mem_of_mem_splitOn hpiece

theorem exists_of_getLast?_eq_some {tokens : List String} {token : String}
    (h : (tokens.filter namesGroups).getLast? = some token) :
    ∃ earlier later, tokens = earlier ++ token :: later ∧ namesGroups token = true ∧
      ∀ other ∈ later, ¬ "unless=".toList <+: other.toList := by
  obtain ⟨others, hothers⟩ := List.getLast?_eq_some_iff.1 h
  obtain ⟨front, back, rfl, -, hback⟩ := List.filter_eq_append_iff.1 hothers
  obtain ⟨between, later, rfl, -, htoken, hlater⟩ := List.filter_eq_cons_iff.1 hback
  refine ⟨front ++ between, later, (List.append_assoc ..).symm, htoken, ?_⟩
  intro other hother hmark
  exact List.filter_eq_nil_iff.1 hlater other hother (namesGroups_iff.2 hmark)

theorem exists_asksFor (tokens : List String) : ∃ names, AsksFor tokens names := by
  cases hlast : (tokens.filter namesGroups).getLast? with
  | none =>
    have hnone := List.filter_eq_nil_iff.1 (List.getLast?_eq_none_iff.1 hlast)
    exact ⟨_, .baseline fun token htoken hmark => hnone token htoken (namesGroups_iff.2 hmark)⟩
  | some token =>
    obtain ⟨earlier, later, rfl, htoken, hlater⟩ := exists_of_getLast?_eq_some hlast
    refine ⟨tags token, ?_⟩
    rw [eq_append_intercalate_tags htoken, tags_append_intercalate (tags_ne_nil token)
      fun _ => comma_not_mem_of_mem_tags]
    exact .listed (tags_ne_nil token) (fun _ => comma_not_mem_of_mem_tags) hlater

theorem AsksFor.ne_nil {tokens names : List String} (h : AsksFor tokens names) : names ≠ [] := by
  cases h with
  | baseline => exact List.cons_ne_nil _ _
  | listed hne => exact hne

/-- The groups of a list of tokens are the names it asks for. -/
theorem targets_of_asksFor {tokens names : List String} (h : AsksFor tokens names) :
    targets tokens = names.eraseDups := by
  unfold targets
  cases h with
  | baseline hnone =>
    rw [filter_namesGroups_eq_nil hnone]
    rfl
  | @listed earlier later names hne hcommas hlast =>
    have hmark : namesGroups ("unless=" ++ ",".intercalate names) = true := by
      rw [namesGroups_iff, String.toList_append]
      exact List.prefix_append _ _
    rw [List.filter_append, List.filter_cons_of_pos hmark, filter_namesGroups_eq_nil hlast,
      List.getLast?_concat]
    dsimp only
    rw [tags_append_intercalate hne hcommas]

/-! ## What becomes of the code -/

theorem drops_iff {tokens : List String} :
    drops tokens = true ↔ "skip" ∈ tokens ∨ "no-check" ∈ tokens := by
  simp [drops]

theorem wraps_eq_decide (tokens : List String) : wraps tokens = decide ("test" ∈ tokens) :=
  List.contains_eq_mem ..

/-- **Tokens and what they come to.** Code is dropped exactly when some token says so, wherever it
stands. Otherwise it is kept, as a test exactly when some token asks for one, for the distinct
names of the last token that lists some, in the order in which they first occur there, or for the
baseline. Lists of tokens that agree on these three things come to the same, whatever else they
hold. -/
theorem interpret_reads (body : String) (tokens : List String) :
    (interpret body tokens = .discard ↔ "skip" ∈ tokens ∨ "no-check" ∈ tokens) ∧
    ("skip" ∉ tokens → "no-check" ∉ tokens →
      (∃ names, AsksFor tokens names) ∧
      ∀ names, AsksFor tokens names → ∃ groups : List String,
        interpret body tokens =
          .keep (if "test" ∈ tokens then wrapTest body else body) groups
            (decide ("test" ∈ tokens)) ∧
        groups ≠ [] ∧ groups.Nodup ∧ (∀ name, name ∈ groups ↔ name ∈ names) ∧
        groups.Pairwise fun a b => names.idxOf a < names.idxOf b) ∧
    ∀ others : List String,
      (("skip" ∈ others ∨ "no-check" ∈ others) ↔ ("skip" ∈ tokens ∨ "no-check" ∈ tokens)) →
      ("test" ∈ others ↔ "test" ∈ tokens) →
      (others.filter fun token => "unless=".toList.isPrefixOf token.toList).getLast? =
        (tokens.filter fun token => "unless=".toList.isPrefixOf token.toList).getLast? →
      interpret body others = interpret body tokens := by
  refine ⟨?_, ?_, ?_⟩
  · rw [interpret_eq, ← drops_iff]
    split <;> simp [*]
  · intro hskip hcheck
    refine ⟨exists_asksFor tokens, fun names hasks => ⟨names.eraseDups, ?_, ?_, ?_, ?_, ?_⟩⟩
    · have hkept : ¬ drops tokens = true := by
        rw [drops_iff, not_or]
        exact ⟨hskip, hcheck⟩
      rw [interpret_eq, if_neg hkept, targets_of_asksFor hasks, wraps_eq_decide]
      unfold codeFor
      rw [wraps_eq_decide]
      simp only [decide_eq_true_eq]
    · obtain ⟨name, hname⟩ := List.exists_mem_of_ne_nil _ hasks.ne_nil
      exact List.ne_nil_of_mem (List.mem_eraseDups.2 hname)
    · exact nodup_eraseDups names
    · exact fun _ => List.mem_eraseDups
    · exact pairwise_idxOf_eraseDups names
  · intro others hdrops htest hlast
    have hdrops : drops others = drops tokens := by
      rw [Bool.eq_iff_iff, drops_iff, drops_iff]
      exact hdrops
    have hwraps : wraps others = wraps tokens := by
      rw [wraps_eq_decide, wraps_eq_decide, decide_eq_decide]
      exact htest
    have htargets : targets others = targets tokens := by
      have hlast : (others.filter namesGroups).getLast? = (tokens.filter namesGroups).getLast? :=
        hlast
      unfold targets
      rw [hlast]
    rw [interpret_eq, interpret_eq, hdrops, htargets, hwraps]
    unfold codeFor
    rw [hwraps]

/-- Two tokens list names, the later one with a repetition and an empty name; `unless` lists none,
and the second `test` changes nothing. -/
theorem interpret_later_listing :
    AsksFor ["note", "unless=b", "test", "unless", "unless=x,,x,_", "test"] ["x", "", "x", "_"] ∧
    (∃ groups : List String,
      interpret "f()" ["note", "unless=b", "test", "unless", "unless=x,,x,_", "test"] =
        .keep (wrapTest "f()") groups true ∧
      groups.Nodup ∧ ∀ name, name ∈ groups ↔ name ∈ ["x", "", "x", "_"]) ∧
    interpret "f()" ["unless=x,,x,_", "test"] =
      interpret "f()" ["note", "unless=b", "test", "unless", "unless=x,,x,_", "test"] ∧
    interpret "f()" ["test", "unless=x", "no-check"] = .discard := by
  have hasks : AsksFor ["note", "unless=b", "test", "unless", "unless=x,,x,_", "test"]
      ["x", "", "x", "_"] :=
    @AsksFor.listed ["note", "unless=b", "test", "unless"] ["test"] ["x", "", "x", "_"]
      (by decide) (by decide) (by decide)
  obtain ⟨-, hkeep, halike⟩ :=
    interpret_reads "f()" ["note", "unless=b", "test", "unless", "unless=x,,x,_", "test"]
  obtain ⟨-, hnames⟩ := hkeep (by decide) (by decide)
  obtain ⟨groups, hinterpret, -, hnodup, hmem, -⟩ := hnames _ hasks
  exact ⟨hasks, ⟨groups, hinterpret, hnodup, hmem⟩,
    halike _ (by decide) (by decide) (by decide),
    (interpret_reads "f()" ["test", "unless=x", "no-check"]).1.2 (by decide)⟩

example : interpret "f()" ["note", "unless=b", "test", "unless", "unless=x,,x,_", "test"] =
    .keep "test \x7b\n  f()\n\x7d" ["x", "", "_"] true := by decide

end LiterateCheck
