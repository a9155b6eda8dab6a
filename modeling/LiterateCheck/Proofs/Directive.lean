import LiterateCheck.Directive

/-!
# What directives come to

Tokens are taken from left to right, but what they come to is read off the list as a whole:
whether a token drops the code, whether one makes it a test, and the tags of the last one that
names groups (`interpret_eq`).
-/

namespace LiterateCheck

/-! ## Distinct names -/

theorem foldl_addName (seen names : List String) :
    names.foldl addName seen = List.eraseDupsBy.loop (· == ·) names seen.reverse := by
  induction names generalizing seen with
  | nil => simp [List.eraseDupsBy.loop]
  | cons name others ih =>
    rw [List.foldl_cons, ih, List.eraseDupsBy.loop]
    unfold addName
    by_cases hmem : name ∈ seen
    · have hany : seen.reverse.any (name == ·) = true :=
        List.any_eq_true.2 ⟨name, List.mem_reverse.2 hmem, beq_self_eq_true name⟩
      rw [if_pos hmem, hany]
    · have hany : seen.reverse.any (name == ·) = false := by
        rw [List.any_eq_false]
        intro other hother heq
        exact hmem (beq_iff_eq.1 heq ▸ List.mem_reverse.1 hother)
      rw [if_neg hmem, hany, List.reverse_append, List.reverse_singleton, List.singleton_append]

theorem distinctNames_eq_eraseDups (names : List String) :
    distinctNames names = names.eraseDups :=
  foldl_addName [] names

theorem mem_distinctNames {name : String} {names : List String} :
    name ∈ distinctNames names ↔ name ∈ names := by
  rw [distinctNames_eq_eraseDups, List.mem_eraseDups]

/-! ## Reading tokens -/

/-- Whether some token drops the code. -/
def drops (tokens : List String) : Bool :=
  tokens.contains "skip" || tokens.contains "no-check"

/-- Whether some token makes the code a test. -/
def wraps (tokens : List String) : Bool :=
  tokens.contains "test"

/-- Whether a token names groups. -/
def namesGroups (token : String) : Bool :=
  Directive.groupsMark.toList.isPrefixOf token.toList

/-- The tags of a token that names groups: what stands between its commas. -/
def tags (token : String) : List String :=
  ((token.toList.drop Directive.groupsMark.length).splitOn ',').map String.ofList

/-- The groups that a list of tokens asks for: the distinct tags of its last token that names
groups, or the baseline when there is none. -/
def targets (tokens : List String) : List String :=
  match (tokens.filter namesGroups).getLast? with
  | some token => (tags token).eraseDups
  | none => [baselineGroup]

/-- The code as the tokens want it written. -/
def codeFor (tokens : List String) (body : String) : String :=
  if wraps tokens then wrapTest body else body

namespace Directive

theorem parse_of_namesGroups {token : String} (h : namesGroups token = true) :
    parse token = only (tags token) := by
  have hne (other : String) (hother : namesGroups other = false) : token ≠ other := by
    rintro rfl
    rw [h] at hother
    cases hother
  unfold parse
  rw [if_neg (not_or.2 ⟨hne "skip" (by decide), hne "no-check" (by decide)⟩),
    if_neg (hne "test" (by decide))]
  exact if_pos h

theorem foldlM_take (request : Request) (tokens : List String) :
    (tokens.map parse).foldlM Request.take request =
      if drops tokens then none
      else some ⟨((tokens.filter namesGroups).getLast?.map tags).or request.groups?,
        request.wraps || wraps tokens⟩ := by
  induction tokens generalizing request with
  | nil =>
    show some request = some _
    simp [wraps]
  | cons token others ih =>
    rw [List.map_cons, List.foldlM_cons]
    by_cases hdrop : token = "skip" ∨ token = "no-check"
    · have hdrops : drops (token :: others) = true := by
        rcases hdrop with rfl | rfl <;> simp [drops]
      rw [show parse token = skip from if_pos hdrop, hdrops]
      rfl
    · have hdrops : drops (token :: others) = drops others := by
        rw [not_or] at hdrop
        simp [drops, Ne.symm hdrop.1, Ne.symm hdrop.2]
      rw [hdrops]
      by_cases htest : token = "test"
      · subst htest
        have hwraps : wraps ("test" :: others) = true := by simp [wraps]
        show (others.map parse).foldlM Request.take ⟨request.groups?, true⟩ = _
        rw [ih, hwraps, List.filter_cons_of_neg (by decide), Bool.or_true, Bool.true_or]
      have hwraps : wraps (token :: others) = wraps others := by simp [wraps, Ne.symm htest]
      rw [hwraps]
      by_cases hnames : namesGroups token = true
      · rw [parse_of_namesGroups hnames, List.filter_cons_of_pos hnames, List.getLast?_cons]
        show (others.map parse).foldlM Request.take ⟨some (tags token), request.wraps⟩ = _
        rw [ih]
        cases (others.filter namesGroups).getLast? <;> rfl
      · have hparse : parse token = unknown token := by
          unfold parse
          rw [if_neg hdrop, if_neg htest]
          exact if_neg hnames
        rw [hparse, List.filter_cons_of_neg hnames]
        exact ih request

theorem request?_eq (tokens : List String) :
    request? tokens =
      if drops tokens then none
      else some ⟨(tokens.filter namesGroups).getLast?.map tags, wraps tokens⟩ := by
  unfold request?
  rw [foldlM_take, Option.or_none, Bool.false_or]

end Directive

/-- What becomes of a fence, by its tokens as a whole. -/
theorem interpret_eq (body : String) (tokens : List String) :
    interpret body tokens =
      if drops tokens then .discard
      else .keep (codeFor tokens body) (targets tokens) (wraps tokens) := by
  unfold interpret
  rw [Directive.request?_eq]
  by_cases hdrops : drops tokens = true
  · rw [if_pos hdrops, if_pos hdrops]
  · rw [if_neg hdrops, if_neg hdrops]
    have htargets : distinctNames (((tokens.filter namesGroups).getLast?.map tags).getD
        [baselineGroup]) = targets tokens := by
      unfold targets
      rw [distinctNames_eq_eraseDups]
      cases (tokens.filter namesGroups).getLast? <;> rfl
    dsimp only
    rw [htargets]
    rfl

theorem nodup_eraseDups : ∀ names : List String, names.eraseDups.Nodup
  | [] => .nil
  | name :: others => by
    have hshorter : (others.filter fun other => !other == name).length < others.length + 1 :=
      Nat.lt_succ_of_le (List.length_filter_le ..)
    rw [List.eraseDups_cons, List.nodup_cons, List.mem_eraseDups, List.mem_filter]
    refine ⟨fun h => ?_, nodup_eraseDups _⟩
    simpa using h.2
  termination_by names => names.length

theorem nodup_targets (tokens : List String) : (targets tokens).Nodup := by
  unfold targets
  split
  · exact nodup_eraseDups _
  · exact List.pairwise_singleton _ _

end LiterateCheck
