import LiterateCheck.Association
import LiterateCheck.Directive
import LiterateCheck.Markup.Outline
import LiterateCheck.Path

/-!
# Groups of code blocks

Blocks are kept per group, in the order in which they were added, and the groups in the order of
their keys. What is written out for a group are its own blocks followed by the baseline's.
-/

namespace LiterateCheck

open Markup (LineSpan)

/-- A block of code taken from a document. -/
structure CodeBlock where
  source : Path
  /-- The code as it is written out. -/
  code : String
  /-- Where the fence stands in the document, when that is known. -/
  span? : Option LineSpan
  /-- Whether the code was made a test. -/
  wrapped : Bool
  deriving DecidableEq, Repr

/-- The location that stands above the block where it is written out. -/
def CodeBlock.location (block : CodeBlock) : String :=
  match block.span? with
  | some span => block.source.shown ++ ":" ++ toString span.start ++ ":1"
  | none => block.source.shown

/-- A group: its key and the blocks that were declared for it. -/
abbrev Group := String × List CodeBlock

/-- Adds a block to the group of a key, in a list of groups by increasing keys. -/
def addBlock (key : String) (block : CodeBlock) : List Group → List Group
  | [] => [(key, [block])]
  | (k, blocks) :: others =>
    if key < k then (key, [block]) :: (k, blocks) :: others
    else if key = k then (k, blocks ++ [block]) :: others
    else (k, blocks) :: addBlock key block others

theorem fst_mem_addBlock {key : String} {block : CodeBlock} {groups : List Group} {group : Group}
    (h : group ∈ addBlock key block groups) :
    group.1 = key ∨ ∃ g ∈ groups, g.1 = group.1 := by
  fun_induction addBlock key block groups with
  | case1 => simp_all
  | case2 k blocks others hlt =>
    rcases List.mem_cons.1 h with rfl | h
    · exact .inl rfl
    · exact .inr ⟨group, h, rfl⟩
  | case3 blocks others hlt =>
    rcases List.mem_cons.1 h with rfl | h
    · exact .inl rfl
    · exact .inr ⟨group, List.mem_cons_of_mem _ h, rfl⟩
  | case4 k blocks others hlt hne ih =>
    rcases List.mem_cons.1 h with rfl | h
    · exact .inr ⟨(k, blocks), List.mem_cons_self .., rfl⟩
    · rcases ih h with h | ⟨g, hg, h⟩
      · exact .inl h
      · exact .inr ⟨g, List.mem_cons_of_mem _ hg, h⟩

/-- Adding a block keeps the keys in increasing order. -/
theorem sorted_addBlock (key : String) (block : CodeBlock) {groups : List Group}
    (h : groups.Pairwise (·.1 < ·.1)) : (addBlock key block groups).Pairwise (·.1 < ·.1) := by
  fun_induction addBlock key block groups with
  | case1 => simp
  | case2 k blocks others hlt =>
    refine List.Pairwise.cons ?_ h
    intro g hg
    rcases List.mem_cons.1 hg with rfl | hg
    · exact hlt
    · exact String.lt_trans hlt (List.rel_of_pairwise_cons h hg)
  | case3 blocks others hlt =>
    exact List.Pairwise.cons (fun g hg => List.rel_of_pairwise_cons h hg) h.of_cons
  | case4 k blocks others hlt hne ih =>
    refine List.Pairwise.cons ?_ (ih h.of_cons)
    intro g hg
    rcases fst_mem_addBlock hg with heq | ⟨g', hg', heq⟩
    · have hle : k ≤ key := String.not_lt.1 hlt
      have : k < key := by
        rcases Decidable.em (k < key) with h' | h'
        · exact h'
        · exact absurd (String.le_antisymm (String.not_lt.1 h') hle) hne
      simpa [heq] using this
    · rw [← heq]
      exact List.rel_of_pairwise_cons h hg'

/-- A key below all keys of a list has no group there. -/
theorem lookup_eq_none_of_lt {key : String} {groups : List Group}
    (h : ∀ group ∈ groups, key < group.1) : groups.lookup key = none := by
  rw [List.lookup_eq_none_iff]
  intro group hg
  have hne : key ≠ group.1 := fun heq => String.lt_irrefl key (heq ▸ h group hg)
  simpa using hne

/-- A block that was added stands last in the group of its key, and every other group is as before. -/
theorem lookup_addBlock (key : String) (block : CodeBlock) (k : String) {groups : List Group}
    (h : groups.Pairwise (·.1 < ·.1)) :
    (addBlock key block groups).lookup k =
      if k = key then some ((groups.lookup key).getD [] ++ [block]) else groups.lookup k := by
  fun_induction addBlock key block groups with
  | case1 => simp [lookup_cons_eq_ite]
  | case2 k' blocks others hlt =>
    have hnone : ((k', blocks) :: others).lookup key = none := by
      refine lookup_eq_none_of_lt fun group hg => ?_
      rcases List.mem_cons.1 hg with rfl | hg
      · exact hlt
      · exact String.lt_trans hlt (List.rel_of_pairwise_cons h hg)
    rw [lookup_cons_eq_ite, hnone]
    rfl
  | case3 blocks others hlt =>
    simp only [lookup_cons_eq_ite, if_true, Option.getD_some]
    split <;> rfl
  | case4 k' blocks others hlt hne ih =>
    rw [lookup_cons_eq_ite, ih h.of_cons, lookup_cons_eq_ite, lookup_cons_eq_ite, if_neg hne]
    by_cases hk : k = k'
    · subst hk
      simp [Ne.symm hne]
    · simp [hk]

/-- The groups of a project, by increasing keys. -/
structure GroupTable where
  groups : List Group
  sorted : groups.Pairwise (·.1 < ·.1)

namespace GroupTable

def empty : GroupTable := ⟨[], .nil⟩

instance : Inhabited GroupTable := ⟨empty⟩

/-- Adds a block to the group of a key. -/
def add (table : GroupTable) (key : String) (block : CodeBlock) : GroupTable :=
  ⟨addBlock key block table.groups, sorted_addBlock key block table.sorted⟩

/-- Adds a block to the group of each key. -/
def push (table : GroupTable) (keys : List String) (block : CodeBlock) : GroupTable :=
  keys.foldl (fun table key => table.add key block) table

def keys (table : GroupTable) : List String :=
  table.groups.map Prod.fst

/-- The blocks that were declared for a key, when there are any. -/
def declared? (table : GroupTable) (key : String) : Option (List CodeBlock) :=
  table.groups.lookup key

def declared (table : GroupTable) (key : String) : List CodeBlock :=
  (table.declared? key).getD []

theorem declared_empty (key : String) : empty.declared key = [] := rfl

theorem declared_add (table : GroupTable) (key : String) (block : CodeBlock) (k : String) :
    (table.add key block).declared k =
      if k = key then table.declared key ++ [block] else table.declared k := by
  simp only [declared, declared?, add, lookup_addBlock key block k table.sorted]
  split <;> rfl

/-- The blocks of the baseline group. -/
def baseline (table : GroupTable) : List CodeBlock :=
  table.declared baselineGroup

/-- The blocks that are written out for a key. -/
def effective (table : GroupTable) (key : String) : List CodeBlock :=
  if key = baselineGroup then table.declared key else table.declared key ++ table.baseline

/-- The number of groups. -/
def size (table : GroupTable) : Nat :=
  table.groups.length

/-- The number of declared blocks in all groups. -/
def blockCount (table : GroupTable) : Nat :=
  (table.groups.flatMap fun group => group.2).length

end GroupTable

end LiterateCheck
